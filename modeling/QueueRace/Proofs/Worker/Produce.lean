import QueueRace.Proofs.Race.Token
import QueueRace.Proofs.Worker.Course

/-! What a producer enqueues while others do what they like. Only one kind of step appends an item,
with the number that the next phase counts up, so the items of a producer are numbered without a gap
and the number that it returns is how many there are. It looks at the token before each of them:
when the token is cancelled, it is about to enqueue one more item or none. -/

namespace QueueRace

open Course (OwnStep follow ownSteps follow_induction)

/-- The items that stand in `after` behind as many as there were in `before`. -/
def Arena.gained (before after : Arena) : List Item :=
  after.queue.toList.drop before.queue.toList.length

namespace Producer

def act (c : Config) (id : ℕ) (word : UInt64) (a : Arena) (p : Producer) : Arena × Producer :=
  p.step c id word a

def after (c : Config) (id : ℕ) (t : OwnStep Producer) : Arena :=
  (act c id t.word t.arena t.worker).1

/-- What the steps of a producer have appended to the queue. -/
def appended (c : Config) (id : ℕ) (ts : List (OwnStep Producer)) : List Item :=
  ts.flatMap fun t => t.arena.gained (after c id t)

def firstKeys (id : ℕ) (n : UInt64) : List (ℕ × UInt64) :=
  (List.range n.toNat).map fun k => (id, k.toUInt64)

/-- The last time that a producer looked whether to go on, it had counted `n` items, and if it did
not find the token cancelled, it had made them all. -/
def LastCheck (c : Config) (n : UInt64) (ts : List (OwnStep Producer)) : Prop :=
  ∃ before t later, ts = before ++ t :: later ∧ t.worker = .check n ∧
    (∀ u ∈ later, ∀ m, u.worker ≠ .check m) ∧ (t.arena.stop.cancelled = false → n = c.items)

section
variable (c : Config) (id : ℕ) (a : Arena) (hs : List Happening)

def course : Arena × Producer := follow (act c id) hs a (.check 0)

def steps : List (OwnStep Producer) := ownSteps (act c id) hs a (.check 0)

/-- What a producer does that starts in the arena `a`, in the course `hs`. -/
structure Counts : Prop where
  behind : ∀ t ∈ steps c id a hs,
    t.arena.queue.toList ++ t.arena.gained (after c id t) = (after c id t).queue.toList
  keys : ∃ n ≤ c.items, (appended c id (steps c id a hs)).map Item.key = firstKeys id n
  returned : ∀ {n}, (course c id a hs).2 = .ended (.returned n) →
    (appended c id (steps c id a hs)).map Item.key = firstKeys id n ∧ n ≤ c.items ∧
      LastCheck c n (steps c id a hs)
  values : ∀ item ∈ appended c id (steps c id a hs), item.value < 100
  early : a.stop.cancelled = true → appended c id (steps c id a hs) = [] ∧
    ∀ {n}, (course c id a hs).2 = .ended (.returned n) → n = 0
  late : ∀ {first later b p}, hs = first ++ later → course c id a first = (b, p) →
    b.stop.cancelled = true → (appended c id (ownSteps (act c id) later b p)).length ≤ 1
  fits : ∀ t ∈ steps c id a hs, ∀ {n}, t.worker = .enqueue n → n.toNat + 1 < UInt64.size
  /-- It panics only where a pause would end after the last reading of the clock. -/
  panicked : (course c id a hs).2 = .ended .panicked →
    ∃ t ∈ steps c id a hs, Instant.limit < t.arena.now + UInt64.size * 1000
  /-- If the others leave the queue alone, it holds what it has held before, and then the items of
  the producer. -/
  alone : (∀ v, .visit v ∈ hs → ∀ b, (v.run b).queue = b.queue) →
    (course c id a hs).1.queue.toList = a.queue.toList ++ appended c id (steps c id a hs)

end

/-! ### One step -/

def item? (id : ℕ) (word : UInt64) : Producer → Option Item
  | .enqueue n => some ⟨id, n, (pick (valueBound - 1) word).toNat⟩
  | _ => none

/-- How many items a producer enqueues before it looks at the token again. -/
def pending : Producer → ℕ
  | .enqueue _ => 1
  | _ => 0

section
variable {c : Config} {id : ℕ} {a : Arena} {p : Producer} {past : List (OwnStep Producer)}
  {hs : List Happening}

theorem step_queue (hq : a.queue.Sound) (c : Config) (id : ℕ) (word : UInt64) (p : Producer) :
    (act c id word a p).1.queue.toList = a.queue.toList ++ (p.item? id word).toList := by
  cases p with
  | enqueue n => exact (hq.enqueue _).2
  | _ => exact (List.append_nil _).symm

theorem gained_step (hq : a.queue.Sound) (c : Config) (id : ℕ) (word : UInt64) (p : Producer) :
    a.gained (act c id word a p).1 = (p.item? id word).toList := by
  rw [Arena.gained, step_queue hq, List.drop_left]

theorem value_lt {word : UInt64} {item : Item} (h : p.item? id word = some item) :
    item.value < 100 := by
  cases p with
  | enqueue n =>
    obtain rfl := Option.some.inj h
    have hpick : pick (valueBound - 1) word = word % 100 := rfl
    show (pick (valueBound - 1) word).toNat < 100
    rw [hpick, UInt64.toNat_mod]
    exact Nat.mod_lt _ (by decide)
  | _ => cases h

theorem length_firstKeys (id : ℕ) (n : UInt64) : (firstKeys id n).length = n.toNat := by
  rw [firstKeys, List.length_map, List.length_range]

theorem firstKeys_succ {n items : UInt64} (h : n < items) (id : ℕ) :
    firstKeys id (n + 1) = firstKeys id n ++ [(id, n)] := by
  rw [firstKeys, toNat_succ h, List.range_succ, List.map_append, firstKeys]
  simp

theorem appended_snoc (hq : a.queue.Sound) (past : List (OwnStep Producer)) (word : UInt64) :
    appended c id (past ++ [⟨word, a, p⟩]) = appended c id past ++ (p.item? id word).toList := by
  have hgained : a.gained (after c id ⟨word, a, p⟩) = _ := gained_step hq c id word p
  simp [appended, hgained]

theorem appended_cons (hq : a.queue.Sound) (word : UInt64) (ts : List (OwnStep Producer)) :
    appended c id (⟨word, a, p⟩ :: ts) = (p.item? id word).toList ++ appended c id ts := by
  have hgained : a.gained (after c id ⟨word, a, p⟩) = _ := gained_step hq c id word p
  rw [appended, List.flatMap_cons, hgained, appended]

theorem Sound.mono {items : UInt64} {b b' : Bool} (h : p.Sound items b) (hb : b = true → b' = true) :
    p.Sound items b' := by
  cases b' with
  | true => exact h.cancel
  | false =>
    cases b with
    | true => cases hb rfl
    | false => exact h

/-! ### From step to step -/

/-- What is known of a producer that has come to `p` by the steps `past`. -/
structure Tally (c : Config) (id : ℕ) (a : Arena) (p : Producer) (past : List (OwnStep Producer)) :
    Prop where
  queue : a.queue.Sound
  sound : p.Sound c.items a.stop.cancelled
  behind : ∀ t ∈ past,
    t.arena.queue.toList ++ t.arena.gained (after c id t) = (after c id t).queue.toList
  keys : ∃ n ≤ c.items, (appended c id past).map Item.key = firstKeys id n ∧
    ∀ m, p.count? = some m → m = n
  values : ∀ item ∈ appended c id past, item.value < 100
  fits : ∀ t ∈ past, ∀ {n}, t.worker = .enqueue n → n.toNat + 1 < UInt64.size
  checked : ∀ {n}, p = .leave n ∨ p = .ended (.returned n) → LastCheck c n past
  panicked : p = .ended .panicked →
    ∃ t ∈ past, Instant.limit < t.arena.now + UInt64.size * 1000

theorem Tally.start (ha : a.queue.Sound) (c : Config) (id : ℕ) : Tally c id a (.check 0) [] where
  queue := ha
  sound := UInt64.zero_le
  behind := List.forall_mem_nil _
  keys := ⟨0, UInt64.zero_le, rfl, fun m hm => (Option.some.inj hm).symm⟩
  values := List.forall_mem_nil _
  fits := List.forall_mem_nil _
  checked h := by rcases h with h | h <;> cases h
  panicked h := by cases h

theorem Tally.visit (h : Tally c id a p past) (v : Visit) : Tally c id (v.run a) p past :=
  { h with queue := v.queue h.queue, sound := h.sound.mono v.flag }

theorem Tally.keys_step (h : Tally c id a p past) (word : UInt64) :
    ∃ n ≤ c.items, (appended c id (past ++ [⟨word, a, p⟩])).map Item.key = firstKeys id n ∧
      ∀ m, (act c id word a p).2.count? = some m → m = n := by
  obtain ⟨n, hn, hkeys, hcount⟩ := h.keys
  rw [appended_snoc h.queue, List.map_append, hkeys]
  rcases (step_outcome h.queue c id word p).items with ⟨hlist, hkept⟩ | ⟨k, value, rfl, hnext, -⟩
  · have hnone : (p.item? id word).toList = [] := by
      have hqueue := step_queue h.queue c id word p
      exact List.self_eq_append_right.mp (hlist.symm.trans hqueue)
    rw [hnone]
    exact ⟨n, hn, List.append_nil _, fun m hm => hcount m (hkept m hm)⟩
  · obtain rfl := hcount k rfl
    have hlt : k < c.items := h.sound
    refine ⟨k + 1, ?_, (firstKeys_succ hlt id).symm,
      fun m hm => (Option.some.inj (hnext.symm.trans hm)).symm⟩
    rw [UInt64.le_iff_toNat_le, toNat_succ hlt]
    exact UInt64.lt_iff_toNat_lt.mp hlt

theorem LastCheck.snoc {n : UInt64} (h : LastCheck c n past) {t : OwnStep Producer}
    (ht : ∀ m, t.worker ≠ .check m) : LastCheck c n (past ++ [t]) := by
  obtain ⟨before, u, later, rfl, hu, hlater, hn⟩ := h
  refine ⟨before, u, later ++ [t], by simp, hu, ?_, hn⟩
  exact List.forall_mem_append.mpr ⟨hlater, List.forall_mem_singleton.mpr ht⟩

theorem Tally.checked_step (h : Tally c id a p past) {word n : UInt64}
    (hp : (act c id word a p).2 = .leave n ∨ (act c id word a p).2 = .ended (.returned n)) :
    LastCheck c n (past ++ [⟨word, a, p⟩]) := by
  cases p with
  | check k =>
    simp only [act, step] at hp
    split at hp
    · rcases hp with hp | hp <;> cases hp
    · rename_i hstop
      obtain rfl : k = n := by
        rcases hp with hp | hp <;> cases hp
        rfl
      refine ⟨past, _, [], rfl, rfl, List.forall_mem_nil _, fun hc => ?_⟩
      have hle : k ≤ c.items := h.sound
      have hge : ¬k < c.items := fun hlt => hstop ⟨hlt, by simp [show a.stop.cancelled = false from hc]⟩
      exact UInt64.le_antisymm hle (UInt64.not_lt.mp hge)
  | enqueue k => rcases hp with hp | hp <;> cases hp
  | rest k =>
    simp only [act, step_rest] at hp
    cases hpause : a.pause (jitter c.produceDelay word) <;> rw [hpause] at hp <;>
      rcases hp with hp | hp <;> cases hp
  | asleep k deadline =>
    simp only [act, step] at hp
    split at hp <;> rcases hp with hp | hp <;> cases hp
  | leave k =>
    obtain rfl : k = n := by
      rcases hp with hp | hp <;> cases hp
      rfl
    exact (h.checked (.inl rfl)).snoc fun m hm => by cases hm
  | ended exit =>
    refine (h.checked ?_).snoc fun m hm => by cases hm
    exact hp

theorem Tally.panicked_step (h : Tally c id a p past) {word : UInt64}
    (hp : (act c id word a p).2 = .ended .panicked) :
    ∃ t ∈ past ++ [⟨word, a, p⟩], Instant.limit < t.arena.now + UInt64.size * 1000 := by
  by_cases hbefore : p = .ended .panicked
  · obtain ⟨t, ht, hlt⟩ := h.panicked hbefore
    exact ⟨t, List.mem_append_left _ ht, hlt⟩
  · refine ⟨_, List.mem_append_right _ (List.mem_singleton_self _), Nat.lt_of_not_le fun hroom => ?_⟩
    exact step_ne_panicked hroom hbefore c id word hp

theorem Tally.step (h : Tally c id a p past) (word : UInt64) :
    Tally c id (act c id word a p).1 (act c id word a p).2 (past ++ [⟨word, a, p⟩]) := by
  have ho := step_outcome h.queue c id word p
  constructor
  case queue => exact h.queue.grew ho.grew
  case sound => exact (ho.sound h.sound).mono fun hc => by rw [← hc]; exact congrArg _ ho.stop
  case behind =>
    refine List.forall_mem_append.mpr ⟨h.behind, List.forall_mem_singleton.mpr ?_⟩
    rw [after, gained_step h.queue, step_queue h.queue]
  case keys => exact h.keys_step word
  case values =>
    rw [appended_snoc h.queue]
    exact List.forall_mem_append.mpr ⟨h.values, fun item hi => value_lt (Option.mem_toList.mp hi)⟩
  case fits =>
    refine List.forall_mem_append.mpr ⟨h.fits, List.forall_mem_singleton.mpr fun hn => ?_⟩
    obtain rfl : p = _ := hn
    have hlt := UInt64.lt_iff_toNat_lt.mp (show _ < c.items from h.sound)
    exact Nat.lt_of_le_of_lt hlt c.items.toNat_lt
  case checked => exact h.checked_step
  case panicked => exact h.panicked_step

/-! ### After a cancellation -/

/-- With the token cancelled a step uses up what is pending, and nothing new comes to it. -/
theorem pending_step (hc : a.stop.cancelled = true) (c : Config) (id : ℕ) (word : UInt64)
    (p : Producer) :
    (p.item? id word).toList.length + (act c id word a p).2.pending ≤ p.pending := by
  cases p with
  | check n => simp [act, step, item?, pending, hc]
  | rest n =>
    rw [act, step_rest]
    cases a.pause (jitter c.produceDelay word) <;> exact Nat.le_refl 0
  | asleep n deadline =>
    simp only [act, step]
    split <;> exact Nat.le_refl 0
  | _ => exact Nat.le_refl _

theorem pending_le_one (p : Producer) : p.pending ≤ 1 := by
  cases p with
  | enqueue n => exact Nat.le_refl 1
  | _ => exact Nat.zero_le 1

/-- From a cancellation on, the producer appends no more than what is pending. -/
theorem length_appended_le (hq : a.queue.Sound) (hc : a.stop.cancelled = true) (c : Config) (id : ℕ)
    (p : Producer) (hs : List Happening) :
    (appended c id (ownSteps (act c id) hs a p)).length ≤ p.pending := by
  have hall := @follow_induction Producer (act c id) a p
    (fun b q past => (b.queue.Sound ∧ b.stop.cancelled = true) ∧
      (appended c id past).length + q.pending ≤ p.pending)
    (fun {b q past} word ⟨⟨hb, hflag⟩, hle⟩ => ?_)
    (fun v ⟨⟨hb, hflag⟩, hle⟩ => ⟨⟨v.queue hb, v.flag hflag⟩, hle⟩) hs []
    ⟨⟨hq, hc⟩, (Nat.zero_add _).le⟩
  · rw [List.nil_append] at hall
    exact Nat.le_of_add_right_le hall.2
  · have ho := step_outcome hb c id word q
    refine ⟨⟨hb.grew ho.grew, (congrArg _ ho.stop).trans hflag⟩, ?_⟩
    rw [appended_snoc hb, List.length_append]
    have hstep := pending_step hflag c id word q
    omega

/-! ### The whole -/

theorem Tally.follow (h : Tally c id a p past) (hs : List Happening) :
    Tally c id (Course.follow (act c id) hs a p).1 (Course.follow (act c id) hs a p).2
      (past ++ ownSteps (act c id) hs a p) :=
  follow_induction (fun word h => h.step word) (fun v h => h.visit v) hs h

theorem queue_of_alone (hq : a.queue.Sound) (c : Config) (id : ℕ) (p : Producer)
    (hv : ∀ v, .visit v ∈ hs → ∀ b, (v.run b).queue = b.queue) :
    (Course.follow (act c id) hs a p).1.queue.toList =
      a.queue.toList ++ appended c id (ownSteps (act c id) hs a p) := by
  induction hs generalizing a p with
  | nil => exact (List.append_nil _).symm
  | cons happening hs ih =>
    have hrest : ∀ v, .visit v ∈ hs → ∀ b, (v.run b).queue = b.queue :=
      fun v h => hv v (List.mem_cons_of_mem _ h)
    cases happening with
    | step word =>
      have hsound : (act c id word a p).1.queue.Sound := hq.grew (step_outcome hq c id word p).grew
      rw [Course.follow, ownSteps, ih hsound _ hrest, step_queue hq, appended_cons hq,
        List.append_assoc]
    | visit v =>
      have hsame := hv v List.mem_cons_self a
      rw [Course.follow, ownSteps, ih (v.queue hq) p hrest, hsame]

end

/-- Whatever the others do, and whenever the token is cancelled: what a producer returns is the
number of the items that it has enqueued, which are numbered in their order. -/
theorem course_counts (c : Config) (id : ℕ) {a : Arena} (ha : a.queue.Sound)
    (hs : List Happening) : Counts c id a hs := by
  have h : Tally c id (course c id a hs).1 (course c id a hs).2 (steps c id a hs) :=
    (Tally.start ha c id).follow hs
  obtain ⟨n, hn, hkeys, hcount⟩ := h.keys
  constructor
  case behind => exact h.behind
  case keys => exact ⟨n, hn, hkeys⟩
  case returned =>
    intro m hm
    obtain rfl : m = n := hcount m (by rw [hm]; rfl)
    exact ⟨hkeys, hn, h.checked (.inr hm)⟩
  case values => exact h.values
  case early =>
    intro hc
    have hnil : appended c id (steps c id a hs) = [] :=
      List.eq_nil_of_length_eq_zero (Nat.le_zero.mp (length_appended_le ha hc c id (.check 0) hs))
    refine ⟨hnil, fun {m} hm => ?_⟩
    obtain rfl : m = n := hcount m (by rw [hm]; rfl)
    have hlen := congrArg List.length hkeys
    rw [hnil, length_firstKeys] at hlen
    exact UInt64.toNat_inj.mp hlen.symm
  case late =>
    intro first later b p _ hp hc
    have hfirst := (Tally.start ha c id).follow first
    rw [show Course.follow (act c id) first a (.check 0) = (b, p) from hp] at hfirst
    exact (length_appended_le hfirst.queue hc c id p later).trans (pending_le_one p)
  case fits => exact h.fits
  case panicked => exact h.panicked
  case alone => exact queue_of_alone ha c id (.check 0)

/-- Somebody cancels after a check and before its enqueue. -/
def interrupted : List Happening :=
  [.step 0, .step 207, .step 0, .step 0, .visit .cancel, .step 3, .step 7, .step 0, .step 0, .step 0]

/-- The queue holds an item of somebody else, over which `tail` was not moved. -/
theorem course_counts_interrupted :
    ∃ a : Arena, Counts .default 4 a interrupted ∧ a.queue.lag = 1 ∧
      (course .default 4 a interrupted).2 = .ended (.returned 2) ∧
      (course .default 4 a interrupted).1.queue.toList = [⟨9, 6, 5⟩, ⟨4, 0, 7⟩, ⟨4, 1, 3⟩] := by
  refine ⟨⟨(Chain.empty.link ⟨9, 6, 5⟩).1, .new, 1, 0, #[]⟩, course_counts _ _ ?_ _, ?_⟩
  · exact Chain.empty_sound.grew (Chain.empty_sound.link _).1
  · decide

/-! ### Courses that are run -/

/-- What happens in a round with one visitor: a visit, maybe the end of a sleep, and a step. -/
def round (v : Visit) (word : UInt64) (p : Producer) : List Happening :=
  .visit v :: (p.alarm?.map fun deadline => .visit (.sleepThrough deadline)).toList ++ [.step word]

theorem runFor_succ (c : Config) (id : ℕ) (words : ℕ → UInt64) (v : Visit) (n : ℕ) (a : Arena)
    {p : Producer} (hp : ∀ exit, p ≠ .ended exit) :
    runFor c id words v.run (n + 1) a p = runFor c id words v.run n
      (follow (act c id) (p.round v (words n)) a p).1
      (follow (act c id) (p.round v (words n)) a p).2 := by
  -- no cases on the phase, by which the kernel would begin to work out the length of a pause
  rw [runFor]
  · rw [round]
    cases p.alarm? <;> rfl
  · exact hp

/-- A run of a producer with one visitor is a course. -/
theorem runFor_course (c : Config) (id : ℕ) (words : ℕ → UInt64) (v : Visit) (n : ℕ) (a : Arena)
    (p : Producer) : ∃ hs, follow (act c id) hs a p = runFor c id words v.run n a p := by
  induction n generalizing a p with
  | zero => exact ⟨[], rfl⟩
  | succ n ih =>
    by_cases hp : ∃ exit, p = .ended exit
    · obtain ⟨exit, rfl⟩ := hp
      exact ⟨[], rfl⟩
    · obtain ⟨hs, h⟩ := ih _ _
      refine ⟨p.round v (words n) ++ hs, ?_⟩
      rw [Course.follow_append, runFor_succ c id words v n a (not_exists.mp hp)]
      exact h

end Producer

namespace Race

variable {s : Setup} {r r' : Race} {l : Label} {i : ℕ} {th : ProducerThread}

/-- To a producer a turn is a step of its own or a visit. -/
theorem Turn.happening (ht : Turn s r l r') (hq : r.arena.queue.Sound)
    (h : r.producers[i]? = some th) :
    ∃ happening th', r'.producers[i]? = some th' ∧
      follow (Producer.act s.config i) [happening] r.arena th.state = (r'.arena, th'.state) := by
  have hgrew := ht.queue_grew hq
  obtain ⟨v, hv⟩ := Visit.exists_run_eq (a := r.arena) (hq.grew hgrew) (ht.keeps_cancelled hq)
  -- whatever does not touch the producer is a visit
  have hvisit (hkept : r'.producers[i]? = some th) : ∃ happening th',
      r'.producers[i]? = some th' ∧
        follow (Producer.act s.config i) [happening] r.arena th.state = (r'.arena, th'.state) :=
    ⟨.visit v, th, hkept, Prod.ext hv rfl⟩
  cases ht with
  | hireProducer hc hi =>
    refine hvisit ?_
    rw [Array.getElem?_push_lt (Array.getElem?_eq_some_iff.mp h).1]
    exact congrArg some (Array.getElem?_eq_some_iff.mp h).2
  | @producer j p hp hne word =>
    by_cases hij : j = i
    · subst j
      obtain rfl := Option.some.inj (h.symm.trans hp)
      refine ⟨.step word, .running (p.step s.config i word r.arena).2, ?_, rfl⟩
      rw [getElem?_set hp, if_pos rfl]
    · exact hvisit (by rw [getElem?_set hp, if_neg hij, h])
  | @retire j exit hp =>
    by_cases hij : j = i
    · subst j
      obtain rfl := Option.some.inj (h.symm.trans hp)
      refine ⟨.visit v, .gone exit, ?_, Prod.ext hv rfl⟩
      rw [getElem?_set hp, if_pos rfl]
    · exact hvisit (by rw [getElem?_set hp, if_neg hij, h])
  | _ => exact hvisit h

/-- Under every schedule of a run, each producer goes through a course. -/
theorem run_course (hq : r.arena.queue.Sound) (h : r.producers[i]? = some th)
    (schedule : List Label) :
    ∃ hs th', (r.run s schedule).producers[i]? = some th' ∧
      follow (Producer.act s.config i) hs r.arena th.state =
        ((r.run s schedule).arena, th'.state) := by
  induction schedule generalizing r th with
  | nil => exact ⟨[], th, h, rfl⟩
  | cons l schedule ih =>
    have ht := step_turn s r l
    obtain ⟨happening, th', hth', hone⟩ := ht.happening hq h
    obtain ⟨hs, th'', hth'', hrest⟩ := ih (hq.grew (ht.queue_grew hq)) hth'
    refine ⟨happening :: hs, th'', hth'', ?_⟩
    rw [← List.singleton_append, Course.follow_append, hone]
    exact hrest

end Race

end QueueRace
