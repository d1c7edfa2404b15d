import QueueRace.Proofs.Jitter
import QueueRace.Proofs.Race.Pauses
import QueueRace.Proofs.Race.Termination
import QueueRace.Proofs.Worker.Course

/-! A consumer that sees no producer left, on a queue that nobody else uses. It empties the queue and
returns what was in it, in its order. The token only cuts its pauses short: others may cancel it, or
poison its mutex, whenever they like, and neither that nor the length of the pauses changes what is
returned. -/

namespace QueueRace

open Course (OwnStep follow ownSteps follow_induction_of_mem)

namespace Consumer

def act (c : Config) (id : ℕ) (word : UInt64) (a : Arena) (consumer : Consumer) : Arena × Consumer :=
  consumer.advance c id word a

def after (c : Config) (id : ℕ) (t : OwnStep Consumer) : Arena :=
  (act c id t.word t.arena t.worker).1

/-- A step that does not find the consumer asleep without a reason to wake. -/
def awake (t : OwnStep Consumer) : Bool := t.worker.alarm?.all t.arena.wakes

/-- The others leave the queue and the count of producers as they are. -/
def Alone (hs : List Happening) : Prop :=
  ∀ v, .visit v ∈ hs → ∀ b, (v.run b).queue = b.queue ∧ (v.run b).live = b.live

section
variable (c : Config) (id : ℕ) (a : Arena) (hs : List Happening)

def course : Arena × Consumer := follow (act c id) hs a start

def steps : List (OwnStep Consumer) := ownSteps (act c id) hs a start

/-- The consumer has been given time enough, and the clock has always had room for a random pause. -/
structure Suffices : Prop where
  awake : 7 * a.queue.toList.length + 3 ≤ (steps c id a hs).countP awake
  room : ∀ t ∈ steps c id a hs, t.arena.now + UInt64.size * 1000 ≤ Instant.limit

structure Drains : Prop where
  /-- At every moment: what it has got and what is left are the items that were there. -/
  items : (course c id a hs).2.items.toList ++ (course c id a hs).1.queue.toList = a.queue.toList
  returned : ∀ {l}, (course c id a hs).2.exit? = some (.returned l) →
    l = a.queue.toList ∧ (course c id a hs).1.queue.toList = []
  returns : Suffices c id a hs →
    (course c id a hs).2.exit? = some (.returned a.queue.toList) ∧
      (course c id a hs).1.queue.toList = []
  asleep : ∀ {d}, (course c id a hs).2.alarm? = some d →
    ∃ t ∈ steps c id a hs, d ≤ t.arena.now + c.consumeDelay.toNanos
  keeps : ∀ t ∈ steps c id a hs,
    (after c id t).stop = t.arena.stop ∧ (after c id t).live = t.arena.live
  /-- It never comes to the pause of a consumer that waits for a producer. -/
  polls : ∀ t ∈ steps c id a hs, t.worker.phase ≠ .idle
  /-- It panics only where a random pause would end after the last reading of the clock. -/
  panicked : (course c id a hs).2.exit? = some .panicked →
    ∃ t ∈ steps c id a hs, Instant.limit < t.arena.now + UInt64.size * 1000
  /-- A call on the same items returns the same, whatever its token, its pauses and its random
  draws, and whatever the others do to its token meanwhile. -/
  same : ∀ {c' id' a' hs'}, a'.queue.Sound → a'.live = 0 → Alone hs' →
    a'.queue.toList = a.queue.toList → ∀ {l l'},
      (course c id a hs).2.exit? = some (.returned l) →
      (course c' id' a' hs').2.exit? = some (.returned l') → l = l'

end

/-! ### One step -/

section
variable {c : Config} {id : ℕ} {a : Arena} {consumer : Consumer} {past : List (OwnStep Consumer)}
  {p q : Phase} {word : UInt64} {initial : List Item}

theorem Goes.of_asleep (h : Goes c word a p q) {d : Instant} (hq : q = .asleep d) :
    p = q ∨ p = .idle ∨ p = .rest ∧ d ≤ a.now + c.consumeDelay.toNanos := by
  cases h with
  | rests =>
    have hd : a.pause (jitter c.consumeDelay word) = .asleep d := by
      generalize a.pause (jitter c.consumeDelay word) = pause at hq
      cases pause <;> cases hq
      rfl
    refine .inr (.inr ⟨rfl, ?_⟩)
    rw [Arena.pause_eq_asleep hd]
    exact Nat.add_le_add_left (jitter_le c.consumeDelay word) a.now
  | idles => exact .inr (.inl rfl)
  | sleeps => exact .inl rfl
  | remains => exact .inl rfl
  | _ => cases hq

theorem eq_asleep_of_alarm? {d : Instant} (h : consumer.alarm? = some d) :
    consumer.phase = .asleep d := by
  obtain ⟨phase, items⟩ := consumer
  cases phase <;> cases h
  rfl

/-- A consumer that sees no producer left goes down with the queue in every step in which it is
awake. -/
theorem act_rank_lt (hq : a.queue.Sound) (hl : a.live = 0) (hne : consumer.exit? = none)
    (hawake : awake ⟨word, a, consumer⟩ = true) (c : Config) (id : ℕ) :
    7 * (act c id word a consumer).1.queue.toList.length +
        (act c id word a consumer).2.phase.rank <
      7 * a.queue.toList.length + consumer.phase.rank := by
  rcases advance_rank hq hl c id word consumer with hless | ⟨-, hexit | ⟨d, hd, -⟩⟩
  · exact hless
  · rw [hne] at hexit
    cases hexit
  · -- a sleeper that wakes looks again
    obtain ⟨phase, items⟩ := consumer
    obtain rfl := eq_asleep_of_alarm? hd
    have hw : a.wakes d = true := hawake
    have hstep : act c id word a ⟨.asleep d, items⟩ = (a, ⟨.look, items⟩) := by
      simp only [act, advance, step, if_pos hw]
    rw [hstep]
    exact Nat.lt_succ_self _

theorem act_rank_le (hq : a.queue.Sound) (hl : a.live = 0) (c : Config) (id : ℕ) (word : UInt64)
    (consumer : Consumer) :
    7 * (act c id word a consumer).1.queue.toList.length +
        (act c id word a consumer).2.phase.rank ≤
      7 * a.queue.toList.length + consumer.phase.rank := by
  rcases advance_rank hq hl c id word consumer with hless | ⟨⟨hlength, hsame⟩, -⟩
  · exact hless.le
  · exact (congrArg₂ (fun n consumer => 7 * n + consumer.phase.rank) hlength hsame).le

/-! ### From step to step -/

/-- What is known of a consumer that has come to `consumer` by the steps `past`, if the queue held the
items `initial`. -/
structure Draining (c : Config) (id : ℕ) (initial : List Item) (a : Arena) (consumer : Consumer)
    (past : List (OwnStep Consumer)) : Prop where
  queue : a.queue.Sound
  live : a.live = 0
  items : consumer.items.toList ++ a.queue.toList = initial
  settled : consumer.phase.Settled a.live a.queue.toList
  sure : consumer.phase ≠ .poll false ∧ consumer.phase ≠ .idle
  keeps : ∀ t ∈ past, (after c id t).stop = t.arena.stop ∧ (after c id t).live = t.arena.live
  polls : ∀ t ∈ past, t.worker.phase ≠ .idle
  asleep : ∀ {d}, consumer.phase = .asleep d →
    ∃ t ∈ past, d ≤ t.arena.now + c.consumeDelay.toNanos
  panicked : consumer.phase = .panicked →
    ∃ t ∈ past, Instant.limit < t.arena.now + UInt64.size * 1000
  count : consumer.exit?.isSome ∨
    past.countP awake + (7 * a.queue.toList.length + consumer.phase.rank) ≤ 7 * initial.length + 3

theorem Draining.start (hq : a.queue.Sound) (hl : a.live = 0) (c : Config) (id : ℕ) :
    Draining c id a.queue.toList a start [] where
  queue := hq
  live := hl
  items := rfl
  settled := trivial
  sure := ⟨nofun, nofun⟩
  keeps := List.forall_mem_nil _
  polls := List.forall_mem_nil _
  asleep := nofun
  panicked := nofun
  count := .inr (Nat.zero_add _).le

theorem Draining.visit (h : Draining c id initial a consumer past) {v : Visit}
    (hv : ∀ b, (v.run b).queue = b.queue ∧ (v.run b).live = b.live) :
    Draining c id initial (v.run a) consumer past := by
  obtain ⟨hqueue, hlive⟩ := hv a
  constructor
  case queue => exact v.queue h.queue
  case live => rw [hlive, h.live]
  case items => rw [hqueue, h.items]
  case settled =>
    rw [hqueue, hlive]
    exact h.settled
  case sure => exact h.sure
  case keeps => exact h.keeps
  case polls => exact h.polls
  case asleep => exact h.asleep
  case panicked => exact h.panicked
  case count =>
    rw [hqueue]
    exact h.count

theorem Draining.asleep_step (h : Draining c id initial a consumer past) {word : UInt64} {d : Instant}
    (hd : (act c id word a consumer).2.phase = .asleep d) :
    ∃ t ∈ past ++ [⟨word, a, consumer⟩], d ≤ t.arena.now + c.consumeDelay.toNanos := by
  rcases (advance_goes h.queue id consumer).of_asleep hd with hsame | hidle | ⟨-, hle⟩
  · obtain ⟨t, ht, hle⟩ := h.asleep (hsame.trans hd)
    exact ⟨t, List.mem_append_left _ ht, hle⟩
  · exact absurd hidle h.sure.2
  · exact ⟨_, List.mem_append_right _ (List.mem_singleton_self _), hle⟩

theorem Draining.panicked_step (h : Draining c id initial a consumer past) {word : UInt64}
    (hp : (act c id word a consumer).2.phase = .panicked) :
    ∃ t ∈ past ++ [⟨word, a, consumer⟩], Instant.limit < t.arena.now + UInt64.size * 1000 := by
  by_cases hbefore : consumer.phase = .panicked
  · obtain ⟨t, ht, hlt⟩ := h.panicked hbefore
    exact ⟨t, List.mem_append_left _ ht, hlt⟩
  · refine ⟨_, List.mem_append_right _ (List.mem_singleton_self _), Nat.lt_of_not_le fun hroom => ?_⟩
    rcases (advance_goes h.queue id consumer).of_panicked hp hroom with hpanicked | ⟨hidle, -⟩
    · exact hbefore hpanicked
    · exact h.sure.2 hidle

theorem Draining.count_step (h : Draining c id initial a consumer past) (word : UInt64) :
    (act c id word a consumer).2.exit?.isSome ∨
      List.countP awake (past ++ [⟨word, a, consumer⟩]) +
          (7 * (act c id word a consumer).1.queue.toList.length +
            (act c id word a consumer).2.phase.rank) ≤ 7 * initial.length + 3 := by
  cases hexit : consumer.exit? with
  | some e =>
    have hkept := (advance_outcome h.queue c id word consumer).exit hexit
    exact .inl (Option.isSome_of_mem hkept)
  | none =>
    have hle := h.count.resolve_left (by simp [hexit])
    rw [List.countP_append, List.countP_singleton]
    refine .inr ?_
    cases hawake : awake ⟨word, a, consumer⟩ with
    | true =>
      have hlt := act_rank_lt h.queue h.live hexit hawake c id
      rw [if_pos rfl]
      omega
    | false =>
      have hkept := act_rank_le h.queue h.live c id word consumer
      rw [if_neg Bool.false_ne_true]
      omega

theorem Draining.step (h : Draining c id initial a consumer past) (word : UInt64) :
    Draining c id initial (act c id word a consumer).1 (act c id word a consumer).2
      (past ++ [⟨word, a, consumer⟩]) := by
  have ho := advance_outcome h.queue c id word consumer
  have hgoes : Goes c word a consumer.phase (act c id word a consumer).2.phase :=
    advance_goes h.queue id consumer
  have hlive : (act c id word a consumer).1.live = a.live := ho.live
  constructor
  case queue => exact h.queue.grew ho.grew
  case live => rw [hlive, h.live]
  case items =>
    rw [← h.items]
    rcases ho.items with ⟨hitems, hlist⟩ | ⟨item, hlist, hitems⟩
    · exact congrArg₂ (fun (got : Array Item) rest => got.toList ++ rest) hitems hlist
    · rw [hlist, act, hitems, Array.toList_push, List.append_assoc, List.singleton_append]
  case settled =>
    rw [hlive]
    exact ho.settled h.settled
  case sure => exact ⟨fun hq => (hgoes.of_poll hq).2 h.live, fun hq => h.sure.1 (hgoes.of_idle hq).1⟩
  case keeps =>
    exact List.forall_mem_append.mpr ⟨h.keeps, List.forall_mem_singleton.mpr ⟨ho.stop, ho.live⟩⟩
  case polls => exact List.forall_mem_append.mpr ⟨h.polls, List.forall_mem_singleton.mpr h.sure.2⟩
  case asleep => exact h.asleep_step
  case panicked => exact h.panicked_step
  case count => exact h.count_step word

/-! ### At the end -/

theorem Draining.returned (h : Draining c id initial a consumer past) {l : List Item}
    (hl : consumer.exit? = some (.returned l)) : l = initial ∧ a.queue.toList = [] := by
  have hitems := h.items
  have hsettled := h.settled
  obtain ⟨phase, got⟩ := consumer
  cases phase <;> cases hl
  rw [hsettled.2, List.append_nil] at hitems
  exact ⟨hitems, hsettled.2⟩

theorem eq_panicked_of_exit? (h : consumer.exit? = some .panicked) : consumer.phase = .panicked := by
  obtain ⟨phase, got⟩ := consumer
  cases phase <;> cases h
  rfl

theorem Draining.follow (h : Draining c id initial a consumer past) {hs : List Happening}
    (hv : Alone hs) :
    Draining c id initial (Course.follow (act c id) hs a consumer).1
      (Course.follow (act c id) hs a consumer).2 (past ++ ownSteps (act c id) hs a consumer) :=
  follow_induction_of_mem (fun word h => h.step word) hs (fun v hmem _ _ _ h => h.visit (hv v hmem)) h

theorem Draining.exit_isSome (h : Draining c id initial a consumer past)
    (hcount : 7 * initial.length + 3 ≤ past.countP awake) : consumer.exit?.isSome := by
  rcases h.count with hexit | hle
  · exact hexit
  · have hrank : consumer.phase.rank = 0 := by omega
    obtain ⟨phase, got⟩ := consumer
    cases phase with
    | poll drained => cases drained <;> cases hrank
    | ended => rfl
    | panicked => rfl
    | _ => cases hrank

end

/-- With no producer left and nobody else at the queue, a consumer returns what was in the queue, in
its order, and the token has no say in it. -/
theorem course_drains (c : Config) (id : ℕ) {a : Arena} (hq : a.queue.Sound) (hl : a.live = 0)
    {hs : List Happening} (hv : Alone hs) : Drains c id a hs := by
  have hcourse : ∀ (c' : Config) (id' : ℕ) {a' : Arena} {hs' : List Happening}, a'.queue.Sound →
      a'.live = 0 → Alone hs' → Draining c' id' a'.queue.toList (course c' id' a' hs').1
        (course c' id' a' hs').2 (steps c' id' a' hs') :=
    fun c' id' _ _ hq' hl' hv' => (Draining.start hq' hl' c' id').follow hv'
  have h := hcourse c id hq hl hv
  constructor
  case items => exact h.items
  case returned => exact h.returned
  case returns =>
    intro hsuffices
    obtain ⟨e, hexit⟩ := Option.isSome_iff_exists.mp (h.exit_isSome hsuffices.awake)
    cases e with
    | returned l =>
      obtain ⟨rfl, hnil⟩ := h.returned hexit
      exact ⟨hexit, hnil⟩
    | panicked =>
      obtain ⟨t, ht, hlt⟩ := h.panicked (eq_panicked_of_exit? hexit)
      exact absurd hlt (Nat.not_lt.mpr (hsuffices.room t ht))
  case asleep => exact fun hd => h.asleep (eq_asleep_of_alarm? hd)
  case keeps => exact h.keeps
  case polls => exact h.polls
  case panicked => exact fun hexit => h.panicked (eq_panicked_of_exit? hexit)
  case same =>
    intro c' id' a' hs' hq' hl' hv' hsame l l' hexit hexit'
    rw [(h.returned hexit).1, ((hcourse c' id' hq' hl' hv').returned hexit').1, hsame]

/-- Two items, over the second of which `tail` was not moved, and a token whose mutex is poisoned. -/
def leftOver : Arena :=
  ⟨((Chain.empty.enqueue ⟨4, 0, 7⟩).link ⟨9, 6, 5⟩).1, ⟨false, true⟩, 0, 0, #[]⟩

def cutShort : List Happening :=
  [.step 0, .step 0, .step 17, .visit .cancel] ++ List.replicate 14 (.step 3)

/-- The token is cancelled meanwhile, and the consumer takes no notice. -/
theorem course_drains_cut_short :
    leftOver.queue.Sound ∧ leftOver.queue.lag = 1 ∧ leftOver.live = 0 ∧ Alone cutShort ∧
      Suffices .default 2 leftOver cutShort ∧ Drains .default 2 leftOver cutShort ∧
      (course .default 2 leftOver cutShort).1.stop = ⟨true, true⟩ ∧
      (course .default 2 leftOver cutShort).2.exit? =
        some (.returned [⟨4, 0, 7⟩, ⟨9, 6, 5⟩]) := by
  have hsound : leftOver.queue.Sound := by
    have hfirst := Chain.empty_sound.grew (Chain.empty_sound.enqueue (⟨4, 0, 7⟩ : Item)).1
    exact hfirst.grew (hfirst.link _).1
  have halone : Alone cutShort := by
    intro v hv b
    have hcancel : v = .cancel := by simpa [cutShort] using hv
    rw [hcancel]
    exact ⟨rfl, rfl⟩
  have hsuffices : Suffices .default 2 leftOver cutShort := ⟨by decide +kernel, by decide +kernel⟩
  have hdrains : Drains .default 2 leftOver cutShort := course_drains .default 2 hsound rfl halone
  refine ⟨hsound, by decide +kernel, rfl, halone, hsuffices, hdrains, by decide +kernel, ?_⟩
  exact (hdrains.returns hsuffices).1

/-! ### Courses that are run -/

/-- A run of a consumer with one visitor is a course in which it is awake whenever it steps. -/
theorem runFor_course (c : Config) (id : ℕ) (words : ℕ → UInt64) (v : Visit) (n : ℕ) (a : Arena)
    (consumer : Consumer) :
    ∃ hs, follow (act c id) hs a consumer = runFor c id words v.run n a consumer ∧
      (∀ u, .visit u ∈ hs → u = v ∨ ∃ d, u = .sleepThrough d) ∧
      ((runFor c id words v.run n a consumer).2.exit?.isSome ∨
        (ownSteps (act c id) hs a consumer).countP awake = n) := by
  induction n generalizing a consumer with
  | zero => exact ⟨[], rfl, nofun, .inr rfl⟩
  | succ n ih =>
    rw [runFor]
    by_cases hexit : consumer.exit?.isSome
    · rw [if_pos hexit]
      exact ⟨[], rfl, nofun, .inl hexit⟩
    · rw [if_neg hexit]
      cases halarm : consumer.alarm? with
      | none =>
        obtain ⟨hs, hfollow, hvisits, hcount⟩ :=
          ih (act c id (words n) (v.run a) consumer).1 (act c id (words n) (v.run a) consumer).2
        refine ⟨.visit v :: .step (words n) :: hs, hfollow, ?_, hcount.imp_right fun hcount => ?_⟩
        · intro u hu
          simp only [List.mem_cons, Happening.visit.injEq, reduceCtorEq, false_or] at hu
          exact hu.elim .inl (hvisits u)
        · have hawake : awake ⟨words n, v.run a, consumer⟩ = true := by simp [awake, halarm]
          rw [ownSteps, ownSteps, List.countP_cons_of_pos hawake, hcount]
      | some d =>
        obtain ⟨hs, hfollow, hvisits, hcount⟩ :=
          ih (act c id (words n) ((v.run a).sleepThrough d) consumer).1
            (act c id (words n) ((v.run a).sleepThrough d) consumer).2
        refine ⟨.visit v :: .visit (.sleepThrough d) :: .step (words n) :: hs, hfollow, ?_,
          hcount.imp_right fun hcount => ?_⟩
        · intro u hu
          simp only [List.mem_cons, Happening.visit.injEq, reduceCtorEq, false_or] at hu
          rcases hu with hu | hu | hu
          · exact .inl hu
          · exact .inr ⟨d, hu⟩
          · exact hvisits u hu
        · have hwakes : ((v.run a).sleepThrough d).wakes d = true := by
            rw [Arena.sleepThrough]
            split
            · assumption
            · simp [Arena.wakes]
          have hawake : awake ⟨words n, (v.run a).sleepThrough d, consumer⟩ = true := by
            simp [awake, halarm, hwakes]
          rw [ownSteps, ownSteps, ownSteps]
          exact (List.countP_cons_of_pos hawake).trans (congrArg (· + 1) hcount)

theorem runFor_exits (c : Config) (id : ℕ) (words : ℕ → UInt64) {v : Visit}
    (hv : ∀ b, (v.run b).queue = b.queue ∧ (v.run b).live = b.live) {a : Arena}
    (hq : a.queue.Sound) (hl : a.live = 0) {n : ℕ} (hn : 7 * a.queue.toList.length + 3 ≤ n) :
    ∃ hs, Alone hs ∧ course c id a hs = runFor c id words v.run n a start ∧
      (runFor c id words v.run n a start).2.exit?.isSome := by
  obtain ⟨hs, hfollow, hvisits, hcount⟩ := runFor_course c id words v n a start
  have halone : Alone hs := by
    intro u hu b
    rcases hvisits u hu with rfl | ⟨d, rfl⟩
    · exact hv b
    · show (b.sleepThrough d).queue = b.queue ∧ (b.sleepThrough d).live = b.live
      rw [Arena.sleepThrough]
      split <;> exact ⟨rfl, rfl⟩
  refine ⟨hs, halone, hfollow, ?_⟩
  rcases hcount with hexit | hcount
  · exact hexit
  · have h := (Draining.start hq hl c id).follow halone
    rw [List.nil_append] at h
    rw [← hfollow]
    exact h.exit_isSome (hcount ▸ hn)

end Consumer

end QueueRace
