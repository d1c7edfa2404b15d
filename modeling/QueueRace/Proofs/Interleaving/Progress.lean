import Mathlib.Data.List.Induction
import QueueRace.Proofs.Table
import QueueRace.Proofs.Interleaving.Shape

/-! No operation repeats itself without another one getting on. An operation that has to begin
again has seen the queue change since its first load, or it has changed the queue itself, so each
of its passes can be charged to a successful compare-and-swap. And there are not more of these
than the work that was done: every node is linked once, `tail` moves once over each at most, and
`head` moves once for each item that is handed out. -/

namespace QueueRace

variable {α : Type}

/-! ### Passes -/

def Enqueue.Phase.loads : Enqueue.Phase → Bool
  | .readTail => true
  | _ => false

/-- What an enqueuer has loaded is still so. -/
def Enqueue.Phase.Current (c : Chain α) : Enqueue.Phase → Prop
  | .readNext tail => c.tail = tail
  | .recheck tail next => c.tail = tail ∧ c.next tail = next
  | .link tail => c.tail = tail ∧ c.next tail = none
  | .help tail _ => c.tail = tail
  | .readTail | .swing _ | .done => True

def Dequeue.Phase.loads : Dequeue.Phase α → Bool
  | .readHead => true
  | _ => false

/-- What a dequeuer has loaded is still so. -/
def Dequeue.Phase.Current (c : Chain α) : Dequeue.Phase α → Prop
  | .readTail head => c.head = head
  | .readNext head tail => c.head = head ∧ c.tail = tail
  | .recheck head tail _ => c.head = head ∧ c.tail = tail
  | .help tail _ => c.tail = tail
  | .unlink head _ => c.head = head
  | .readHead | .take _ | .done _ => True

namespace Thread

def Current (c : Chain α) : Thread α → Prop
  | .enqueuing ⟨_, p⟩ => p.Current c
  | .dequeuing p => p.Current c
  | _ => True

def loads : Thread α → Bool
  | .enqueuing ⟨_, p⟩ => p.loads
  | .dequeuing p => p.loads
  | _ => false

def linked : Thread α → Bool
  | .enqueuing ⟨_, p⟩ => p.linked
  | .abandoned => true
  | _ => false

theorem current_of_loads {c : Chain α} {th : Thread α} (h : th.loads = true) : th.Current c := by
  cases th with
  | enqueuing q =>
    obtain ⟨new, p⟩ := q
    cases p <;> trivial
  | dequeuing p => cases p <;> trivial
  | _ => trivial

/-- What is current depends on the ends of the chain and on its links. -/
theorem Current.frame {c c' : Chain α} {th : Thread α} (h : th.Current c) (hh : c'.head = c.head)
    (ht : c'.tail = c.tail) (hn : c'.next = c.next) : th.Current c' := by
  cases th with
  | enqueuing q =>
    obtain ⟨new, p⟩ := q
    cases p <;> first | trivial | simpa only [Current, Enqueue.Phase.Current, ht, hn] using h
  | dequeuing p =>
    cases p <;> first | trivial | simpa only [Current, Dequeue.Phase.Current, hh, ht] using h
  | _ => trivial

end Thread

/-- A thread that shows this was in an operation and has not returned from it. -/
def Event.inCall : Event α → Bool
  | .stepped _ => true
  | .abandoned => true
  | _ => false

section
variable {c c' : Chain α} {y : Layout}

/-- An enqueuer that is up to date succeeds in what it tries, and stays up to date until then. -/
theorem Enqueue.step_current (hc : c.Fits y) {new : Addr} {p : Phase} (hs : p.Sound y new)
    (hp : p.Current c) : (step new c p).2.2 ≠ .none ∨
      (step new c p).2.1.Current c ∧ (step new c p).2.1.loads = false := by
  cases p with
  | readTail => exact .inr ⟨rfl, rfl⟩
  | readNext tail => exact .inr ⟨⟨hp, rfl⟩, rfl⟩
  | recheck tail next =>
    obtain ⟨ht, hn⟩ := hp
    simp only [step, if_pos ht]
    cases next with
    | none => exact .inr ⟨⟨ht, hn⟩, rfl⟩
    | some b => exact .inr ⟨ht, rfl⟩
  | link tail =>
    obtain ⟨i, -, ha⟩ := hs
    left
    simp [step, Chain.casNext_eq, hc.getElem?_lt ha, hp.2]
  | help tail next =>
    left
    simp [step, Chain.casTail_of_eq hp]
  | swing tail =>
    right
    simp only [step]
    split <;> exact ⟨trivial, rfl⟩
  | done => exact .inr ⟨trivial, rfl⟩

/-- A dequeuer that is up to date succeeds in what it tries, and stays up to date until then. That
`head` has no successor although `tail` is elsewhere does not happen to it. -/
theorem Dequeue.step_current {p : Phase α} (hs : p.Sound y) (hp : p.Current c) :
    (step c p).2.2 ≠ .none ∨ (step c p).2.1.Current c ∧ (step c p).2.1.loads = false := by
  cases p with
  | readHead => exact .inr ⟨rfl, rfl⟩
  | readTail head => exact .inr ⟨⟨hp, rfl⟩, rfl⟩
  | readNext head tail => exact .inr ⟨hp, rfl⟩
  | recheck head tail next =>
    obtain ⟨i, j, -, -, -, -, -, -, he⟩ := hs
    obtain ⟨hh, ht⟩ := hp
    right
    simp only [step, if_pos hh]
    cases next with
    | none =>
      simp only [if_pos (he rfl)]
      exact ⟨trivial, rfl⟩
    | some b =>
      by_cases hht : head = tail
      · simp only [if_pos hht]
        exact ⟨ht, rfl⟩
      · simp only [if_neg hht]
        exact ⟨hh, rfl⟩
  | help tail next =>
    left
    simp [step, Chain.casTail_of_eq hp]
  | unlink head next =>
    left
    simp [step, Chain.casHead, show c.head = head from hp]
  | take next => exact .inr ⟨trivial, rfl⟩
  | done v => exact .inr ⟨trivial, rfl⟩

/-- A thread that is up to date swaps something, or it stays up to date and does not begin again. -/
theorem Turn.current {th th' : Thread α} {e : Event α} (ht : Turn c th e c' th')
    (hin : e.inCall = true) (hc : c.Fits y) (hs : th.Sound c y) (hth : th.Current c) :
    e.effect ≠ .none ∨ th'.Current c' ∧ th'.loads = false ∧ th'.linked = th.linked := by
  by_cases he : e.effect = .none
  · have hfits := (ht.kept hc hs).fits
    rw [he] at hfits
    obtain ⟨hhead, htail, hnext⟩ := hc.determined hfits
    right
    suffices th'.Current c ∧ th'.loads = false ∧ th'.linked = th.linked from
      ⟨this.1.frame hhead htail hnext, this.2⟩
    cases ht with
    | @enqueuing new p hp =>
      obtain ⟨hcur, hload⟩ := (Enqueue.step_current hc hs.1 hth).resolve_left (not_not.mpr he)
      refine ⟨hcur, ?_, ?_⟩
      · exact hload
      · rcases (Enqueue.step_outcome hc hs.1 hs.2).effect with ⟨a, -, -, h⟩ | ⟨h, -⟩
        · simp [Event.effect, h] at he
        · exact h
    | @dequeuing p hp =>
      obtain ⟨hcur, hload⟩ := (Dequeue.step_current hs.1 hth).resolve_left (not_not.mpr he)
      exact ⟨hcur, hload, rfl⟩
    | testing hp => exact ⟨trivial, rfl, rfl⟩
    | abandon => exact ⟨trivial, rfl, rfl⟩
    | _ => cases hin
  · exact .inl he

/-- After the first load of a pass a thread is up to date. -/
theorem Turn.first {th th' : Thread α} {e : Event α} (ht : Turn c th e c' th')
    (hl : th.loads = true) : th'.Current c' ∧ th'.loads = false ∧ th'.linked = false := by
  cases ht with
  | @enqueuing new p hp => cases p <;> first | exact ⟨rfl, rfl, rfl⟩ | cases hl
  | @dequeuing p hp => cases p <;> first | exact ⟨rfl, rfl, rfl⟩ | cases hl
  | _ => cases hl

end

/-! ### Counting -/

def Effect.links : Effect → Bool
  | .linked _ => true
  | _ => false

def Effect.movesTail : Effect → Bool
  | .movedTail _ => true
  | _ => false

def Effect.movesHead : Effect → Bool
  | .movedHead _ _ => true
  | _ => false

def Event.obtains : Event α → Bool
  | .answered (.dequeued (some _)) => true
  | _ => false

def Thread.obtains : Thread α → Bool
  | .dequeuing (.take _) => true
  | .dequeuing (.done (some _)) => true
  | _ => false

/-- A dequeue has obtained an item once it has moved `head`, and then it finds the value. -/
theorem Dequeue.step_obtains {c : Chain α} {y : Layout} {p : Dequeue.Phase α}
    (hs : (Thread.dequeuing p).Sound c y) :
    (if (Dequeue.step c p).2.2.movesHead then 1 else 0) +
        (if (Thread.dequeuing p).obtains then 1 else 0) =
      if (Thread.dequeuing (Dequeue.step c p).2.1).obtains then 1 else 0 := by
  cases p with
  | recheck head tail next =>
    simp only [Dequeue.step]
    split
    · cases next with
      | none => by_cases ht : head = tail <;> simp [ht] <;> rfl
      | some b => by_cases ht : head = tail <;> simp [ht] <;> rfl
    · rfl
  | help tail next =>
    by_cases ht : c.tail = tail <;>
      simp [Dequeue.step, Chain.casTail, ht, Thread.obtains, Effect.movesHead]
  | unlink head next =>
    by_cases hh : c.head = head <;>
      simp [Dequeue.step, Chain.casHead, hh, Thread.obtains, Effect.movesHead]
  | take a =>
    obtain ⟨v, hv⟩ := Option.isSome_iff_exists.mp (hs.2 a rfl)
    simp [Dequeue.step, Chain.take, hv, Thread.obtains, Effect.movesHead]
  | done v => cases v <;> rfl
  | _ => rfl

theorem Turn.obtains {c c' : Chain α} {y : Layout} {th th' : Thread α} {e : Event α}
    (ht : Turn c th e c' th') (hc : c.Fits y) (hs : th.Sound c y) :
    (if e.effect.movesHead then 1 else 0) + (if th.obtains then 1 else 0) =
      (if e.obtains then 1 else 0) + (if th'.obtains then 1 else 0) := by
  cases ht with
  | enqueuing hp =>
    rcases (Enqueue.step_outcome hc hs.1 hs.2).effect with ⟨a, -, -, h⟩ | ⟨-, h | ⟨a, h⟩⟩ <;>
      simp [h, Event.effect, Effect.movesHead, Thread.obtains, Event.obtains]
  | dequeuing hp => exact (Dequeue.step_obtains hs).trans (Nat.zero_add _).symm
  | dequeued v => cases v <;> rfl
  | _ => rfl

namespace World

def swaps (events : List (ℕ × Event α)) : ℕ := events.countP fun m => m.2.effect ≠ .none

def links (events : List (ℕ × Event α)) : ℕ := events.countP fun m => m.2.effect.links

def tailSwaps (events : List (ℕ × Event α)) : ℕ := events.countP fun m => m.2.effect.movesTail

def headSwaps (events : List (ℕ × Event α)) : ℕ := events.countP fun m => m.2.effect.movesHead

/-- The dequeues that have obtained an item, those included that have not returned yet. -/
def obtained (w : World α) (events : List (ℕ × Event α)) : ℕ :=
  events.countP (fun m => m.2.obtains) + w.threads.countP Thread.obtains

def loads (w : World α) (t : ℕ) : Bool := w.threads[t]?.any Thread.loads

/-- The passes of thread `t` that did not complete its operation: its steps back to the first
load. -/
def retries (t : ℕ) (done : List (World α × ℕ × Move α)) : ℕ :=
  done.countP fun (w, u, m) => match m with
    | .step => u == t && (w.move u .step).1.loads t
    | _ => false

variable {w w' : World α} {past : List (ℕ × Event α)} {y : Layout} {t u : ℕ} {m : Move α}
  {e : Event α} {th th' : Thread α}

theorem loads_iff : w.loads t = true ↔ ∃ th, w.threads[t]? = some th ∧ th.loads = true := by
  rw [loads]
  cases w.threads[t]? <;> simp

theorem swaps_eq (events : List (ℕ × Event α)) :
    swaps events = links events + tailSwaps events + headSwaps events := by
  have hone : ∀ e : Effect, (if decide (e ≠ .none) = true then 1 else 0) =
      (if e.links then 1 else 0) + (if e.movesTail then 1 else 0) + (if e.movesHead then 1 else 0) := by
    intro e
    cases e <;> rfl
  induction events with
  | nil => rfl
  | cons m events ih =>
    have := hone m.2.effect
    simp only [swaps, links, tailSwaps, headSwaps, List.countP_cons] at ih ⊢
    omega

/-- Every effect takes one end of the layout one further. -/
theorem layoutAfter_counts (events : List (ℕ × Event α)) :
    (layoutAfter events).order.length = links events + 1 ∧
      (layoutAfter events).tail = tailSwaps events ∧ (layoutAfter events).head = headSwaps events := by
  induction events using List.reverseRecOn with
  | nil => exact ⟨rfl, rfl, rfl⟩
  | append_singleton events m ih =>
    obtain ⟨t, e⟩ := m
    obtain ⟨h1, h2, h3⟩ := ih
    simp only [layoutAfter_snoc, links, tailSwaps, headSwaps, List.countP_append,
      List.countP_singleton] at h1 h2 h3 ⊢
    cases e.effect <;> simp [Layout.after, Effect.links, Effect.movesTail, Effect.movesHead, h1, h2, h3]

/-- A new step of `tail` needs a node to step on. -/
theorem tailSwaps_le_links (h : w.chain.Fits (layoutAfter past)) : tailSwaps past ≤ links past := by
  obtain ⟨hl, ht, -⟩ := layoutAfter_counts past
  have := h.tail_lt
  omega

/-! ### Items handed out -/

theorem headSwaps_eq_obtained {n : ℕ} {moves : List (ℕ × Move α)} {events : List (ℕ × Event α)}
    (h : (start n).run moves = some (w, events)) : headSwaps events = w.obtained events := by
  have hstep : ∀ {w : World α} {past : List (ℕ × Event α)} {t m w' e},
      (∃ y, w.Sound y) ∧ headSwaps past = w.obtained past → w.move t m = (w', some e) →
        (∃ y, w'.Sound y) ∧ headSwaps (past ++ [(t, e)]) = w'.obtained (past ++ [(t, e)]) := by
    rintro w past t m w' e ⟨⟨y, hs⟩, hc⟩ hm
    obtain ⟨th, th', hth, ht, hset⟩ := move_turn hm
    refine ⟨⟨_, hs.turn hth ht hset⟩, ?_⟩
    have hone := ht.obtains hs.fits (hs.threads hth)
    have hcount := countP_setIfInBounds hth th' Thread.obtains
    simp only [headSwaps, obtained, List.countP_append, List.countP_singleton, hset] at hc ⊢
    omega
  have hstart : headSwaps ([] : List (ℕ × Event α)) = (start n : World α).obtained [] := by
    have hidle : ∀ th ∈ (start n : World α).threads, ¬ th.obtains = true := by
      intro th hth
      obtain ⟨t, ht⟩ := Array.getElem?_of_mem hth
      rw [start_idle ht]
      nofun
    simp [headSwaps, obtained, Array.countP_eq_zero.mpr hidle]
  exact (run_induction (P := fun w past => (∃ y, w.Sound y) ∧ headSwaps past = w.obtained past)
    hstep moves ⟨⟨_, start_sound n⟩, hstart⟩ h).2

/-! ### Retries are paid for -/

/-- A thread has not begun again more often than there were swaps, and it is up to date unless
there was one more. -/
def Paid (c : Chain α) (th : Thread α) (retried swapped : ℕ) : Prop :=
  retried ≤ swapped ∧ (retried < swapped ∨ th.Current c)

section
variable {c c' : Chain α} {retried swapped : ℕ}

theorem Paid.frame (h : Paid c th retried swapped) (hc : c.Fits y) (hc' : c'.Fits (y.after e.effect)) :
    Paid c' th retried (swapped + if decide (e.effect ≠ .none) then 1 else 0) := by
  obtain ⟨hle, hcur⟩ := h
  by_cases he : e.effect = .none
  · rw [he] at hc' ⊢
    obtain ⟨hhead, htail, hnext⟩ := hc.determined hc'
    exact ⟨hle, hcur.imp_right fun hcur => hcur.frame hhead htail hnext⟩
  · rw [if_pos (decide_eq_true he)]
    exact ⟨by omega, .inl (by omega)⟩

theorem Paid.turn (h : Paid c th retried swapped) (ht : Turn c th e c' th')
    (hin : e.inCall = true) (hc : c.Fits y) (hs : th.Sound c y) {more : ℕ}
    (hmore : more = 0 ∨ more = 1 ∧ th'.loads = true) :
    Paid c' th' (retried + more) (swapped + if decide (e.effect ≠ .none) then 1 else 0) := by
  obtain ⟨hle, hcur⟩ := h
  have hload : more = 0 ∨ th'.Current c' := hmore.imp_right fun hl => Thread.current_of_loads hl.2
  by_cases he : e.effect = .none
  · rw [if_neg (by simp [he])]
    rcases hcur with hlt | hcur
    · refine ⟨by omega, ?_⟩
      rcases hload with h0 | hcur'
      · exact .inl (by omega)
      · exact .inr hcur'
    · obtain ⟨hcur', hl, -⟩ := (ht.current hin hc hs hcur).resolve_left (not_not.mpr he)
      have h0 : more = 0 := hmore.resolve_right fun h => by simp [hl] at h
      exact ⟨by omega, .inr hcur'⟩
  · rw [if_pos (decide_eq_true he)]
    refine ⟨by omega, ?_⟩
    rcases hload with h0 | hcur'
    · exact .inl (by omega)
    · exact .inr hcur'

end

theorem retries_append (d d' : List (World α × ℕ × Move α)) :
    retries t (d ++ d') = retries t d + retries t d' := List.countP_append

/-- Only a step of the thread itself is counted, and then it is at its first load. -/
theorem retries_singleton (hm : w.move u m = (w', some e)) :
    retries t [(w, u, m)] = 0 ∨ u = t ∧ retries t [(w, u, m)] = 1 ∧ w'.loads t = true := by
  cases m with
  | step =>
    simp only [retries, List.countP_singleton, hm]
    split
    · rename_i h
      simp only [Bool.and_eq_true, beq_iff_eq] at h
      exact .inr ⟨h.1, rfl, h.2⟩
    · exact .inl rfl
  | _ => exact .inl rfl

/-- Thread `t` has not returned from an operation, or called one. -/
def WithinCall (t : ℕ) (events : List (ℕ × Event α)) : Prop :=
  ∀ m ∈ events, m.1 = t → m.2.inCall = true

instance (t : ℕ) (events : List (ℕ × Event α)) : Decidable (WithinCall t events) :=
  inferInstanceAs (Decidable (∀ m ∈ events, m.1 = t → m.2.inCall = true))

theorem WithinCall.left {later : List (ℕ × Event α)} (h : WithinCall t (past ++ later)) :
    WithinCall t past := fun m hm => h m (List.mem_append_left _ hm)

theorem WithinCall.last (h : WithinCall t (past ++ [(t, e)])) : e.inCall = true :=
  h (t, e) (List.mem_append_right _ List.mem_cons_self) rfl

/-- In a run that leaves a thread in its operation, the thread's passes are paid for. -/
theorem run_paid {moves : List (ℕ × Move α)} {events : List (ℕ × Event α)} (hs : w.Sound y)
    (hl : w.loads t = true) (h : w.run moves = some (w', events)) (he : WithinCall t events) :
    ∃ th, w'.threads[t]? = some th ∧ Paid w'.chain th (retries t (w.visited moves)) (swaps events) := by
  have hstart : ∃ th, w.threads[t]? = some th ∧
      Paid w.chain th (retries t ([] : List (World α × ℕ × Move α)))
        (swaps ([] : List (ℕ × Event α))) := by
    obtain ⟨th, hth, hload⟩ := loads_iff.mp hl
    exact ⟨th, hth, le_rfl, .inr (Thread.current_of_loads hload)⟩
  refine (run_induction_visited (P := fun w past d => (∃ y, w.Sound y) ∧ (WithinCall t past →
    ∃ th, w.threads[t]? = some th ∧ Paid w.chain th (retries t d) (swaps past))) ?_ moves
    ⟨⟨y, hs⟩, fun _ => hstart⟩ h).2 he
  rintro w past d u m w' e ⟨⟨y, hs⟩, hp⟩ hm
  obtain ⟨th, th', hth, ht, hset⟩ := move_turn hm
  refine ⟨⟨_, hs.turn hth ht hset⟩, fun hw => ?_⟩
  obtain ⟨tht, htht, hpaid⟩ := hp hw.left
  have hmore := retries_singleton (t := t) hm
  rw [retries_append, swaps, List.countP_append, List.countP_singleton, ← swaps]
  simp only [getElem?_of_set hset hth]
  by_cases hu : u = t
  · subst u
    obtain rfl := Option.some.inj (hth.symm.trans htht)
    rw [if_pos rfl]
    refine ⟨th', rfl, hpaid.turn ht hw.last hs.fits (hs.threads hth)
      (hmore.imp_right fun h => ⟨h.2.1, ?_⟩)⟩
    simpa [loads, getElem?_of_set hset hth] using h.2.2
  · rw [if_neg hu, hmore.resolve_right fun h => hu h.1]
    exact ⟨tht, htht, hpaid.frame hs.fits (ht.kept hs.fits (hs.threads hth)).fits⟩

/-- A thread that is up to date in the middle of a pass does not begin again before a swap, and it
does not abandon its operation before one. -/
theorem run_pass {moves : List (ℕ × Move α)} {events : List (ℕ × Event α)} (hs : w.Sound y)
    (hth : w.threads[t]? = some th)
    (hcur : th.Current w.chain ∧ th.loads = false ∧ th.linked = false)
    (h : w.run moves = some (w', events)) (he : WithinCall t events)
    (hl : w'.loads t = true ∨ w'.threads[t]? = some .abandoned) :
    ∃ m ∈ events, m.2.effect ≠ .none := by
  have hstart : WithinCall t ([] : List (ℕ × Event α)) →
      (∃ m ∈ ([] : List (ℕ × Event α)), m.2.effect ≠ .none) ∨
        ∃ th, w.threads[t]? = some th ∧ th.Current w.chain ∧ th.loads = false ∧ th.linked = false :=
    fun _ => .inr ⟨th, hth, hcur⟩
  have hend := (run_induction (P := fun w past => (∃ y, w.Sound y) ∧ (WithinCall t past →
    (∃ m ∈ past, m.2.effect ≠ .none) ∨
      ∃ th, w.threads[t]? = some th ∧ th.Current w.chain ∧ th.loads = false ∧ th.linked = false)) ?_
    moves ⟨⟨y, hs⟩, hstart⟩ h).2 he
  · refine hend.resolve_right ?_
    rintro ⟨th', hth', -, hl', hn⟩
    rcases hl with hl | hl
    · simp [loads, hth', hl'] at hl
    · obtain rfl := Option.some.inj (hth'.symm.trans hl)
      cases hn
  · rintro w past u m w' e ⟨⟨y, hs⟩, hp⟩ hm
    obtain ⟨th, th', hth, ht, hset⟩ := move_turn hm
    refine ⟨⟨_, hs.turn hth ht hset⟩, fun hw => ?_⟩
    by_cases heff : e.effect = .none
    · refine (hp hw.left).imp (fun ⟨m, hm, h⟩ => ⟨m, List.mem_append_left _ hm, h⟩) ?_
      rintro ⟨tht, htht, hcur, hl, hn⟩
      simp only [getElem?_of_set hset hth]
      by_cases hu : u = t
      · subst u
        obtain rfl := Option.some.inj (hth.symm.trans htht)
        obtain ⟨hcur', hl', hn'⟩ :=
          (ht.current hw.last hs.fits (hs.threads hth) hcur).resolve_left (not_not.mpr heff)
        exact ⟨th', if_pos rfl, hcur', hl', hn'.trans hn⟩
      · have hfits := (ht.kept hs.fits (hs.threads hth)).fits
        rw [heff] at hfits
        obtain ⟨hhead, htail, hnext⟩ := hs.fits.determined hfits
        exact ⟨tht, (if_neg hu).trans htht, hcur.frame hhead htail hnext, hl, hn⟩
    · exact .inl ⟨_, List.mem_append_right _ List.mem_cons_self, heff⟩

/-! ### The whole -/

/-- After the events `past`, and whatever comes next. -/
structure Progress (w : World α) (past : List (ℕ × Event α)) : Prop where
  /-- Between the first load of a pass that does not complete its operation and the end of this pass
  there is a successful compare-and-swap. -/
  pass : ∀ {t later w' first events}, w.loads t = true →
    w.run ((t, .step) :: later) = some (w', first :: events) → WithinCall t events →
      w'.loads t = true ∨ w'.threads[t]? = some .abandoned → ∃ m ∈ events, m.2.effect ≠ .none
  tail : tailSwaps past ≤ links past
  head : headSwaps past = w.obtained past
  /-- The passes that one operation has to repeat are not more than the swaps made meanwhile, and so
  they are bounded by the work that was done up to then. -/
  retried : ∀ {t later w' events}, w.loads t = true → w.run later = some (w', events) →
    WithinCall t events → retries t (w.visited later) ≤ swaps events ∧
      retries t (w.visited later) ≤ 2 * links (past ++ events) + w'.obtained (past ++ events)

/-- Every interleaving makes progress: a pass that comes to nothing is paid for by a swap, and the
swaps are bounded by the nodes linked and the items obtained. -/
theorem run_progress {n : ℕ} {moves : List (ℕ × Move α)} {events : List (ℕ × Event α)}
    (h : (start n).run moves = some (w, events)) : w.Progress events where
  pass := by
    intro t later w' first events' hl hr he hl'
    obtain ⟨w₁, e, es, hm, hr', hes⟩ := run_cons hr
    obtain ⟨-, rfl⟩ := List.cons.inj hes
    obtain ⟨th, th', hth, ht, hset⟩ := move_turn hm
    obtain ⟨th₀, hth₀, hload⟩ := loads_iff.mp hl
    obtain rfl := Option.some.inj (hth.symm.trans hth₀)
    have hs := (run_held h).sound
    have hth' : w₁.threads[t]? = some th' := by rw [getElem?_of_set hset hth, if_pos rfl]
    exact run_pass (hs.turn hth ht hset) hth' (ht.first hload) hr' he hl'
  tail := tailSwaps_le_links (run_held h).sound.fits
  head := headSwaps_eq_obtained h
  retried := by
    intro t later w' events' hl hr he
    obtain ⟨th, -, hpaid, -⟩ := run_paid (run_held h).sound hl hr he
    refine ⟨hpaid, ?_⟩
    have hall := run_append h hr
    have hhead := headSwaps_eq_obtained hall
    have htail := tailSwaps_le_links (run_held hall).sound.fits
    have hsum := swaps_eq (events ++ events')
    have hle : swaps events' ≤ swaps (events ++ events') := by
      simp only [swaps, List.countP_append]
      omega
    omega

/-- An enqueuer loses the race for the last node and begins again. The other one has moved `tail`
meanwhile, so the second pass succeeds. -/
theorem run_progress_lost_race :
    ∃ (w w' : World ℕ) (past events : List (ℕ × Event ℕ)) (later : List (ℕ × Move ℕ)),
      (start 2).run [(0, .call (.enqueue 1)), (1, .call (.enqueue 2))] = some (w, past) ∧
      w.run later = some (w', events) ∧ WithinCall 0 events ∧ w'.chain.toList = [2, 1] ∧
      retries 0 (w.visited later) = 1 ∧ retries 0 (w.visited later) ≤ swaps events := by
  obtain ⟨-, -, -, hretried⟩ := @run_progress ℕ _ 2
    [(0, .call (.enqueue 1)), (1, .call (.enqueue 2))] _ rfl
  exact ⟨_, _, _, _, List.replicate 3 (0, .step) ++ List.replicate 5 (1, .step) ++
    List.replicate 5 (0, .step), rfl, rfl, by decide, rfl, rfl,
    (hretried (t := 0) rfl rfl (by decide)).1⟩

end World

end QueueRace
