import QueueRace.Interleaving
import QueueRace.Proofs.Chain.Stale

/-! One move of a thread. `Turn` lists all that a thread can do to the chain and to itself; every
move that is open is one of these, and other threads are left as they were. What a turn keeps is
proved here once for a single thread: the chain stays in a layout, the thread's knowledge stays
true, and no value and no link changes but by its owner. -/

namespace QueueRace

variable {α : Type}

/-- A thread on the chain `c` shows an event and leaves a chain and a thread behind. -/
inductive Turn (c : Chain α) : Thread α → Event α → Chain α → Thread α → Prop
  | enqueue (v : α) :
    Turn c .idle (.called (.enqueue v)) (c.alloc v) (.enqueuing ⟨c.nodes.size, .readTail⟩)
  | dequeue : Turn c .idle (.called .dequeue) c (.dequeuing .readHead)
  | isEmpty : Turn c .idle (.called .isEmpty) c (.testing .readHead)
  | enqueuing {new : Addr} {p : Enqueue.Phase} (hp : p ≠ .done) :
    Turn c (.enqueuing ⟨new, p⟩) (.stepped (Enqueue.step new c p).2.2) (Enqueue.step new c p).1
      (.enqueuing ⟨new, (Enqueue.step new c p).2.1⟩)
  | dequeuing {p : Dequeue.Phase α} (hp : ∀ v, p ≠ .done v) :
    Turn c (.dequeuing p) (.stepped (Dequeue.step c p).2.2) (Dequeue.step c p).1
      (.dequeuing (Dequeue.step c p).2.1)
  | testing {p : IsEmpty.Phase} (hp : ∀ b, p ≠ .done b) :
    Turn c (.testing p) (.stepped .none) c (.testing (IsEmpty.step c p))
  | enqueued (new : Addr) : Turn c (.enqueuing ⟨new, .done⟩) (.answered .enqueued) c .idle
  | dequeued (v : Option α) : Turn c (.dequeuing (.done v)) (.answered (.dequeued v)) c .idle
  | tested (b : Bool) : Turn c (.testing (.done b)) (.answered (.isEmpty b)) c .idle
  | abandon (new tail : Addr) : Turn c (.enqueuing ⟨new, .swing tail⟩) .abandoned c .abandoned

namespace World

theorem turn_of_proceed {c c' : Chain α} {th th' : Thread α} {e : Event α}
    (h : proceed c th = (c', th', some e)) : Turn c th e c' th' := by
  cases th with
  | idle => simp [proceed] at h
  | abandoned => simp [proceed] at h
  | enqueuing q =>
    obtain ⟨new, p⟩ := q
    by_cases hp : p = .done
    · subst hp
      simp only [proceed, Prod.mk.injEq, Option.some.injEq] at h
      obtain ⟨rfl, rfl, rfl⟩ := h
      exact .enqueued new
    · simp only [proceed, Prod.mk.injEq, Option.some.injEq] at h
      obtain ⟨rfl, rfl, rfl⟩ := h
      exact .enqueuing hp
  | dequeuing p =>
    by_cases hp : ∃ v, p = .done v
    · obtain ⟨v, rfl⟩ := hp
      simp only [proceed, Prod.mk.injEq, Option.some.injEq] at h
      obtain ⟨rfl, rfl, rfl⟩ := h
      exact .dequeued v
    · push Not at hp
      simp only [proceed, Prod.mk.injEq, Option.some.injEq] at h
      obtain ⟨rfl, rfl, rfl⟩ := h
      exact .dequeuing hp
  | testing p =>
    by_cases hp : ∃ b, p = .done b
    · obtain ⟨b, rfl⟩ := hp
      simp only [proceed, Prod.mk.injEq, Option.some.injEq] at h
      obtain ⟨rfl, rfl, rfl⟩ := h
      exact .tested b
    · push Not at hp
      simp only [proceed, Prod.mk.injEq, Option.some.injEq] at h
      obtain ⟨rfl, rfl, rfl⟩ := h
      exact .testing hp

theorem turn_of_begin (c : Chain α) (call : Call α) :
    Turn c .idle (.called call) (begin c call).1 (begin c call).2 := by
  cases call with
  | enqueue v => exact .enqueue v
  | dequeue => exact .dequeue
  | isEmpty => exact .isEmpty

/-- Every move that is open is a turn of its thread. -/
theorem move_turn {w w' : World α} {t : ℕ} {m : Move α} {e : Event α}
    (h : w.move t m = (w', some e)) :
    ∃ th th', w.threads[t]? = some th ∧ Turn w.chain th e w'.chain th' ∧
      w'.threads = w.threads.setIfInBounds t th' := by
  obtain ⟨c, threads⟩ := w
  simp only [move] at h
  split at h
  · rename_i call hth
    simp only [Prod.mk.injEq, Option.some.injEq] at h
    obtain ⟨rfl, rfl⟩ := h
    exact ⟨_, _, hth, turn_of_begin c call, rfl⟩
  · rename_i th hth
    obtain ⟨rfl, he⟩ := Prod.mk.inj h
    exact ⟨_, _, hth, turn_of_proceed (Prod.ext rfl (Prod.ext rfl he)), rfl⟩
  · rename_i new tail hth
    simp only [Prod.mk.injEq, Option.some.injEq] at h
    obtain ⟨rfl, rfl⟩ := h
    exact ⟨_, _, hth, .abandon new tail, rfl⟩
  · simp at h

/-- The moves of an interleaving, each with the world in which it is made. -/
def visited (w : World α) : List (ℕ × Move α) → List (World α × ℕ × Move α)
  | [] => []
  | (t, m) :: moves => (w, t, m) :: (w.move t m).1.visited moves

theorem run_cons {w w' : World α} {t : ℕ} {m : Move α} {moves : List (ℕ × Move α)}
    {events : List (ℕ × Event α)} (h : w.run ((t, m) :: moves) = some (w', events)) :
    ∃ w₁ e later, w.move t m = (w₁, some e) ∧ w₁.run moves = some (w', later) ∧
      events = (t, e) :: later := by
  simp only [run] at h
  split at h
  · cases h
  · rename_i w₁ e hm
    obtain ⟨⟨w₂, later⟩, hr, he⟩ := Option.map_eq_some_iff.mp h
    obtain ⟨rfl, rfl⟩ := Prod.mk.inj he
    exact ⟨w₁, e, later, hm, hr, rfl⟩

theorem run_append {moves later : List (ℕ × Move α)} {w w' w'' : World α}
    {past events : List (ℕ × Event α)} :
    w.run moves = some (w', past) → w'.run later = some (w'', events) →
      w.run (moves ++ later) = some (w'', past ++ events) := by
  induction moves generalizing w past with
  | nil =>
    intro h h'
    cases h
    exact h'
  | cons m moves ih =>
    intro h h'
    obtain ⟨w₁, e, es, hm, hr, rfl⟩ := run_cons h
    simp only [List.cons_append, run, hm, ih hr h']
    rfl

/-- What holds at the start and is kept by every open move holds after every run, also if it speaks
of the worlds that the run has gone through. -/
theorem run_induction_visited
    {P : World α → List (ℕ × Event α) → List (World α × ℕ × Move α) → Prop}
    (step : ∀ {w past d t m w' e}, P w past d → w.move t m = (w', some e) →
      P w' (past ++ [(t, e)]) (d ++ [(w, t, m)])) :
    ∀ (moves : List (ℕ × Move α)) {w : World α} {past : List (ℕ × Event α)}
      {d : List (World α × ℕ × Move α)} {w' events},
      P w past d → w.run moves = some (w', events) →
        P w' (past ++ events) (d ++ w.visited moves)
  | [], w, past, d, w', events, hw, h => by
    simp only [run, Option.some.injEq, Prod.mk.injEq] at h
    obtain ⟨rfl, rfl⟩ := h
    simpa [visited] using hw
  | (t, m) :: moves, w, past, d, w', events, hw, h => by
    obtain ⟨w₁, e, later, hm, hr, rfl⟩ := run_cons h
    have := run_induction_visited step moves (step hw hm) hr
    rwa [List.append_assoc, List.append_assoc, List.singleton_append, List.singleton_append,
      ← show (w.move t m).1 = w₁ from congrArg Prod.fst hm] at this

theorem run_induction {P : World α → List (ℕ × Event α) → Prop}
    (step : ∀ {w past t m w' e}, P w past → w.move t m = (w', some e) → P w' (past ++ [(t, e)]))
    (moves : List (ℕ × Move α)) {w : World α} {past : List (ℕ × Event α)} {w' events}
    (hw : P w past) (h : w.run moves = some (w', events)) : P w' (past ++ events) :=
  run_induction_visited (P := fun w past _ => P w past) (d := []) step moves hw h

end World

end QueueRace
