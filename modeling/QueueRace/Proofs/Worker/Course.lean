import QueueRace.Proofs.Chain.Alone
import QueueRace.Worker.Alone

/-! A worker among others. Between two of its steps the others may do to the arena what they like,
but for two things: a queue that lies in a layout still lies in one afterwards, and a cancellation
is not taken back. A course says what happens, step by step and visit by visit. -/

namespace QueueRace

/-- What others do to an arena between two steps of a worker. -/
structure Visit where
  run : Arena → Arena
  queue : ∀ {a : Arena}, a.queue.Sound → (run a).queue.Sound
  flag : ∀ {a : Arena}, a.stop.cancelled = true → (run a).stop.cancelled = true

namespace Visit

def cancel : Visit := ⟨Arena.cancel, fun h => h, fun _ => rfl⟩

def sleepThrough (deadline : Instant) : Visit where
  run a := a.sleepThrough deadline
  queue h := by
    rw [Arena.sleepThrough]
    split <;> exact h
  flag h := by
    rw [Arena.sleepThrough]
    split <;> exact h

/-- Nothing else is asked of the others. -/
theorem exists_run_eq {a b : Arena} (hq : b.queue.Sound)
    (hf : a.stop.cancelled = true → b.stop.cancelled = true) : ∃ v : Visit, v.run a = b := by
  refine ⟨⟨fun x => { b with
    stop := { b.stop with cancelled := b.stop.cancelled || x.stop.cancelled } },
    fun _ => hq, fun h => by simp [h]⟩, ?_⟩
  have hsame : (b.stop.cancelled || a.stop.cancelled) = b.stop.cancelled := by
    cases ha : a.stop.cancelled with
    | false => exact Bool.or_false _
    | true => rw [hf ha]; rfl
  simp only [hsame]

end Visit

/-- What can happen while a worker runs: a step of its own with a random word at hand, or a visit. -/
inductive Happening where
  | step (word : UInt64)
  | visit (v : Visit)

namespace Course

structure OwnStep (σ : Type) where
  word : UInt64
  arena : Arena
  worker : σ

section
variable {σ : Type} (act : UInt64 → Arena → σ → Arena × σ)

def follow : List Happening → Arena → σ → Arena × σ
  | [], a, w => (a, w)
  | .step word :: hs, a, w => follow hs (act word a w).1 (act word a w).2
  | .visit v :: hs, a, w => follow hs (v.run a) w

def ownSteps : List Happening → Arena → σ → List (OwnStep σ)
  | [], _, _ => []
  | .step word :: hs, a, w => ⟨word, a, w⟩ :: ownSteps hs (act word a w).1 (act word a w).2
  | .visit v :: hs, a, w => ownSteps hs (v.run a) w

variable {act} {a : Arena} {w : σ}

theorem follow_append (first later : List Happening) (a : Arena) (w : σ) :
    follow act (first ++ later) a w =
      follow act later (follow act first a w).1 (follow act first a w).2 := by
  induction first generalizing a w with
  | nil => rfl
  | cons happening first ih => cases happening <;> exact ih _ _

/-- What holds at the start and is kept by steps, and by the visits that a course has, holds after the
course, also if it speaks of the steps that have been made. -/
theorem follow_induction_of_mem {P : Arena → σ → List (OwnStep σ) → Prop}
    (step : ∀ {a w past} (word : UInt64), P a w past →
      P (act word a w).1 (act word a w).2 (past ++ [⟨word, a, w⟩])) (hs : List Happening)
    (visit : ∀ v, .visit v ∈ hs → ∀ {a w past}, P a w past → P (v.run a) w past)
    {past : List (OwnStep σ)} (h : P a w past) :
    P (follow act hs a w).1 (follow act hs a w).2 (past ++ ownSteps act hs a w) := by
  induction hs generalizing a w past with
  | nil =>
    rw [ownSteps, List.append_nil]
    exact h
  | cons happening hs ih =>
    have hrest := fun v hv => @visit v (List.mem_cons_of_mem _ hv)
    cases happening with
    | step word => simpa [follow, ownSteps] using ih hrest (step word h)
    | visit v => exact ih hrest (visit v List.mem_cons_self h)

theorem follow_induction {P : Arena → σ → List (OwnStep σ) → Prop}
    (step : ∀ {a w past} (word : UInt64), P a w past →
      P (act word a w).1 (act word a w).2 (past ++ [⟨word, a, w⟩]))
    (visit : ∀ {a w past} (v : Visit), P a w past → P (v.run a) w past) (hs : List Happening)
    {past : List (OwnStep σ)} (h : P a w past) :
    P (follow act hs a w).1 (follow act hs a w).2 (past ++ ownSteps act hs a w) :=
  follow_induction_of_mem step hs (fun v _ => visit v) h

end

end Course

end QueueRace
