import Mathlib.Data.List.Forall2
import QueueRace.Proofs.StopToken.Turn
import QueueRace.StopToken.Script

/-! A poisoned mutex is taken like any other. Two states that differ only in who has been poisoned
take the same steps, in every interleaving, so a script answers the same when its poisonings are
left out. Only a debug text shows them. -/

namespace QueueRace

/-- The token as it would be if nobody had panicked. -/
def StopToken.unpoisoned (t : StopToken) : StopToken := { t with poisoned := false }

namespace Monitor

def unpoisoned (m : Monitor) : Monitor := { m with token := m.token.unpoisoned }

variable {m m' : Monitor}

theorem stepSleep_unpoisoned (m : Monitor) (t : ℕ) (p : Sleep) :
    m.unpoisoned.stepSleep t p = (m.stepSleep t p).map unpoisoned := by
  cases p with
  | start span =>
    simp only [stepSleep]
    split
    · rfl
    · rw [show m.unpoisoned.now = m.now from rfl]
      split <;> rfl
  | lock d =>
    simp only [stepSleep, acquire]
    rw [show m.unpoisoned.owner = m.owner from rfl]
    split <;> rfl
  | check d =>
    simp only [stepSleep]
    rw [show m.unpoisoned.token.cancelled = m.token.cancelled from rfl]
    split <;> rfl
  | measure d =>
    simp only [stepSleep]
    rw [show m.unpoisoned.now = m.now from rfl]
    split <;> rfl
  | _ => rfl

theorem stepCancel_unpoisoned (m : Monitor) (t : ℕ) (p : Cancel) :
    m.unpoisoned.stepCancel t p = (m.stepCancel t p).map unpoisoned := by
  cases p with
  | await time =>
    simp only [stepCancel]
    rw [show m.unpoisoned.now = m.now from rfl]
    split <;> rfl
  | lock =>
    simp only [stepCancel, acquire]
    rw [show m.unpoisoned.owner = m.owner from rfl]
    split <;> rfl
  | _ => rfl

theorem stepPoison_unpoisoned (m : Monitor) (t : ℕ) (p : Poison) :
    (m.unpoisoned.stepPoison t p).map unpoisoned = (m.stepPoison t p).map unpoisoned := by
  cases p with
  | lock =>
    simp only [stepPoison, acquire]
    rw [show m.unpoisoned.owner = m.owner from rfl]
    split <;> rfl
  | _ => rfl

theorem unpoisoned_unpoisoned (m : Monitor) : m.unpoisoned.unpoisoned = m.unpoisoned := rfl

theorem step_unpoisoned (m : Monitor) (t : ℕ) :
    (m.unpoisoned.step t).map unpoisoned = (m.step t).map unpoisoned := by
  have htwice : unpoisoned ∘ unpoisoned = unpoisoned := funext unpoisoned_unpoisoned
  simp only [step]
  rw [show m.unpoisoned.threads = m.threads from rfl]
  split
  · rfl
  · rw [stepSleep_unpoisoned, Option.map_map, htwice]
  · rw [stepCancel_unpoisoned, Option.map_map, htwice]
  · exact stepPoison_unpoisoned m t _

/-- Whoever can go on, can go on whether or not the mutex is poisoned, and comes to the same. -/
theorem step_alike (h : m.unpoisoned = m'.unpoisoned) (t : ℕ) :
    (m.step t).map unpoisoned = (m'.step t).map unpoisoned := by
  rw [← step_unpoisoned m, h, step_unpoisoned m']

theorem move_alike (h : m.unpoisoned = m'.unpoisoned) (mv : Move) :
    (m.move mv).map unpoisoned = (m'.move mv).map unpoisoned := by
  cases mv with
  | step t => exact step_alike h t
  | tick span => exact congrArg (fun m : Monitor => some (m.tick span)) h

theorem follow_alike (h : m.unpoisoned = m'.unpoisoned) (moves : List Move) :
    (m.follow moves).map unpoisoned = (m'.follow moves).map unpoisoned := by
  induction moves generalizing m m' with
  | nil => exact congrArg some h
  | cons mv moves ih =>
    have hmv := move_alike h mv
    simp only [follow]
    cases hm : m.move mv with
    | none =>
      rw [hm] at hmv
      rw [Option.map_eq_none_iff.mp hmv.symm]
    | some m₁ =>
      rw [hm] at hmv
      obtain ⟨m₁', hm', h₁⟩ := Option.map_eq_some_iff.mp hmv.symm
      rw [hm']
      exact ih h₁.symm

theorem now_alike (h : m.unpoisoned = m'.unpoisoned) : m.now = m'.now :=
  (congrArg Monitor.now h :)

theorem threads_alike (h : m.unpoisoned = m'.unpoisoned) : m.threads = m'.threads :=
  (congrArg Monitor.threads h :)

theorem isReady_alike (h : m.unpoisoned = m'.unpoisoned) : m.isReady = m'.isReady := by
  funext t
  have hsome := congrArg Option.isSome (step_alike h t)
  rw [Option.isSome_map, Option.isSome_map] at hsome
  simp only [isReady, threads_alike h, now_alike h, hsome]

theorem runFor_alike (n : ℕ) (h : m.unpoisoned = m'.unpoisoned) :
    (m.runFor n).unpoisoned = (m'.runFor n).unpoisoned := by
  induction n generalizing m m' with
  | zero => exact h
  | succ n ih =>
    have hnext : m.nextAlarm? = m'.nextAlarm? := by rw [nextAlarm?, nextAlarm?, threads_alike h]
    have hfind : (List.range m.threads.size).find? m.isReady =
        (List.range m'.threads.size).find? m'.isReady := by rw [threads_alike h, isReady_alike h]
    rw [runFor, runFor, hfind, hnext]
    split
    · rename_i t _
      refine ih ?_
      have hstep := step_alike h t
      cases hm : m.step t with
      | none =>
        rw [hm] at hstep
        rw [Option.map_eq_none_iff.mp hstep.symm]
        exact h
      | some m₁ =>
        rw [hm] at hstep
        obtain ⟨m₁', hm', h₁⟩ := Option.map_eq_some_iff.mp hstep.symm
        rw [hm']
        exact h₁.symm
    · split
      · rename_i time _
        rw [now_alike h]
        exact ih (congrArg (fun m : Monitor => { m with now := max m'.now time }) h :)
      · exact h

theorem run_alike {token token' : StopToken} (h : token.unpoisoned = token'.unpoisoned)
    (now : Instant) (threads : List Thread) :
    (run token now threads).unpoisoned = (run token' now threads).unpoisoned :=
  runFor_alike _ (congrArg (fun t => (⟨t, none, now, threads.toArray⟩ : Monitor)) h)

theorem run_poisoner (token : StopToken) (now : Instant) :
    run token now [.poisoner .lock] =
      ⟨{ token with poisoned := true }, none, now, #[.poisoner .done]⟩ :=
  rfl

end Monitor

namespace TokenScript

/-- A step that makes a thread panic while it holds the mutex. -/
def Step.poisons : Step → Bool
  | .act .poison => true
  | _ => false

theorem Step.eq_poison {step : Step} (h : step.poisons = true) : step = .act .poison := by
  cases step with
  | act action =>
    cases action with
    | poison => rfl
    | _ => cases h
  | _ => cases h

/-- The same answer, but for what a debug text says of the mutex. -/
inductive Reply.Alike : Reply → Reply → Prop
  | same (r : Reply) : Alike r r
  | text {t t' : StopToken} (h : t.cancelled = t'.cancelled) : Alike (.text t.text) (.text t'.text)

def State.unpoisoned (s : State) : State :=
  { s with states := s.states.map StopToken.unpoisoned }

section
variable {s s' : State}

theorem State.state_unpoisoned (s : State) (i : ℕ) :
    s.unpoisoned.state i = (s.state i).unpoisoned := by
  simp only [state, unpoisoned, Array.getElem?_map]
  cases s.states[i]? <;> rfl

theorem State.tokens_alike (h : s.unpoisoned = s'.unpoisoned) : s.tokens = s'.tokens :=
  (congrArg State.tokens h :)

theorem State.now_alike (h : s.unpoisoned = s'.unpoisoned) : s.now = s'.now :=
  (congrArg State.now h :)

theorem State.state_alike (h : s.unpoisoned = s'.unpoisoned) (i : ℕ) :
    (s.state i).unpoisoned = (s'.state i).unpoisoned := by
  rw [← state_unpoisoned, h, state_unpoisoned]

theorem State.cancelled_alike (h : s.unpoisoned = s'.unpoisoned) (i : ℕ) :
    (s.state i).cancelled = (s'.state i).cancelled :=
  (congrArg StopToken.cancelled (state_alike h i) :)

theorem State.view_alike (h : s.unpoisoned = s'.unpoisoned) : s.view = s'.view := by
  simp only [view, tokens_alike h, cancelled_alike h]

theorem State.visit_unpoisoned (s : State) (i : ℕ) (threads : List Monitor.Thread) :
    (s.visit i threads).1.unpoisoned =
      { s.unpoisoned with
        states := s.unpoisoned.states.setIfInBounds i (s.visit i threads).2.token.unpoisoned
        now := (s.visit i threads).2.now } := by
  simp only [visit, unpoisoned, Array.map_setIfInBounds]

theorem State.visit_alike (h : s.unpoisoned = s'.unpoisoned) (i : ℕ)
    (threads : List Monitor.Thread) :
    (s.visit i threads).1.unpoisoned = (s'.visit i threads).1.unpoisoned ∧
      (s.visit i threads).2.unpoisoned = (s'.visit i threads).2.unpoisoned := by
  have hm : (s.visit i threads).2.unpoisoned = (s'.visit i threads).2.unpoisoned := by
    rw [visit, visit, now_alike h]
    exact Monitor.run_alike (state_alike h i) _ _
  refine ⟨?_, hm⟩
  rw [visit_unpoisoned, visit_unpoisoned, h, Monitor.now_alike hm,
    show (s.visit i threads).2.token.unpoisoned = (s'.visit i threads).2.token.unpoisoned from
      (congrArg Monitor.token hm :)]

theorem Reply.ofSleep_alike {m m' : Monitor} (h : m.unpoisoned = m'.unpoisoned) (span : Duration)
    (start : Instant) : Reply.ofSleep span start m = Reply.ofSleep span start m' := by
  simp only [Reply.ofSleep, Monitor.threads_alike h, Monitor.now_alike h]

theorem runAction_alike (h : s.unpoisoned = s'.unpoisoned) (i : ℕ) (action : Action) :
    (runAction s i action).1.unpoisoned = (runAction s' i action).1.unpoisoned ∧
      (runAction s i action).2.Alike (runAction s' i action).2 := by
  cases action with
  | clone target =>
    refine ⟨?_, .same _⟩
    exact (congrArg (fun s : State => { s with tokens := s.tokens.put target i }) h :)
  | cancel => exact ⟨(State.visit_alike h i _).1, .same _⟩
  | isCancelled =>
    refine ⟨h, ?_⟩
    simp only [runAction, State.cancelled_alike h]
    exact .same _
  | poison => exact ⟨(State.visit_alike h i _).1, .same _⟩
  | debug => exact ⟨h, .text (State.cancelled_alike h i)⟩
  | sleep span =>
    have hv := State.visit_alike h i [.sleeper (.start span)]
    refine ⟨hv.1, ?_⟩
    simp only [runAction, Reply.ofSleep_alike hv.2, State.now_alike h]
    exact .same _
  | sleepUntilCancelled span canceller delay =>
    simp only [runAction, State.tokens_alike h, State.now_alike h]
    split
    · exact ⟨h, .same _⟩
    · rename_i k _
      split
      · have hv := State.visit_alike h i
          [.sleeper (.start span), .canceller (.await (s'.now + delay.toNanos))]
        refine ⟨hv.1, ?_⟩
        rw [Reply.ofSleep_alike hv.2]
        exact .same _
      · have hv := State.visit_alike h i [.sleeper (.start span)]
        refine ⟨(State.visit_alike hv.1 k _).1, ?_⟩
        rw [Reply.ofSleep_alike hv.2]
        exact .same _
  | unknown => exact ⟨h, .same _⟩

theorem runStep_alike (h : s.unpoisoned = s'.unpoisoned) (q : Slot) (step : Step) :
    (runStep s q step).1.unpoisoned = (runStep s' q step).1.unpoisoned ∧
      (runStep s q step).2.Alike (runStep s' q step).2 := by
  cases step with
  | renew =>
    refine ⟨?_, .same _⟩
    have hsize : s.states.size = s'.states.size := by
      simpa [State.unpoisoned] using congrArg (fun s : State => s.states.size) h
    have hpush : ∀ s : State, (s.renew q).unpoisoned =
        { s.unpoisoned with
          states := s.unpoisoned.states.push .new, tokens := s.tokens.put q s.states.size } := by
      intro s
      simp only [State.renew, State.unpoisoned, Array.map_push]
      rfl
    show (s.renew q).unpoisoned = (s'.renew q).unpoisoned
    rw [hpush, hpush, h, State.tokens_alike h, hsize]
  | drop =>
    refine ⟨(congrArg (fun s : State => { s with tokens := s.tokens.remove q }) h :), ?_⟩
    simp only [runStep, State.tokens_alike h]
    exact .same _
  | act action =>
    simp only [runStep, State.tokens_alike h]
    split
    · exact ⟨h, .same _⟩
    · exact runAction_alike h _ action

/-- Nobody notices that a thread has panicked. -/
theorem runStep_poison (s : State) (q : Slot) :
    (runStep s q (.act .poison)).1.unpoisoned = s.unpoisoned := by
  simp only [runStep]
  split
  · rfl
  · rename_i i _
    have hrun : (s.visit i [.poisoner .lock]).2 = _ := Monitor.run_poisoner (s.state i) s.now
    have hset : s.unpoisoned.states.setIfInBounds i (s.state i).unpoisoned =
        s.unpoisoned.states := by
      rw [← State.state_unpoisoned, State.state]
      cases hi : s.unpoisoned.states[i]? with
      | some token => exact setIfInBounds_self hi
      | none => exact Array.setIfInBounds_eq_of_size_le (Array.getElem?_eq_none_iff.mp hi)
    calc (s.visit i [.poisoner .lock]).1.unpoisoned
        = { s.unpoisoned with
            states := s.unpoisoned.states.setIfInBounds i (s.state i).unpoisoned } := by
          rw [State.visit_unpoisoned, hrun]
          rfl
      _ = s.unpoisoned := by rw [hset]

/-- Without its poisonings a script answers the same, and shows the same of the tokens. -/
theorem run_alike (script : List (Slot × Step)) (h : s.unpoisoned = s'.unpoisoned) :
    List.Forall₂ (fun a b => a.1.Alike b.1 ∧ a.2 = b.2)
      (((script.zip (run s script)).filter fun e => !e.1.2.poisons).map Prod.snd)
      (run s' (script.filter fun e => !e.2.poisons)) := by
  induction script generalizing s s' with
  | nil => exact .nil
  | cons e script ih =>
    obtain ⟨q, step⟩ := e
    have hstep := runStep_alike h q step
    rw [run, List.zip_cons_cons, List.filter_cons, List.filter_cons]
    cases hp : step.poisons with
    | true =>
      obtain rfl := Step.eq_poison hp
      exact ih ((runStep_poison s q).trans h)
    | false =>
      exact .cons ⟨hstep.2, State.view_alike hstep.1⟩ (ih hstep.1)

end

end TokenScript

end QueueRace
