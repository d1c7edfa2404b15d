import Mathlib.Data.List.Rotate
import QueueRace.Script

/-! Scripts on plain lists. An enqueue, suspended or not, appends its value before anything else
runs, a dequeue removes the front, and an iterator takes from the front as well. There are no
nodes here and nothing lags: whether a suspended enqueuer goes on or is abandoned shows in nothing
but the answer of its own step. -/

namespace QueueRace

variable {α : Type}

/-! ### Answers without the lag -/

mutual

def Reply.forgetLag : Reply α → Reply α
  | .suspended inner abandoned => .suspended (Observation.forgetLags inner) abandoned
  | .iterated inner => .iterated (Observation.forgetLags inner)
  | reply => reply

def Observation.forgetLag : Observation α → Observation α
  | .mk reply size dropped => .mk reply.forgetLag (size.map fun z => ⟨z.length, 0⟩) dropped

def Observation.forgetLags : List (Observation α) → List (Observation α)
  | [] => []
  | o :: os => o.forgetLag :: Observation.forgetLags os

end

/-! ### Lists in slots -/

structure Ledger (α : Type) where
  lists : Slots (List α)
  dropped : List α

namespace Ledger

open Script (Scope)

def start : Ledger α := ⟨[(0, [])], []⟩

def get? (s : Ledger α) (q : Slot) : Option (List α) := s.lists.get? q

def set (s : Ledger α) (q : Slot) (b : List α) : Ledger α := { s with lists := s.lists.put q b }

def destroy (s : Ledger α) (vs : List α) : Ledger α := { s with dropped := s.dropped ++ vs }

/-- Drops the list of a slot. -/
def drop (s : Ledger α) (q : Slot) : Ledger α :=
  match s.get? q with
  | none => s
  | some b => { s with lists := s.lists.remove q }.destroy b

def replace (s : Ledger α) (q : Slot) (b : List α) : Ledger α := (s.drop q).set q b

def observe (s : Ledger α) (q : Slot) (reply : Reply α) : Ledger α × Observation α :=
  ({ s with dropped := [] }, .mk reply ((s.get? q).map fun b => ⟨b.length, 0⟩) s.dropped)

def popFrom (s : Ledger α) (q : Slot) : Ledger α × Reply α :=
  match s.get? q with
  | none => (s, .refused .noQueue)
  | some b => (s.set q b.tail, .popped b.head?)

mutual

def runAction (scope : Scope) (q : Slot) : Action α → Ledger α → Ledger α × Reply α
  | .renew, s => if q ∈ scope.busy then (s, .refused .busy) else (s.replace q [], .done)
  | .collect source, s =>
    if q ∈ scope.busy then (s, .refused .busy)
    else if source.panics then (s.destroy source.yielded, .panicked Source.panicText)
    else (s.replace q source.yielded, .done)
  | .collectFrom origin limit, s =>
    match s.get? origin with
    | none => (s, .refused .noQueue)
    | some b =>
      if q ∈ scope.busy ∨ q = origin then (s, .refused .busy)
      else
        let n := limit.getD b.length
        ((s.set origin (b.drop n)).replace q (b.take n), .done)
  | .next, s =>
    match scope.iterated with
    | [] => (s, .refused .noIterator)
    | p :: _ => popFrom s p
  | .sizeHint, s =>
    (s, if scope.iterated.isEmpty then .refused .noIterator else .bounds 0 none)
  | .enqueue v, s =>
    match s.get? q with
    | none => (s, .refused .noQueue)
    | some b => (s.set q (b ++ [v]), .done)
  | .suspend v body abandon, s =>
    match s.get? q with
    | none => (s, .refused .noQueue)
    | some b =>
      let (s, inner) := run { scope with busy := q :: scope.busy } body (s.set q (b ++ [v]))
      (s, .suspended inner abandon)
  | .dequeue, s => popFrom s q
  | .discard, s =>
    match s.get? q with
    | none => (s, .refused .noQueue)
    | some [] => (s, .flag false)
    | some (v :: b) => ((s.set q b).destroy [v], .flag true)
  | .isEmpty, s =>
    match s.get? q with
    | none => (s, .refused .noQueue)
    | some b => (s, .flag b.isEmpty)
  | .extend source borrow, s =>
    match s.get? q with
    | none => (s, .refused .noQueue)
    | some b =>
      if borrow = .exclusive ∧ q ∈ scope.busy then (s, .refused .busy)
      else
        (s.set q (b ++ source.yielded),
          if source.panics then .panicked Source.panicText else .done)
  | .transfer origin limit borrow, s =>
    match s.get? q, s.get? origin with
    | some c, some b =>
      if borrow = .exclusive ∧ (q ∈ scope.busy ∨ q = origin) then (s, .refused .busy)
      else if q = origin then (s.set q (c.rotate (limit.getD c.length)), .done)
      else
        let n := limit.getD b.length
        ((s.set origin (b.drop n)).set q (c ++ b.take n), .done)
    | _, _ => (s, .refused .noQueue)
  | .takeUpTo limit, s =>
    match s.get? q with
    | none => (s, .refused .noQueue)
    | some b =>
      let n := limit.getD b.length
      (s.set q (b.drop n), .values (b.take n))
  | .iterate body, s =>
    match s.get? q with
    | none => (s, .refused .noQueue)
    | some _ =>
      let (s, inner) := run ⟨q :: scope.busy, q :: scope.iterated⟩ body s
      (s, .iterated inner)
  | .debug, s =>
    (s, if (s.get? q).isNone then .refused .noQueue else .texts Chain.debugTexts)
  | .drop, s =>
    match s.get? q with
    | none => (s, .refused .noQueue)
    | some _ => if q ∈ scope.busy then (s, .refused .busy) else (s.drop q, .done)
  | .unknown, s =>
    (s, .refused (if (s.get? q).isNone then .noQueue else .unknownStep))

def run (scope : Scope) : Script α → Ledger α → Ledger α × List (Observation α)
  | .done, s => (s, [])
  | .step q action rest, s =>
    let (s, reply) := runAction scope q action s
    let (s, observation) := s.observe q reply
    let (s, observations) := run scope rest s
    (s, observation :: observations)

end

/-- Runs a script on an empty list in slot 0: what its steps answer, and what the lists still hold
at the end. -/
def runAlone (script : Script α) : List (Observation α) × List (Slot × List α) :=
  let (s, observations) := run ⟨[], []⟩ script .start
  (observations, s.lists)

end Ledger

/-! ### Abandoned enqueuers -/

mutual

/-- The same, but no suspended enqueuer is abandoned. -/
def Action.resume : Action α → Action α
  | .suspend v body _ => .suspend v body.resume false
  | .iterate body => .iterate body.resume
  | action => action

def Script.resume : Script α → Script α
  | .done => .done
  | .step q action rest => .step q action.resume rest.resume

end

mutual

/-- The same, but it does not say which suspended enqueuers were abandoned. -/
def Reply.forgetFate : Reply α → Reply α
  | .suspended inner _ => .suspended (Observation.forgetFates inner) false
  | .iterated inner => .iterated (Observation.forgetFates inner)
  | reply => reply

def Observation.forgetFate : Observation α → Observation α
  | .mk reply size dropped => .mk reply.forgetFate size dropped

def Observation.forgetFates : List (Observation α) → List (Observation α)
  | [] => []
  | o :: os => o.forgetFate :: Observation.forgetFates os

end

namespace Ledger

open Script (Scope)

theorem observe_forgetFate (s : Ledger α) (q : Slot) {reply reply' : Reply α}
    (h : reply.forgetFate = reply'.forgetFate) :
    (s.observe q reply).1 = (s.observe q reply').1 ∧
      (s.observe q reply).2.forgetFate = (s.observe q reply').2.forgetFate := by
  refine ⟨rfl, ?_⟩
  simp only [observe, Observation.forgetFate, h]

mutual

theorem runAction_resume :
    ∀ (action : Action α) (scope : Scope) (q : Slot) (s : Ledger α),
      (runAction scope q action.resume s).1 = (runAction scope q action s).1 ∧
        (runAction scope q action.resume s).2.forgetFate = (runAction scope q action s).2.forgetFate := by
  intro action scope q s
  cases action with
  | suspend v body abandon =>
    simp only [Action.resume, runAction]
    cases s.get? q with
    | none => exact ⟨rfl, rfl⟩
    | some b =>
      obtain ⟨hs, hi⟩ := run_resume body { scope with busy := q :: scope.busy } (s.set q (b ++ [v]))
      exact ⟨hs, by simp only [Reply.forgetFate, hi]⟩
  | iterate body =>
    simp only [Action.resume, runAction]
    cases s.get? q with
    | none => exact ⟨rfl, rfl⟩
    | some b =>
      obtain ⟨hs, hi⟩ := run_resume body ⟨q :: scope.busy, q :: scope.iterated⟩ s
      exact ⟨hs, by simp only [Reply.forgetFate, hi]⟩
  | _ => exact ⟨rfl, rfl⟩

/-- A list does not depend on whether the enqueuers that are suspended over it go on. -/
theorem run_resume :
    ∀ (script : Script α) (scope : Scope) (s : Ledger α),
      (run scope script.resume s).1 = (run scope script s).1 ∧
        Observation.forgetFates (run scope script.resume s).2 =
          Observation.forgetFates (run scope script s).2
  | .done, _, _ => ⟨rfl, rfl⟩
  | .step q action rest, scope, s => by
    obtain ⟨hs, hr⟩ := runAction_resume action scope q s
    obtain ⟨hs', ho⟩ := observe_forgetFate (runAction scope q action s).1 q hr
    simp only [Script.resume, run, hs, hs', Observation.forgetFates, ho]
    obtain ⟨h1, h2⟩ := run_resume rest scope
      ((runAction scope q action s).1.observe q (runAction scope q action s).2).1
    exact ⟨h1, congrArg _ h2⟩

end

end Ledger

end QueueRace
