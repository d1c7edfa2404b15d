import QueueRace.Chain.Alone
import QueueRace.Slots

/-! Scripts over queues in slots. A script can suspend an enqueuer between linking
its node and moving `tail`, run more steps in that state, and then let it go on or
abandon it; and it can run steps while an iterator over a queue is alive. -/

namespace QueueRace

variable {α : Type}

/-- Where values come from. A source with `panicAt` panics when it is asked for that
value, or for the one after its last. -/
structure Source (α : Type) where
  values : List α
  panicAt : Option Nat

namespace Source

def yielded (s : Source α) : List α :=
  match s.panicAt with
  | none => s.values
  | some k => s.values.take k

def panics (s : Source α) : Bool := s.panicAt.isSome

/-- What the source says when it panics. -/
def panicText : String := "iterator panic"

end Source

inductive Borrow where
  | exclusive
  | shared
  deriving DecidableEq, Repr

mutual

inductive Action (α : Type) where
  | renew
  | collect (source : Source α)
  /-- A new queue of what is dequeued from another slot, at most `limit` values. -/
  | collectFrom (origin : Slot) (limit : Option Nat)
  | next
  | sizeHint
  | enqueue (v : α)
  /-- An enqueue that is suspended while `body` runs and then maybe abandoned. -/
  | suspend (v : α) (body : Script α) (abandon : Bool)
  | dequeue
  | discard
  | isEmpty
  | extend (source : Source α) (borrow : Borrow)
  | transfer (origin : Slot) (limit : Option Nat) (borrow : Borrow)
  | takeUpTo (limit : Option Nat)
  | iterate (body : Script α)
  | debug
  | drop
  | unknown

inductive Script (α : Type) where
  | done
  | step (q : Slot) (action : Action α) (rest : Script α)

end

instance : Inhabited (Action α) := ⟨.unknown⟩

instance : Inhabited (Script α) := ⟨.done⟩

inductive Refusal where
  | noQueue
  | busy
  | noIterator
  | unknownStep
  deriving DecidableEq, Repr

structure Size where
  length : Nat
  lag : Nat
  deriving DecidableEq, Repr

mutual

inductive Reply (α : Type) where
  | done
  | popped (v : Option α)
  /-- A dequeue that has not come to an answer. -/
  | unfinished
  | flag (b : Bool)
  | values (vs : List α)
  | suspended (inner : List (Observation α)) (abandoned : Bool)
  | iterated (inner : List (Observation α))
  | bounds (lower : Nat) (upper : Option Nat)
  | texts (ts : List String)
  | refused (why : Refusal)
  | panicked (text : String)

/-- What a step answers: its reply, the size of its queue afterwards, and the values
destroyed since the last answer. -/
inductive Observation (α : Type) where
  | mk (reply : Reply α) (size : Option Size) (dropped : List α)

end

/-- How queues and iterators show themselves: their contents are not printed. -/
def Chain.debugTexts : List String :=
  let queue := "ConcurrentQueue \x7b .. \x7d"
  [queue, queue, "TryIter \x7b queue: " ++ queue ++ " \x7d"]

namespace Script

structure State (α : Type) where
  queues : Slots (Chain α)
  /-- Values destroyed since the last answer, oldest first. -/
  dropped : List α

/-- The queues that enclosing steps hold, and those they iterate, innermost first. -/
structure Scope where
  busy : List Slot
  iterated : List Slot

namespace State

def start : State α := ⟨[(0, .empty)], []⟩

def get? (s : State α) (q : Slot) : Option (Chain α) := s.queues.get? q

def set (s : State α) (q : Slot) (c : Chain α) : State α := { s with queues := s.queues.put q c }

def destroy (s : State α) (vs : List α) : State α := { s with dropped := s.dropped ++ vs }

def drop (s : State α) (q : Slot) : State α :=
  match s.get? q with
  | none => s
  | some c => { s with queues := s.queues.remove q }.destroy c.drain

def replace (s : State α) (q : Slot) (c : Chain α) : State α := (s.drop q).set q c

def update {β : Type} (s : State α) (q : Slot) (f : Chain α → Chain α × β) :
    State α × Option β :=
  match s.get? q with
  | none => (s, none)
  | some c =>
    let s := { s with queues := s.queues.remove q }
    let (c, r) := f c
    (s.set q c, some r)

/-- What a step on slot `q` answers; the values destroyed so far are forgotten. -/
def observe (s : State α) (q : Slot) (reply : Reply α) : State α × Observation α :=
  let size := (s.get? q).map fun c => ⟨c.length, c.lag⟩
  ({ s with dropped := [] }, .mk reply size s.dropped)

/-- Drops all queues in the order of their slots, and says what each one held. -/
def close (s : State α) : List (Slot × List α) := s.queues.map fun (q, c) => (q, c.drain)

end State

def popFrom (s : State α) (q : Slot) : State α × Reply α :=
  match s.update q Chain.dequeue with
  | (s, none) => (s, .refused .noQueue)
  | (s, some (.done v)) => (s, .popped v)
  | (s, some _) => (s, .unfinished)

mutual

def runAction (scope : Scope) (q : Slot) : Action α → State α → State α × Reply α
  | .renew, s =>
    if q ∈ scope.busy then (s, .refused .busy) else (s.replace q .empty, .done)
  | .collect source, s =>
    if q ∈ scope.busy then (s, .refused .busy)
    else
      let c := Chain.ofList source.yielded
      if source.panics then (s.destroy c.drain, .panicked Source.panicText)
      else (s.replace q c, .done)
  | .collectFrom origin limit, s =>
    match s.get? origin with
    | none => (s, .refused .noQueue)
    | some b =>
      if q ∈ scope.busy ∨ q = origin then (s, .refused .busy)
      else
        let (b, c) := b.pour .empty (limit.getD b.bound)
        ((s.set origin b).replace q c, .done)
  | .next, s =>
    match scope.iterated with
    | [] => (s, .refused .noIterator)
    | p :: _ => popFrom s p
  | .sizeHint, s =>
    (s, if scope.iterated.isEmpty then .refused .noIterator else .bounds 0 none)
  | .enqueue v, s =>
    match s.update q fun c => (c.enqueue v, ()) with
    | (s, none) => (s, .refused .noQueue)
    | (s, some _) => (s, .done)
  | .suspend v body abandon, s =>
    match s.update q fun c => c.link v with
    | (s, none) => (s, .refused .noQueue)
    | (s, some enqueuer) =>
      let (s, inner) := run { scope with busy := q :: scope.busy } body s
      if abandon then (s, .suspended inner true)
      else ((s.update q fun c => (c.settle enqueuer, ())).1, .suspended inner false)
  | .dequeue, s => popFrom s q
  | .discard, s =>
    match s.update q Chain.dequeue with
    | (s, none) => (s, .refused .noQueue)
    | (s, some (.done none)) => (s, .flag false)
    | (s, some (.done (some v))) => (s.destroy [v], .flag true)
    | (s, some _) => (s, .unfinished)
  | .isEmpty, s =>
    match s.get? q with
    | none => (s, .refused .noQueue)
    | some c => (s, .flag c.isEmpty)
  | .extend source borrow, s =>
    match s.get? q with
    | none => (s, .refused .noQueue)
    | some _ =>
      if borrow = .exclusive ∧ q ∈ scope.busy then (s, .refused .busy)
      else
        let s := (s.update q fun c => (c.extend source.yielded, ())).1
        (s, if source.panics then .panicked Source.panicText else .done)
  | .transfer origin limit borrow, s =>
    match s.get? q, s.get? origin with
    | some c, some b =>
      if borrow = .exclusive ∧ (q ∈ scope.busy ∨ q = origin) then (s, .refused .busy)
      -- without a limit a rotation of items has no end, it is cut off after one round
      else if q = origin then (s.set q (c.rotate (limit.getD c.length)), .done)
      else
        let (b, c) := b.pour c (limit.getD b.bound)
        ((s.set origin b).set q c, .done)
    | _, _ => (s, .refused .noQueue)
  | .takeUpTo limit, s =>
    match s.update q fun c => c.takeUpTo (limit.getD c.bound) with
    | (s, none) => (s, .refused .noQueue)
    | (s, some vs) => (s, .values vs)
  | .iterate body, s =>
    match s.get? q with
    | none => (s, .refused .noQueue)
    | some _ =>
      let (s, inner) := run ⟨q :: scope.busy, q :: scope.iterated⟩ body s
      (s, .iterated inner)
  | .debug, s =>
    (s, if (s.get? q).isNone then .refused .noQueue else .texts Chain.debugTexts)
  | .drop, s =>
    match s.get? q with
    | none => (s, .refused .noQueue)
    | some _ => if q ∈ scope.busy then (s, .refused .busy) else (s.drop q, .done)
  | .unknown, s =>
    (s, .refused (if (s.get? q).isNone then .noQueue else .unknownStep))

def run (scope : Scope) : Script α → State α → State α × List (Observation α)
  | .done, s => (s, [])
  | .step q action rest, s =>
    let (s, reply) := runAction scope q action s
    let (s, observation) := s.observe q reply
    let (s, observations) := run scope rest s
    (s, observation :: observations)

end

/-- Runs a script on a new queue in slot 0: what its steps answer, and what the queues
still hold when they are dropped at the end. -/
def runAlone (script : Script α) : List (Observation α) × List (Slot × List α) :=
  let (s, observations) := run ⟨[], []⟩ script .start
  (observations, s.close)

end Script

end QueueRace
