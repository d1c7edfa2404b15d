import QueueRace.Chain.Basic

/-! The three queue operations as machines. One step is one atomic load, one
compare-and-swap, or the move of a value out of a node that is already ours. A
machine keeps what it has loaded, however stale, so machines of several threads
can be stepped in any order. -/

namespace QueueRace

variable {α : Type}

/-- What a step did to the chain, as far as other threads can tell: the successful
compare-and-swaps. -/
inductive Effect where
  | none
  | linked (new : Addr)
  | movedTail (target : Addr)
  | movedHead (retired target : Addr)
  deriving DecidableEq, Repr

/-! ### Enqueue -/

namespace Enqueue

inductive Phase where
  | readTail
  | readNext (tail : Addr)
  | recheck (tail : Addr) (next : Option Addr)
  | link (tail : Addr)
  | help (tail next : Addr)
  /-- The node is in the chain; `tail` is still to be moved over it. -/
  | swing (tail : Addr)
  | done
  deriving DecidableEq, Repr

def step (new : Addr) (c : Chain α) : Phase → Chain α × Phase × Effect
  | .readTail => (c, .readNext c.tail, .none)
  | .readNext tail => (c, .recheck tail (c.next tail), .none)
  | .recheck tail next =>
    if c.tail = tail then
      match next with
      | none => (c, .link tail, .none)
      | some b => (c, .help tail b, .none)
    else (c, .readTail, .none)
  | .link tail =>
    match c.casNext tail new with
    | (c, true) => (c, .swing tail, .linked new)
    | (c, false) => (c, .readTail, .none)
  | .help tail next =>
    match c.casTail tail next with
    | (c, true) => (c, .readTail, .movedTail next)
    | (c, false) => (c, .readTail, .none)
  -- losing this race means that somebody has moved `tail` for us
  | .swing tail =>
    match c.casTail tail new with
    | (c, true) => (c, .done, .movedTail new)
    | (c, false) => (c, .done, .none)
  | .done => (c, .done, .none)

end Enqueue

/-! ### Dequeue -/

namespace Dequeue

inductive Phase (α : Type) where
  | readHead
  | readTail (head : Addr)
  | readNext (head tail : Addr)
  | recheck (head tail : Addr) (next : Option Addr)
  | help (tail next : Addr)
  | unlink (head next : Addr)
  /-- `next` has become the sentinel by our doing, its value is ours. -/
  | take (next : Addr)
  | done (answer : Option α)

def step (c : Chain α) : Phase α → Chain α × Phase α × Effect
  | .readHead => (c, .readTail c.head, .none)
  | .readTail head => (c, .readNext head c.tail, .none)
  | .readNext head tail => (c, .recheck head tail (c.next head), .none)
  | .recheck head tail next =>
    if c.head = head then
      match next with
      | none => if head = tail then (c, .done none, .none) else (c, .readHead, .none)
      | some b => if head = tail then (c, .help tail b, .none) else (c, .unlink head b, .none)
    else (c, .readHead, .none)
  | .help tail next =>
    match c.casTail tail next with
    | (c, true) => (c, .readHead, .movedTail next)
    | (c, false) => (c, .readHead, .none)
  | .unlink head next =>
    match c.casHead head next with
    | (c, true) => (c, .take next, .movedHead head next)
    | (c, false) => (c, .readHead, .none)
  | .take next =>
    let (c, v) := c.take next
    (c, .done v, .none)
  | .done answer => (c, .done answer, .none)

end Dequeue

/-! ### Emptiness -/

namespace IsEmpty

inductive Phase where
  | readHead
  | readNext (head : Addr)
  | done (answer : Bool)
  deriving DecidableEq, Repr

def step (c : Chain α) : Phase → Phase
  | .readHead => .readNext c.head
  | .readNext head => .done (c.next head).isNone
  | .done answer => .done answer

end IsEmpty

end QueueRace
