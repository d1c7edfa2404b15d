import QueueRace.Chain.Operation

/-! Operations that run without interference. The machines of `Operation` are
stepped until they have answered. Nobody moves `head` and `tail` meanwhile, so two
passes of a loop are enough: one that moves a lagging `tail` and one that does the
work. -/

namespace QueueRace

variable {α : Type}

/-- An enqueuer: the address of its node and how far it has come. -/
structure Enqueuer where
  new : Addr
  phase : Enqueue.Phase

namespace Enqueuer

def advance (e : Enqueuer) : Nat → Chain α → Chain α × Enqueuer
  | 0, c => (c, e)
  | n + 1, c => match e.phase with
    | .swing _ => (c, e)
    | .done => (c, e)
    | phase =>
      let (c, phase, _) := Enqueue.step e.new c phase
      advance { e with phase } n c

end Enqueuer

namespace Dequeue

/-- Steps until there is an answer, at most `n` times, and says how far it has come. -/
def finish : Nat → Chain α → Phase α → Chain α × Phase α
  | _, c, .done answer => (c, .done answer)
  | 0, c, phase => (c, phase)
  | n + 1, c, phase =>
    let (c, phase, _) := step c phase
    finish n c phase

end Dequeue

namespace Chain

/-- Links a node for `v` and stops before `tail` is moved over it. -/
def link (c : Chain α) (v : α) : Chain α × Enqueuer :=
  let new := c.nodes.size
  Enqueuer.advance ⟨new, .readTail⟩ 8 (c.alloc v)

def settle (c : Chain α) (e : Enqueuer) : Chain α := (Enqueue.step e.new c e.phase).1

def enqueue (c : Chain α) (v : α) : Chain α :=
  let (c, e) := c.link v
  c.settle e

/-- A dequeue that has not answered by then is left in its phase. -/
def dequeue (c : Chain α) : Chain α × Dequeue.Phase α := Dequeue.finish 11 c .readHead

def isEmpty (c : Chain α) : Bool :=
  match IsEmpty.step c (IsEmpty.step c .readHead) with
  | .done answer => answer
  | _ => false

/-! ### Many values -/

def extend (c : Chain α) (vs : List α) : Chain α := vs.foldl enqueue c

def ofList (vs : List α) : Chain α := empty.extend vs

/-- Dequeues as long as there are items, at most `n` times. -/
def takeUpTo (c : Chain α) : Nat → Chain α × List α
  | 0 => (c, [])
  | n + 1 => match c.dequeue with
    | (c, .done (some v)) =>
      let (c, vs) := takeUpTo c n
      (c, v :: vs)
    | (c, _) => (c, [])

def pour (c b : Chain α) : Nat → Chain α × Chain α
  | 0 => (c, b)
  | n + 1 => match c.dequeue with
    | (c, .done (some v)) => pour c (b.enqueue v) n
    | (c, _) => (c, b)

def rotate (c : Chain α) : Nat → Chain α
  | 0 => c
  | n + 1 => match c.dequeue with
    | (c, .done (some v)) => (c.enqueue v).rotate n
    | (c, _) => c

/-- No queue holds more items than this. -/
def bound (c : Chain α) : Nat := c.nodes.size

/-- Dequeues everything; what a queue that is thrown away does with its values. -/
def drain (c : Chain α) : List α := (c.takeUpTo c.bound).2

end Chain

end QueueRace
