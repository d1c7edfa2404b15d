import QueueRace.Chain.Alone

/-! Any number of threads over one queue. Each thread makes one call at a time, and a
move of a thread is one step of the machine of its call, so a list of moves is an
interleaving at the grain of single loads and compare-and-swaps. A thread that is
never moved again is suspended for good. -/

namespace QueueRace

variable {α : Type}

inductive Call (α : Type) where
  | enqueue (v : α)
  | dequeue
  | isEmpty

inductive Answer (α : Type) where
  | enqueued
  | dequeued (v : Option α)
  | isEmpty (b : Bool)

inductive Thread (α : Type) where
  | idle
  | enqueuing (e : Enqueuer)
  | dequeuing (phase : Dequeue.Phase α)
  | testing (phase : IsEmpty.Phase)
  /-- Panicked between linking its node and moving `tail`. -/
  | abandoned

/-- What a thread may do next: call an operation, go on with it, or give up an enqueue
whose node is already linked. -/
inductive Move (α : Type) where
  | call (c : Call α)
  | step
  | abandon

inductive Event (α : Type) where
  | called (c : Call α)
  | stepped (effect : Effect)
  | answered (a : Answer α)
  | abandoned

structure World (α : Type) where
  chain : Chain α
  threads : Array (Thread α)

namespace World

def start (threads : Nat) : World α := ⟨.empty, .replicate threads .idle⟩

/-- Starts a call. An enqueue allocates its node before anything else. -/
def begin (c : Chain α) : Call α → Chain α × Thread α
  | .enqueue v =>
    let new := c.nodes.size
    (c.alloc v, .enqueuing ⟨new, .readTail⟩)
  | .dequeue => (c, .dequeuing .readHead)
  | .isEmpty => (c, .testing .readHead)

/-- One step of a call; a call that is done returns. -/
def proceed (c : Chain α) : Thread α → Chain α × Thread α × Option (Event α)
  | .idle => (c, .idle, none)
  | .abandoned => (c, .abandoned, none)
  | .enqueuing ⟨_, .done⟩ => (c, .idle, some (.answered .enqueued))
  | .enqueuing ⟨new, phase⟩ =>
    let (c, phase, effect) := Enqueue.step new c phase
    (c, .enqueuing ⟨new, phase⟩, some (.stepped effect))
  | .dequeuing (.done v) => (c, .idle, some (.answered (.dequeued v)))
  | .dequeuing phase =>
    let (c, phase, effect) := Dequeue.step c phase
    (c, .dequeuing phase, some (.stepped effect))
  | .testing (.done b) => (c, .idle, some (.answered (.isEmpty b)))
  | .testing phase => (c, .testing (IsEmpty.step c phase), some (.stepped .none))

def move (w : World α) (t : Nat) (m : Move α) : World α × Option (Event α) :=
  match w with
  | ⟨chain, threads⟩ =>
    match m, threads[t]? with
    | .call c, some .idle =>
      let (chain, thread) := begin chain c
      (⟨chain, threads.setIfInBounds t thread⟩, some (.called c))
    | .step, some thread =>
      let (chain, thread, event) := proceed chain thread
      (⟨chain, threads.setIfInBounds t thread⟩, event)
    | .abandon, some (.enqueuing ⟨_, .swing _⟩) =>
      (⟨chain, threads.setIfInBounds t .abandoned⟩, some .abandoned)
    | _, _ => (⟨chain, threads⟩, none)

/-- Makes the moves of an interleaving one after the other and keeps what they showed;
`none` if one of them is not open. -/
def run (w : World α) : List (Nat × Move α) → Option (World α × List (Nat × Event α))
  | [] => some (w, [])
  | (t, m) :: moves =>
    match w.move t m with
    | (_, none) => none
    | (w, some event) => (run w moves).map fun (w, events) => (w, (t, event) :: events)

end World

end QueueRace
