import QueueRace.Config
import QueueRace.Jitter
import QueueRace.Worker.Arena

/-! A consumer: it dequeues until it finds the queue empty after it has seen that no
producer is left. The number of producers is read before the queue is looked at: then
an empty queue stays empty. -/

namespace QueueRace

inductive Consumer.Phase where
  | look
  | poll (drained : Bool)
  | rest
  /-- About to pause because there was no item. -/
  | idle
  | asleep (deadline : Instant)
  | leave
  | ended
  | panicked
  deriving DecidableEq

structure Consumer where
  phase : Consumer.Phase
  items : Array Item

namespace Consumer

def start : Consumer := ⟨.look, #[]⟩

instance : Inhabited Consumer := ⟨start⟩

/-- What a consumer waits for, if it sleeps. -/
def alarm? (c : Consumer) : Option Instant :=
  match c.phase with
  | .asleep deadline => some deadline
  | _ => none

def exit? (c : Consumer) : Option (Exit (List Item)) :=
  match c.phase with
  | .ended => some (.returned c.items.toList)
  | .panicked => some .panicked
  | _ => none

def Phase.ofPause : Pause → Phase
  | .yielded => .look
  | .asleep deadline => .asleep deadline
  | .panicked => .panicked

/-- One step with a random word at hand: the arena, the next phase, and the item that
was dequeued. A sleeper that has no reason to wake and a consumer that has ended stay
as they are. -/
def step (c : Config) (id : Nat) (word : UInt64) (count : Nat) (a : Arena) :
    Phase → Arena × Phase × Option Item
  | .look =>
    let drained := a.live = 0
    (a, .poll drained, none)
  | .poll drained =>
    match a with
    | ⟨queue, stop, live, now, log⟩ =>
      match queue.dequeue with
      | (queue, .done (some item)) =>
        let a := Arena.mk queue stop live now log
        (a.record (.consumer id) (.dequeued id item), .rest, some item)
      | (queue, .done none) =>
        (⟨queue, stop, live, now, log⟩, if drained then .leave else .idle, none)
      -- without an answer the consumer is where it was
      | (queue, _) => (⟨queue, stop, live, now, log⟩, .poll drained, none)
  | .rest =>
    let pause := a.pause (jitter c.consumeDelay word)
    (a, .ofPause pause, none)
  | .idle =>
    let pause := a.pause c.pollInterval
    (a, .ofPause pause, none)
  | .asleep deadline =>
    let wakes := a.wakes deadline
    (a, if wakes then .look else .asleep deadline, none)
  | .leave => (a.record (.consumer id) (.exitedConsumer count), .ended, none)
  | .ended => (a, .ended, none)
  | .panicked => (a, .panicked, none)

def advance (c : Config) (id : Nat) (word : UInt64) (a : Arena) (consumer : Consumer) :
    Arena × Consumer :=
  match consumer with
  | ⟨phase, items⟩ =>
    match step c id word items.size a phase with
    | (a, phase, some item) => (a, ⟨phase, items.push item⟩)
    | (a, phase, none) => (a, ⟨phase, items⟩)

end Consumer

end QueueRace
