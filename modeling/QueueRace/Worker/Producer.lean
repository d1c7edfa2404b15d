import QueueRace.Config
import QueueRace.Jitter
import QueueRace.Worker.Arena

/-! A producer: it enqueues its items one by one, pausing after each, until it has
enqueued all or sees that the token is cancelled. -/

namespace QueueRace

inductive Producer where
  /-- About to go on or stop, with `seq` items enqueued. -/
  | check (seq : UInt64)
  | enqueue (seq : UInt64)
  | rest (seq : UInt64)
  | asleep (seq : UInt64) (deadline : Instant)
  | leave (seq : UInt64)
  | ended (exit : Exit UInt64)
  deriving DecidableEq

namespace Producer

def alarm? : Producer → Option Instant
  | .asleep _ deadline => some deadline
  | _ => none

def valueBound : UInt64 := 100

/-- One step with a random word at hand. A sleeper that has no reason to wake and a
producer that has ended stay as they are. -/
def step (c : Config) (id : Nat) (word : UInt64) (a : Arena) : Producer → Arena × Producer
  | .check seq =>
    (a, if seq < c.items ∧ ¬ a.stop.cancelled then .enqueue seq else .leave seq)
  | .enqueue seq =>
    let value := (pick (valueBound - 1) word).toNat
    let a := { a with queue := a.queue.enqueue ⟨id, seq, value⟩ }
    (a.record (.producer id) (.enqueued seq value), .rest (seq + 1))
  | .rest seq =>
    let pause := a.pause (jitter c.produceDelay word)
    (a, match pause with
      | .yielded => .check seq
      | .asleep deadline => .asleep seq deadline
      | .panicked => .ended .panicked)
  | .asleep seq deadline =>
    let wakes := a.wakes deadline
    (a, if wakes then .check seq else .asleep seq deadline)
  | .leave seq =>
    let n := if a.stop.cancelled then .cancelledProducer seq else .exitedProducer seq
    (a.record (.producer id) n, .ended (.returned seq))
  | .ended exit => (a, .ended exit)

end Producer

end QueueRace
