import QueueRace.Duration

/-! Parameters of a run. -/

namespace QueueRace

/-- A number of workers: at least one, and a machine word. -/
structure WorkerCount where
  val : Nat
  pos : 0 < val
  lt : val < UInt64.size

namespace WorkerCount

def one : WorkerCount := ⟨1, by decide, by decide⟩

def five : WorkerCount := ⟨5, by decide, by decide⟩

instance : Inhabited WorkerCount := ⟨one⟩

def ofNat? (n : Nat) : Option WorkerCount :=
  if h : 0 < n ∧ n < UInt64.size then some ⟨n, h.1, h.2⟩ else none

end WorkerCount

structure Config where
  items : UInt64
  producers : WorkerCount
  consumers : WorkerCount
  /-- The longest random pause after an enqueue. -/
  produceDelay : Duration
  /-- The longest random pause after a dequeue that got an item. -/
  consumeDelay : Duration
  /-- The pause before an empty queue is looked at again. -/
  pollInterval : Duration

namespace Config

def default : Config where
  items := 10
  producers := .one
  consumers := .five
  produceDelay := .ofMillis 500
  consumeDelay := .ofMillis 800
  pollInterval := .ofMillis 10

instance : Inhabited Config := ⟨default⟩

def burst (items : UInt64) (producers consumers : WorkerCount) : Config where
  items
  producers
  consumers
  produceDelay := .zero
  consumeDelay := .zero
  pollInterval := .zero

def text (c : Config) : String :=
  Text.record "StressConfig"
    [("items", toString c.items), ("producers", toString c.producers.val),
      ("consumers", toString c.consumers.val), ("max_produce_delay", c.produceDelay.text),
      ("max_consume_delay", c.consumeDelay.text), ("poll_interval", c.pollInterval.text)]

end Config

end QueueRace
