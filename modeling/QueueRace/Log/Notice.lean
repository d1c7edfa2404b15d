import QueueRace.Duration
import QueueRace.Report.Basic

/-! What the threads of a run tell about themselves. -/

namespace QueueRace

inductive Level where
  | error
  | warn
  | info
  | debug
  | trace
  deriving DecidableEq, Repr

namespace Level

def name : Level → String
  | .error => "ERROR"
  | .warn => "WARN"
  | .info => "INFO"
  | .debug => "DEBUG"
  | .trace => "TRACE"

/-- How much a level lets through. -/
def verbosity : Level → Nat
  | .error => 1
  | .warn => 2
  | .info => 3
  | .debug => 4
  | .trace => 5

end Level

/-- The threads of the program. -/
inductive Who where
  | main
  | watchdog
  | consumer (id : Nat)
  | producer (id : Nat)
  deriving DecidableEq, Repr

namespace Who

def name : Who → String
  | .main => "main"
  | .watchdog => "watchdog"
  | .consumer id => "consumer-" ++ toString id
  | .producer id => "producer-" ++ toString id

end Who

inductive Notice where
  | started (producers consumers : Nat) (items : UInt64)
  | finished (produced : UInt64) (consumed : Nat)
  | enqueued (seq : UInt64) (value : Nat)
  | dequeued (consumer : Nat) (item : Item)
  | cancelledProducer (produced : UInt64)
  | exitedProducer (produced : UInt64)
  | exitedConsumer (consumed : Nat)
  | timedOut (timeout : Duration)
  | verified (produced : UInt64) (consumed : Nat)
  | share (consumer count : Nat)

namespace Notice

def level : Notice → Level
  | .cancelledProducer _ => .warn
  | .timedOut _ => .warn
  | .exitedProducer _ => .debug
  | .exitedConsumer _ => .debug
  | _ => .info

/-- The part of the program that speaks. -/
def target : Notice → String
  | .verified .. => "msqueue_stress"
  | .share .. => "msqueue_stress"
  | _ => "msqueue_stress::driver"

/-- The fields that a notice has. -/
def fieldNames (_ : Notice) : List String := ["message"]

def text : Notice → String
  | .started p c n => s!"started stress, producers={p}, consumers={c}, items={n}"
  | .finished p c => s!"finished stress, produced={p}, consumed={c}"
  | .enqueued s v => s!"enqueued item, seq={s}, value={v}"
  | .dequeued c i =>
    s!"dequeued item, consumer={c}, producer={i.producer}, seq={i.seq}, value={i.value}"
  | .cancelledProducer n => s!"cancelled producer, produced={n}"
  | .exitedProducer n => s!"exited producer, produced={n}"
  | .exitedConsumer n => s!"exited consumer, consumed={n}"
  | .timedOut t => "timed out after " ++ t.text ++ ", cancelling producers"
  | .verified p c => s!"verified, produced={p}, consumed={c}"
  | .share c n => s!"consumer-{c} dequeued {n} items"

end Notice

end QueueRace
