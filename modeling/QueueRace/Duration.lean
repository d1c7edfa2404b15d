import QueueRace.Text

/-! Spans of time in whole nanoseconds, and a clock to add them to. The clock counts
its seconds in 63 bits, so a span can be too long for it. -/

namespace QueueRace

structure Duration where
  secs : UInt64
  nanos : Nat
  nanos_lt : nanos < 1000000000
  deriving DecidableEq

namespace Duration

def zero : Duration := ⟨0, 0, by decide⟩

instance : Inhabited Duration := ⟨zero⟩

def ofMicros (n : UInt64) : Duration :=
  ⟨n / 1000000, n.toNat % 1000000 * 1000, by omega⟩

def ofMillis (n : UInt64) : Duration :=
  ⟨n / 1000, n.toNat % 1000 * 1000000, by omega⟩

def toNanos (d : Duration) : Nat := d.secs.toNat * 1000000000 + d.nanos

/-- The whole microseconds. -/
def toMicros (d : Duration) : Nat := d.secs.toNat * 1000000 + d.nanos / 1000

def isZero (d : Duration) : Bool := d.secs = 0 ∧ d.nanos = 0

instance : LE Duration := ⟨fun d e => d.toNanos ≤ e.toNanos⟩

instance (d e : Duration) : Decidable (d ≤ e) :=
  inferInstanceAs (Decidable (d.toNanos ≤ e.toNanos))

/-- The largest unit of which there is a whole one, and the rest as a decimal fraction. -/
def text (d : Duration) : String :=
  if d.secs ≠ 0 then Text.decimal d.secs.toNat d.nanos 9 ++ "s"
  else if d.nanos ≥ 1000000 then Text.decimal (d.nanos / 1000000) (d.nanos % 1000000) 6 ++ "ms"
  else if d.nanos ≥ 1000 then Text.decimal (d.nanos / 1000) (d.nanos % 1000) 3 ++ "µs"
  else toString d.nanos ++ "ns"

end Duration

/-- A reading of the clock, in nanoseconds. -/
abbrev Instant := Nat

namespace Instant

/-- The first reading that the clock has no room for: `2 ^ 63` seconds. -/
def limit : Nat := 9223372036854775808 * 1000000000

def add? (t : Instant) (d : Duration) : Option Instant :=
  if t + d.toNanos < limit then some (t + d.toNanos) else none

/-- The panic of a sum that does not fit. -/
def overflowText : String := "overflow when adding duration to instant"

end Instant

end QueueRace
