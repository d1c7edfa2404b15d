import QueueRace.Chain.Alone
import QueueRace.Log.Notice
import QueueRace.StopToken.Basic

/-! What the workers of a run share. Queue operations are single steps here. -/

namespace QueueRace

structure Arena where
  queue : Chain Item
  stop : StopToken
  /-- How many producers may still enqueue. -/
  live : UInt64
  now : Instant
  log : Array (Who × Notice)

inductive Pause where
  | yielded
  | asleep (deadline : Instant)
  | panicked
  deriving DecidableEq

inductive Exit (ρ : Type) where
  | returned (result : ρ)
  | panicked
  deriving DecidableEq

namespace Arena

def record (a : Arena) (who : Who) (n : Notice) : Arena := { a with log := a.log.push (who, n) }

def cancel (a : Arena) : Arena := { a with stop := { a.stop with cancelled := true } }

/-- The deadline is worked out before anything else, so a span that the clock has no
room for is a panic even if the token is cancelled. -/
def pause (a : Arena) (span : Duration) : Pause :=
  if span.isZero then .yielded
  else match a.now.add? span with
    | none => .panicked
    | some deadline => .asleep deadline

/-- Whether a sleeper has a reason to wake. -/
def wakes (a : Arena) (deadline : Instant) : Bool := a.stop.cancelled || deadline < a.now

def tick (a : Arena) (span : Nat) : Arena := { a with now := a.now + span }

end Arena

end QueueRace
