import QueueRace.Duration

/-! Random pauses. A generator hands out words, and `pick` makes one of them a number
up to a bound; every number up to the bound can come out. -/

namespace QueueRace

/-- A supply of words that look random: a counter, well mixed. -/
def wordsOfSeed (seed : UInt64) (n : Nat) : UInt64 :=
  let z := seed + (n.toUInt64 + 1) * 0x9e3779b97f4a7c15
  let z := (z ^^^ (z >>> 30)) * 0xbf58476d1ce4e5b9
  let z := (z ^^^ (z >>> 27)) * 0x94d049bb133111eb
  z ^^^ (z >>> 31)

def pick (bound word : UInt64) : UInt64 :=
  if bound + 1 = 0 then word else word % (bound + 1)

def jitterBound (max : Duration) : UInt64 := (min max.toMicros (UInt64.size - 1)).toUInt64

/-- A random span of whole microseconds, at most `max`. -/
def jitter (max : Duration) (word : UInt64) : Duration := .ofMicros (pick (jitterBound max) word)

structure JitterSurvey where
  bounded : Bool
  wholeMicros : Bool
  /-- The different results in microseconds, if there can be only a few. -/
  distinct : Option (List Nat)

def JitterSurvey.of (max : Duration) (words : List UInt64) : JitterSurvey :=
  let spans := words.map (jitter max)
  { bounded := spans.all (· ≤ max)
    wholeMicros := spans.all (·.nanos % 1000 = 0)
    distinct :=
      if max.toMicros ≤ 10 then
        some ((List.range 11).filter fun n => spans.any (·.toMicros = n))
      else none }

end QueueRace
