import QueueRace.Duration

/-! Spans of time as numbers of nanoseconds, and when they fit on the clock. -/

namespace QueueRace

theorem Duration.toNanos_ofMicros (n : UInt64) : (ofMicros n).toNanos = n.toNat * 1000 := by
  have hsecs : (n / 1000000).toNat = n.toNat / 1000000 := UInt64.toNat_div n 1000000
  show (n / 1000000).toNat * 1000000000 + n.toNat % 1000000 * 1000 = n.toNat * 1000
  rw [hsecs]
  omega

theorem Duration.toNanos_ofMillis (n : UInt64) : (ofMillis n).toNanos = n.toNat * 1000000 := by
  have hsecs : (n / 1000).toNat = n.toNat / 1000 := UInt64.toNat_div n 1000
  show (n / 1000).toNat * 1000000000 + n.toNat % 1000 * 1000000 = n.toNat * 1000000
  rw [hsecs]
  omega

/-- `2 ^ 62` seconds, longer than any span from a command line. -/
def Duration.ample : Duration := { zero with secs := 4611686018427387904 }

theorem Duration.toNanos_ample : ample.toNanos = 4611686018427387904000000000 := by
  decide +kernel

theorem Duration.ofMillis_le_ample (n : UInt64) : (ofMillis n).toNanos ≤ ample.toNanos := by
  have hn : n.toNat < 18446744073709551616 := n.toNat_lt
  rw [toNanos_ofMillis, toNanos_ample]
  omega

theorem Instant.add?_of_lt {time : Instant} {span : Duration} (h : time + span.toNanos < limit) :
    time.add? span = some (time + span.toNanos) :=
  if_pos h

theorem Instant.add?_eq_some {time time' : Instant} {span : Duration}
    (h : time.add? span = some time') : time' = time + span.toNanos := by
  rw [add?] at h
  by_cases hlt : time + span.toNanos < limit
  · rw [if_pos hlt] at h
    exact (Option.some.inj h).symm
  · rw [if_neg hlt] at h
    cases h

theorem Instant.lt_of_add?_isSome {time : Instant} {span : Duration}
    (h : (time.add? span).isSome) : time + span.toNanos < limit := by
  rw [add?] at h
  split at h
  · assumption
  · cases h

theorem Duration.toNanos_eq_zero {span : Duration} (h : span.isZero) : span.toNanos = 0 := by
  obtain ⟨hsecs, hnanos⟩ := of_decide_eq_true h
  rw [toNanos, hsecs, hnanos]
  rfl

end QueueRace
