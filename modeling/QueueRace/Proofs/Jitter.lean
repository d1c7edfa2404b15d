import QueueRace.Jitter
import QueueRace.Proofs.Duration

/-! Which random pauses there are. A generator hands out any word, and `pick` makes of these exactly
the numbers up to its bound. So the random spans up to `max` are those of whole microseconds, up to
the last one in `max` or the last one that a word can count, and there are no others. -/

namespace QueueRace

/-- What is known of the random spans up to `max`, if every word may be at hand. -/
structure Duration.Spreads (max : Duration) : Prop where
  draws : ∀ n, (∃ word, pick (jitterBound max) word = n) ↔ n ≤ jitterBound max
  /-- The spans are those of `j` microseconds, for each `j` that `max` has room for and that a word
  can hold. -/
  spans : ∀ span, (∃ word, jitter max word = span) ↔
    ∃ j ≤ min (max.toNanos / 1000) (UInt64.size - 1), span.toNanos = j * 1000
  /-- Another generator with the same range gives the same spans. -/
  others : ∀ {α : Type} {draw : α → UInt64}, (∀ n, (∃ x, draw x = n) ↔ n ≤ jitterBound max) →
    ∀ span, (∃ x, Duration.ofMicros (draw x) = span) ↔ ∃ word, jitter max word = span
  whole : ∀ word, 1000 ∣ (jitter max word).nanos
  bounded : ∀ word, jitter max word ≤ max
  secs_le : ∀ word, (jitter max word).secs.toNat ≤ 18446744073709
  micros_lt : max.toMicros < UInt64.size * UInt64.size
  /-- What is left of the microseconds after the seconds is turned into nanoseconds in 32 bits. -/
  split : ∀ word, (jitter max word).nanos < 1000000000 ∧
    ((pick (jitterBound max) word % 1000000).toUInt32 * 1000).toNat = (jitter max word).nanos

/-! ### Numbers up to a bound -/

theorem toNat_add_one {n : UInt64} (h : n + 1 ≠ 0) : (n + 1).toNat = n.toNat + 1 := by
  have hlt := n.toNat_lt
  have hne : (n + 1).toNat ≠ 0 := fun hz => h (UInt64.toNat_inj.mp hz)
  rw [UInt64.toNat_add] at hne ⊢
  simp only [UInt64.reduceToNat] at hne ⊢
  omega

theorem pick_le (bound word : UInt64) : pick bound word ≤ bound := by
  rw [UInt64.le_iff_toNat_le, pick]
  split
  · -- every word is at most the greatest one
    rename_i hb
    have hbound := congrArg UInt64.toNat hb
    have hword := word.toNat_lt
    have hlt := bound.toNat_lt
    rw [UInt64.toNat_add] at hbound
    simp only [UInt64.reduceToNat] at hbound
    omega
  · rename_i hb
    rw [UInt64.toNat_mod, toNat_add_one hb]
    exact Nat.le_of_lt_succ (Nat.mod_lt _ (Nat.succ_pos _))

theorem pick_of_le {bound n : UInt64} (h : n ≤ bound) : pick bound n = n := by
  rw [pick]
  split
  · rfl
  · rename_i hb
    apply UInt64.toNat_inj.mp
    rw [UInt64.toNat_mod, toNat_add_one hb]
    exact Nat.mod_eq_of_lt (Nat.lt_succ_of_le (UInt64.le_iff_toNat_le.mp h))

/-! ### Microseconds -/

theorem Duration.toMicros_eq (span : Duration) : span.toMicros = span.toNanos / 1000 := by
  rw [toMicros, toNanos]
  omega

theorem Duration.eq_of_toNanos {span span' : Duration} (h : span.toNanos = span'.toNanos) :
    span = span' := by
  obtain ⟨secs, nanos, hn⟩ := span
  obtain ⟨secs', nanos', hn'⟩ := span'
  have hsum : secs.toNat * 1000000000 + nanos = secs'.toNat * 1000000000 + nanos' := h
  obtain rfl : secs = secs' := UInt64.toNat_inj.mp (by omega)
  obtain rfl : nanos = nanos' := by omega
  rfl

theorem toNat_jitterBound (max : Duration) :
    (jitterBound max).toNat = min (max.toNanos / 1000) (UInt64.size - 1) := by
  have hle : min max.toMicros (UInt64.size - 1) < UInt64.size :=
    Nat.lt_of_le_of_lt (Nat.min_le_right _ _) (by decide)
  rw [jitterBound, Nat.toUInt64_eq, UInt64.toNat_ofNat', Nat.mod_eq_of_lt hle, Duration.toMicros_eq]

theorem toNanos_jitter (max : Duration) (word : UInt64) :
    (jitter max word).toNanos = (pick (jitterBound max) word).toNat * 1000 :=
  Duration.toNanos_ofMicros _

theorem jitter_le (max : Duration) (word : UInt64) : jitter max word ≤ max := by
  have hpick := UInt64.le_iff_toNat_le.mp (pick_le (jitterBound max) word)
  rw [toNat_jitterBound] at hpick
  show (jitter max word).toNanos ≤ max.toNanos
  rw [toNanos_jitter]
  omega

/-! ### The whole -/

/-- The random spans up to `max` are its whole microseconds, as far as a word can count them. -/
theorem jitter_spreads (max : Duration) : max.Spreads := by
  have hdraws : ∀ n, (∃ word, pick (jitterBound max) word = n) ↔ n ≤ jitterBound max :=
    fun n => ⟨fun ⟨word, hword⟩ => hword ▸ pick_le _ word, fun hn => ⟨n, pick_of_le hn⟩⟩
  constructor
  case draws => exact hdraws
  case spans =>
    intro span
    rw [← toNat_jitterBound]
    constructor
    · rintro ⟨word, rfl⟩
      exact ⟨_, UInt64.le_iff_toNat_le.mp (pick_le _ word), toNanos_jitter max word⟩
    · rintro ⟨j, hj, hspan⟩
      have hlt : j < UInt64.size := Nat.lt_of_le_of_lt hj (jitterBound max).toNat_lt
      have hnat : (UInt64.ofNat j).toNat = j := by
        rw [UInt64.toNat_ofNat', Nat.mod_eq_of_lt hlt]
      obtain ⟨word, hword⟩ := (hdraws (UInt64.ofNat j)).mpr (by rwa [UInt64.le_iff_toNat_le, hnat])
      refine ⟨word, Duration.eq_of_toNanos ?_⟩
      rw [toNanos_jitter, hword, hnat, hspan]
  case others =>
    intro α draw hdraw span
    constructor
    · rintro ⟨x, rfl⟩
      obtain ⟨word, hword⟩ := (hdraws (draw x)).mpr ((hdraw _).mp ⟨x, rfl⟩)
      exact ⟨word, by rw [jitter, hword]⟩
    · rintro ⟨word, rfl⟩
      obtain ⟨x, hx⟩ := (hdraw (pick (jitterBound max) word)).mpr (pick_le _ word)
      exact ⟨x, by rw [hx, jitter]⟩
  case whole => exact fun word => Nat.dvd_mul_left _ _
  case bounded => exact jitter_le max
  case secs_le =>
    intro word
    have hlt := (pick (jitterBound max) word).toNat_lt
    show (pick (jitterBound max) word / 1000000).toNat ≤ 18446744073709
    rw [UInt64.toNat_div]
    simp only [UInt64.reduceToNat]
    omega
  case micros_lt =>
    have hsecs := max.secs.toNat_lt
    have hnanos := max.nanos_lt
    rw [Duration.toMicros, UInt64.size]
    omega
  case split =>
    intro word
    refine ⟨(jitter max word).nanos_lt, ?_⟩
    show _ = (pick (jitterBound max) word).toNat % 1000000 * 1000
    have hrest := Nat.mod_lt (pick (jitterBound max) word).toNat (show 0 < 1000000 by decide)
    rw [UInt32.toNat_mul, UInt64.toNat_toUInt32, UInt64.toNat_mod]
    simp only [UInt32.reduceToNat, UInt64.reduceToNat]
    omega

example : (jitter ⟨18446744073709551615, 999999999, by decide⟩ (0 - 1)).secs = 18446744073709 := by
  decide +kernel

end QueueRace
