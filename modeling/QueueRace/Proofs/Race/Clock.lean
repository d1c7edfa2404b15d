import QueueRace.Proofs.Duration
import QueueRace.Proofs.Race.Conservation

/-! Pauses and the end of the clock. A thread of a run panics only where a pause would end after the
last reading of the clock. As long as the clock has room for all pauses, nobody panics. -/

namespace QueueRace

/-- Whether all pauses that begin at `time` or before come to their ends on the clock. -/
structure Setup.Fits (s : Setup) (time : Instant) : Prop where
  poll : time + s.config.pollInterval.toNanos < Instant.limit
  timeout : ∀ span, s.timeout = some span → time + span.toNanos < Instant.limit
  /-- Random pauses are shorter than `2 ^ 64` microseconds, however long the configuration wants
  them to be. -/
  random : time + UInt64.size * 1000 ≤ Instant.limit

theorem Setup.Fits.mono {s : Setup} {time time' : Instant} (h : s.Fits time') (ht : time ≤ time') :
    s.Fits time where
  poll := Nat.lt_of_le_of_lt (Nat.add_le_add_right ht _) h.poll
  timeout span hspan := Nat.lt_of_le_of_lt (Nat.add_le_add_right ht _) (h.timeout span hspan)
  random := Nat.le_trans (Nat.add_le_add_right ht _) h.random

theorem toNanos_jitter_lt (longest : Duration) (word : UInt64) :
    (jitter longest word).toNanos < UInt64.size * 1000 := by
  have hlt : (pick (jitterBound longest) word).toNat < UInt64.size := UInt64.toNat_lt _
  rw [jitter, Duration.toNanos_ofMicros]
  exact Nat.mul_lt_mul_of_pos_right hlt (by decide)

/-- Where there is ample room, there is room for each random pause. -/
theorem Instant.random_of_ample {time : Instant} (h : (time.add? .ample).isSome) :
    time + UInt64.size * 1000 ≤ limit := by
  refine (Nat.add_le_add_left ?_ time).trans (lt_of_add?_isSome h).le
  rw [Duration.toNanos_ample]
  decide

theorem Setup.fits_of_ample {s : Setup} {time : Instant} (hpoll : s.config.pollInterval ≤ .ample)
    (htimeout : ∀ span, s.timeout = some span → span ≤ .ample) (h : (time.add? .ample).isSome) :
    s.Fits time where
  poll := Nat.lt_of_le_of_lt (Nat.add_le_add_left hpoll time) (Instant.lt_of_add?_isSome h)
  timeout span hspan :=
    Nat.lt_of_le_of_lt (Nat.add_le_add_left (htimeout span hspan) time)
      (Instant.lt_of_add?_isSome h)
  random := Instant.random_of_ample h

theorem Arena.pause_eq_asleep {a : Arena} {span : Duration} {deadline : Instant}
    (h : a.pause span = .asleep deadline) : deadline = a.now + span.toNanos := by
  rw [pause] at h
  split at h
  · cases h
  · cases hadd : a.now.add? span with
    | none =>
      rw [hadd] at h
      cases h
    | some time =>
      rw [hadd] at h
      rw [← Pause.asleep.inj h, Instant.add?_eq_some hadd]

theorem Arena.pause_eq_yielded {a : Arena} {span : Duration} (h : a.pause span = .yielded) :
    span.isZero := by
  rw [pause] at h
  split at h
  · assumption
  · split at h <;> cases h

theorem Arena.pause_eq_panicked {a : Arena} {span : Duration} (h : a.pause span = .panicked) :
    a.now.add? span = none := by
  rw [pause] at h
  split at h
  · cases h
  · cases hadd : a.now.add? span with
    | none => rfl
    | some time =>
      rw [hadd] at h
      cases h

theorem Arena.pause_ne_panicked {a : Arena} {span : Duration}
    (h : a.now + span.toNanos < Instant.limit) : a.pause span ≠ .panicked := by
  rw [pause, Instant.add?_of_lt h]
  cases span.isZero <;> nofun

theorem Arena.pause_jitter_ne_panicked {a : Arena} (h : a.now + UInt64.size * 1000 ≤ Instant.limit)
    (longest : Duration) (word : UInt64) : a.pause (jitter longest word) ≠ .panicked :=
  pause_ne_panicked
    (Nat.lt_of_lt_of_le (Nat.add_lt_add_left (toNanos_jitter_lt longest word) _) h)

theorem Consumer.advance_ne_panicked {s : Setup} {a : Arena} (ha : s.Fits a.now) {c : Consumer}
    (h : c.phase ≠ .panicked) (id : ℕ) (word : UInt64) :
    (c.advance s.config id word a).2.phase ≠ .panicked := by
  have hpause : ∀ {pause : Pause}, pause ≠ .panicked → Phase.ofPause pause ≠ .panicked := by
    intro pause hp
    cases pause with
    | panicked => exact absurd rfl hp
    | _ => exact Phase.noConfusion
  obtain ⟨phase, items⟩ := c
  cases phase with
  | poll drained =>
    obtain ⟨queue, stop, live, now, log⟩ := a
    simp only [advance, step]
    cases hd : queue.dequeue with
    | mk queue' reached =>
      cases reached with
      | done answer =>
        cases answer with
        | some item => exact Phase.noConfusion
        | none => cases drained <;> exact Phase.noConfusion
      | _ => exact Phase.noConfusion
  | rest => exact hpause (Arena.pause_jitter_ne_panicked ha.random _ word)
  | idle => exact hpause (Arena.pause_ne_panicked ha.poll)
  | asleep deadline =>
    simp only [advance, step]
    split <;> exact Phase.noConfusion
  | panicked => exact absurd rfl h
  | _ => exact Phase.noConfusion

theorem Producer.step_ne_panicked {a : Arena} (ha : a.now + UInt64.size * 1000 ≤ Instant.limit)
    {p : Producer} (h : p ≠ .ended .panicked) (cfg : Config) (id : ℕ) (word : UInt64) :
    (p.step cfg id word a).2 ≠ .ended .panicked := by
  cases p with
  | check n =>
    simp only [step]
    split <;> exact Producer.noConfusion
  | rest n =>
    have hpause := Arena.pause_jitter_ne_panicked ha cfg.produceDelay word
    rw [step_rest]
    cases hp : a.pause (jitter cfg.produceDelay word) with
    | panicked => exact absurd hp hpause
    | _ => exact Producer.noConfusion
  | asleep n deadline =>
    simp only [step]
    split <;> exact Producer.noConfusion
  | ended exit => exact h
  | enqueue n => exact Producer.noConfusion
  | leave n =>
    intro he
    cases he

namespace Race

variable {s : Setup} {r r' : Race} {l : Label}

/-- Neither a producer nor the watchdog has panicked. -/
structure Steady (r : Race) : Prop where
  producers : ∀ (i : ℕ) (th : ProducerThread), r.producers[i]? = some th →
    th.state ≠ .ended .panicked
  watchdog : r.watchdog ≠ some .panicked

/-- Nobody but the caller has panicked. -/
structure Calm (r : Race) : Prop where
  consumers : ∀ (i : ℕ) (c : Consumer), r.consumers[i]? = some c → c.phase ≠ .panicked
  producers : ∀ (i : ℕ) (th : ProducerThread), r.producers[i]? = some th →
    th.state ≠ .ended .panicked
  watchdog : r.watchdog ≠ some .panicked

theorem start_steady (s : Setup) (queue : Chain Item) (stop : StopToken) :
    (start s queue stop).Steady where
  producers i th hth := by simp [start] at hth
  watchdog := nofun

theorem start_calm (s : Setup) (queue : Chain Item) (stop : StopToken) :
    (start s queue stop).Calm where
  consumers i c hc := by simp [start] at hc
  producers := (start_steady s queue stop).producers
  watchdog := nofun

/-- The pause of a consumer that has found nothing makes no difference here. -/
theorem Turn.steady (ht : Turn s r l r')
    (htimeout : ∀ span, s.timeout = some span → r.arena.now + span.toNanos < Instant.limit)
    (hrandom : r.arena.now + UInt64.size * 1000 ≤ Instant.limit) (h : r.Steady) : r'.Steady := by
  obtain ⟨hproducers, hwatchdog⟩ := h
  cases ht with
  | watch hv hw log =>
    refine ⟨hproducers, fun hp => ?_⟩
    obtain rfl := Option.some.inj hp
    cases hw with
    | overflows ht hpause => exact Arena.pause_ne_panicked (htimeout _ ht) hpause
  | expire => exact ⟨hproducers, nofun⟩
  | hireWatchdog => exact ⟨hproducers, nofun⟩
  | hireProducer hc hi hf =>
    refine ⟨fun i th hth => ?_, hwatchdog⟩
    rw [Array.getElem?_push] at hth
    split at hth
    · obtain rfl := Option.some.inj hth
      nofun
    · exact hproducers i th hth
  | @producer j p hp hne word =>
    refine ⟨fun i th hth => ?_, hwatchdog⟩
    rw [getElem?_set hp] at hth
    split at hth
    · obtain rfl := Option.some.inj hth
      exact Producer.step_ne_panicked hrandom (hproducers j _ hp) s.config j word
    · exact hproducers i th hth
  | @retire j exit hp word =>
    refine ⟨fun i th hth => ?_, hwatchdog⟩
    rw [getElem?_set hp] at hth
    split at hth
    · obtain rfl := Option.some.inj hth
      have hstate := hproducers j _ hp
      exact hstate
    · exact hproducers i th hth
  | _ => exact ⟨hproducers, hwatchdog⟩

theorem Turn.calm (ht : Turn s r l r') (hs : s.Fits r.arena.now) (h : r.Calm) : r'.Calm := by
  obtain ⟨hproducers, hwatchdog⟩ := ht.steady hs.timeout hs.random ⟨h.producers, h.watchdog⟩
  refine ⟨?_, hproducers, hwatchdog⟩
  cases ht with
  | hireConsumer hc hi hf =>
    intro i c hc
    rw [Array.getElem?_push] at hc
    split at hc
    · obtain rfl := Option.some.inj hc
      nofun
    · exact h.consumers i c hc
  | @consumer j c hc word =>
    intro i d hd
    rw [getElem?_set hc] at hd
    split at hd
    · obtain rfl := Option.some.inj hd
      exact Consumer.advance_ne_panicked hs (h.consumers j c hc) j word
    · exact h.consumers i d hd
  | _ => exact h.consumers

/-- Nobody panics as long as the clock has room for all pauses. -/
theorem run_calm (s : Setup) {queue : Chain Item} (hq : queue.Sound) (stop : StopToken)
    (schedule : List Label) (hs : s.Fits ((start s queue stop).run s schedule).arena.now) :
    ((start s queue stop).run s schedule).Calm := by
  refine (run_induction (P := fun r => r.Sound s queue.toList ∧ (s.Fits r.arena.now → r.Calm))
    (fun ⟨hsound, hcalm⟩ ht => ⟨hsound.turn ht, fun hs => ?_⟩)
    ⟨start_sound s hq stop, fun _ => start_calm s queue stop⟩ schedule).2 hs
  have hs := hs.mono (ht.now_le hsound.queue)
  exact ht.calm hs (hcalm hs)

theorem Calm.not_anyPanicked (h : r.Calm) (m n : ℕ) : r.anyPanicked m n = false := by
  rw [anyPanicked, Bool.or_eq_false_iff, List.any_eq_false, List.any_eq_false]
  refine ⟨fun th hth hp => ?_, fun c hc hp => ?_⟩
  · obtain ⟨i, hi⟩ := List.mem_iff_getElem?.mp (List.mem_of_mem_drop hth)
    rw [Array.getElem?_toList] at hi
    cases th with
    | running p => cases of_decide_eq_true hp
    | gone exit =>
      obtain rfl := Option.some.inj (of_decide_eq_true hp)
      exact h.producers i _ hi rfl
  · obtain ⟨i, hi⟩ := List.mem_iff_getElem?.mp (List.mem_of_mem_drop hc)
    rw [Array.getElem?_toList] at hi
    exact h.consumers i c hi (of_decide_eq_true hp)

end Race

end QueueRace
