import Mathlib.Algebra.Order.BigOperators.Group.Finset
import QueueRace.Proofs.StopToken.Heeding

/-! Runs in which nobody wakes without a reason. Each of them comes to its end: in every round a
thread goes on, or the clock reaches a time that somebody waits for, and neither can happen often.
So the number of rounds that a run is given is no limit. At the end all threads have ended, and the
token is cancelled if it was before, or if one of the threads was to cancel it. -/

namespace QueueRace

namespace Monitor

/-- A thread has come to its end. -/
def Thread.ended : Thread → Bool
  | .sleeper (.done _) => true
  | .sleeper .panicked => true
  | .canceller .done => true
  | .poisoner .done => true
  | _ => false

inductive Thread.Kind where
  | sleeper
  | canceller
  | poisoner
  deriving DecidableEq

/-- What a thread is there for. -/
def Thread.kind : Thread → Kind
  | .sleeper _ => .sleeper
  | .canceller _ => .canceller
  | .poisoner _ => .poisoner

/-- How many rounds a thread can still take. A sleeper that is `late`, because the token is
cancelled or its time is over, does not wait any more. -/
def Thread.work (cancelled : Bool) (now : Instant) : Thread → ℕ
  | .sleeper (.start _) => 10
  | .sleeper (.lock d) => if cancelled || d < now then 4 else 9
  | .sleeper (.check d) => if cancelled || d < now then 3 else 8
  | .sleeper (.measure d) => if d < now then 2 else 7
  | .sleeper (.wait d _) => if cancelled || d < now then 5 else 6
  | .sleeper .yield | .sleeper (.unlock _) => 1
  | .sleeper (.done _) | .sleeper .panicked => 0
  | .canceller (.await time) => if time ≤ now then 5 else 6
  | .canceller .lock => 4
  | .canceller .store => 3
  | .canceller .notify => 2
  | .canceller .unlock => 1
  | .canceller .done => 0
  | .poisoner .lock => 2
  | .poisoner .fail => 1
  | .poisoner .done => 0

/-- How many rounds thread `u` can still take. -/
def load (m : Monitor) (u : ℕ) : ℕ :=
  (m.threads[u]?).elim 0 (Thread.work m.token.cancelled m.now)

def work (m : Monitor) : ℕ := ∑ u ∈ Finset.range m.threads.size, m.load u

/-- Sleepers are notified of nothing but a cancellation. -/
def Roused (m : Monitor) : Prop :=
  ∀ {t : ℕ} {d : Instant}, m.threads[t]? = some (.sleeper (.wait d true)) → m.token.cancelled = true

/-- The threads of `m` are those of `m₀`, and only a canceller among them has set the flag. -/
structure Continues (m₀ m : Monitor) : Prop where
  kinds : ∀ u : ℕ, m.threads[u]?.map Thread.kind = m₀.threads[u]?.map Thread.kind
  flag : m.token.cancelled = true → m₀.token.cancelled = true ∨
    ∃ u : ℕ, m₀.threads[u]?.map Thread.kind = some .canceller

section
variable {m₀ m m' : Monitor} {t u : ℕ} {th th' : Thread} {token : StopToken} {owner : Option ℕ}
  {mv : Move}

/-! ### Notified sleepers -/

theorem Thread.notified_cases {other : Thread} {d : Instant}
    (h : th.rouse other = .sleeper (.wait d true)) :
    other = .sleeper (.wait d true) ∨ th = .canceller .notify := by
  cases th with
  | canceller p =>
    cases p with
    | notify => exact .inr rfl
    | _ => exact .inl h
  | _ => exact .inl h

theorem Roused.move (hr : m.Roused) (hm : m.Sound) (h : m.move mv = some m') : m'.Roused := by
  cases mv with
  | tick span =>
    obtain rfl := Option.some.inj h
    exact hr
  | step t =>
    obtain ⟨th, th', hs⟩ := step_stepped h
    intro u d hu
    apply move_cancelled h
    rcases hs.cases hu with ⟨rfl, rfl⟩ | ⟨-, o, ho, ho'⟩
    · -- nobody begins to wait notified
      have hturn := hs.turn
      generalize m'.token = token, m'.owner = owner at hturn
      cases hturn
    · rcases Thread.notified_cases ho'.symm with rfl | rfl
      · exact hr ho
      · exact hm.knows hs.before

theorem Opening.roused (h : m.Opening) : m.Roused := by
  intro t d ht
  cases h.threads _ (Array.mem_of_getElem? ht)

theorem Opening.held (h : m.Opening) : m.Held := by
  intro u hu
  rw [h.owner] at hu
  cases hu

/-! ### Every round counts -/

theorem Thread.work_mono {b b' : Bool} {now now' : Instant} (hb : b = true → b' = true)
    (hn : now ≤ now') (th : Thread) : th.work b' now' ≤ th.work b now := by
  have hlate : ∀ d : Instant, (b || decide (d < now)) = true →
      (b' || decide (d < now')) = true := by
    intro d hd
    rcases Bool.or_eq_true_iff.mp hd with hd | hd
    · rw [hb hd, Bool.true_or]
    · rw [decide_eq_true (Nat.lt_of_lt_of_le (of_decide_eq_true hd) hn), Bool.or_true]
  have hsplit : ∀ {p q : Prop} [Decidable p] [Decidable q] {i j : ℕ}, i ≤ j → (p → q) →
      (if q then i else j) ≤ if p then i else j := by
    intro p q _ _ i j hij hpq
    by_cases hp : p
    · rw [if_pos hp, if_pos (hpq hp)]
    · rw [if_neg hp]
      split
      · exact hij
      · exact le_rfl
  cases th with
  | sleeper p =>
    cases p with
    | lock d => exact hsplit (by decide) (hlate d)
    | check d => exact hsplit (by decide) (hlate d)
    | measure d => exact hsplit (by decide) fun hd => Nat.lt_of_lt_of_le hd hn
    | wait d notified => exact hsplit (by decide) (hlate d)
    | _ => exact le_rfl
  | canceller p =>
    cases p with
    | await time => exact hsplit (by decide) fun ht => Nat.le_trans ht hn
    | _ => exact le_rfl
  | poisoner p => cases p <;> exact Nat.le_refl _

theorem Thread.work_rouse (b : Bool) (now : Instant) (th other : Thread) :
    (th.rouse other).work b now = other.work b now := by
  rcases th.rouse_cases other with h | ⟨d, notified, rfl, h⟩ <;> rw [h]
  rfl

/-- A thread that does not wake without a reason. -/
theorem Turn.work_lt (ht : Turn m t th token owner th')
    (hwake : ∀ {d n}, th = .sleeper (.wait d n) →
      (m.token.cancelled || decide (d < m.now)) = true) :
    th'.work token.cancelled m.now < th.work m.token.cancelled m.now := by
  cases ht with
  | goesOn => exact (by decide : 1 < 10)
  | overflows => exact (by decide : 0 < 10)
  | begins =>
    simp only [Thread.work]
    split <;> decide
  | acquires =>
    simp only [Thread.work]
    split <;> decide
  | finds hc => simp [Thread.work, hc]
  | misses hc =>
    simp only [Thread.work, hc, Bool.false_or, decide_eq_true_eq]
    split <;> decide
  | elapses hd => simp [Thread.work, hd]
  | waits hd =>
    simp only [Thread.work, if_neg hd]
    split <;> decide
  | wakes d notified => simp [Thread.work, hwake rfl]
  | falls htime => simp [Thread.work, htime]
  | yields => exact Nat.zero_lt_one
  | returns => exact Nat.zero_lt_one
  | cancels => exact (by decide : 3 < 4)
  | stores => exact (by decide : 2 < 3)
  | notifies => exact (by decide : 1 < 2)
  | leaves => exact Nat.zero_lt_one
  | seizes => exact (by decide : 1 < 2)
  | poisons => exact Nat.zero_lt_one

theorem Stepped.size_eq (hs : m.Stepped t th th' m') : m'.threads.size = m.threads.size := by
  have hiff : ∀ u, u < m'.threads.size ↔ u < m.threads.size := by
    intro u
    rw [← isSome_getElem? m'.threads u, ← isSome_getElem? m.threads u]
    by_cases hu : u = t
    · rw [hu, hs.before, hs.after]
      exact Iff.rfl
    · rw [hs.others hu, Option.isSome_map]
  exact Nat.le_antisymm (Nat.le_of_not_lt fun h => Nat.lt_irrefl _ ((hiff _).mp h))
    (Nat.le_of_not_lt fun h => Nat.lt_irrefl _ ((hiff _).mpr h))

theorem work_lt (hsize : m'.threads.size = m.threads.size) (hle : ∀ u, m'.load u ≤ m.load u)
    (ht : t < m.threads.size) (hlt : m'.load t < m.load t) : m'.work < m.work := by
  rw [work, work, hsize]
  exact Finset.sum_lt_sum (fun u _ => hle u) ⟨t, Finset.mem_range.mpr ht, hlt⟩

theorem Stepped.work_lt (hs : m.Stepped t th th' m')
    (hc : m.token.cancelled = true → m'.token.cancelled = true)
    (hwake : ∀ {d n}, th = .sleeper (.wait d n) →
      (m.token.cancelled || decide (d < m.now)) = true) :
    m'.work < m.work := by
  have hlt : m'.load t < m.load t := by
    rw [load, load, hs.after, hs.before, hs.now_eq]
    exact hs.turn.work_lt hwake
  refine Monitor.work_lt hs.size_eq (fun u => ?_) (Array.getElem?_eq_some_iff.mp hs.before).1 hlt
  by_cases hu : u = t
  · exact hu ▸ hlt.le
  · rw [load, load, hs.others hu, hs.now_eq]
    cases m.threads[u]? with
    | none => exact le_rfl
    | some o =>
      show (th.rouse o).work _ _ ≤ o.work _ _
      rw [Thread.work_rouse]
      exact o.work_mono hc le_rfl

/-! ### Coming to rest -/

theorem isReady_of_step (ht : m.threads[t]? = some th)
    (ha : ∀ time, th.alarm? = some time → time ≤ m.now)
    (hs : (m.step t).isSome = true) : m.isReady t = true := by
  have halarm : (th.alarm?.all (· ≤ m.now)) = true := by
    cases hal : th.alarm? with
    | none => rfl
    | some time => exact decide_eq_true (ha time hal)
  simp only [isReady, ht, halarm, hs, Bool.and_self]

/-- A thread that is ready and wakes has a reason. -/
theorem Roused.wakes (hr : m.Roused) (ht : m.threads[t]? = some th) (hready : m.isReady t = true)
    {d : Instant} {n : Bool} (hth : th = .sleeper (.wait d n)) :
    (m.token.cancelled || decide (d < m.now)) = true := by
  subst hth
  cases n with
  | true => rw [hr ht, Bool.true_or]
  | false =>
    simp only [isReady, ht, Thread.alarm?, Option.all_some, Bool.and_eq_true, decide_eq_true_eq]
      at hready
    rw [decide_eq_true (show d < m.now from hready.1), Bool.or_true]

/-- A thread that waits for a time goes on when it has come. -/
theorem step_isSome_of_alarm {time : Instant} (ht : m.threads[t]? = some th)
    (ha : th.alarm? = some time) (htime : time ≤ m.now) : (m.step t).isSome = true := by
  cases th with
  | sleeper p =>
    cases p with
    | wait d notified => simp [step, ht, stepSleep]
    | _ => cases ha
  | canceller p =>
    cases p with
    | await time' =>
      obtain rfl := Option.some.inj ha
      simp [step, ht, stepCancel, htime]
    | _ => cases ha
  | poisoner p => cases ha

/-- Where nobody is ready, the clock goes on to a time that somebody waits for. -/
theorem Sound.jump_work_lt (hm : m.Sound) (hready : ∀ u, m.isReady u = false) {time : Instant}
    (halarm : m.nextAlarm? = some time) :
    ({ m with now := max m.now time } : Monitor).work < m.work := by
  obtain ⟨th, hmem, hth⟩ := List.mem_filterMap.mp (List.min?_mem halarm)
  obtain ⟨t, ht, hget⟩ := Array.getElem_of_mem (Array.mem_toList_iff.mp hmem)
  have hsome : m.threads[t]? = some th := by rw [Array.getElem?_eq_getElem ht, hget]
  have hlate : m.now < time := by
    refine Nat.lt_of_not_le fun hle => ?_
    have hstep := isReady_of_step hsome (fun time' h => Option.some.inj (hth.symm.trans h) ▸ hle)
      (step_isSome_of_alarm hsome hth hle)
    rw [hready t] at hstep
    cases hstep
  -- whoever would be about to notify a sleeper is ready
  have hquiet : ∀ d, th = .sleeper (.wait d false) → m.token.cancelled = false := by
    rintro d rfl
    refine Bool.eq_false_iff.mpr fun hc => ?_
    obtain ⟨u, hu⟩ := hm.heard hsome hc
    have hstep := isReady_of_step hu nofun (step_isSome_of_inside hu rfl)
    rw [hready u] at hstep
    cases hstep
  refine work_lt rfl (fun u => ?_) ht ?_
  · rw [load, load]
    cases m.threads[u]? with
    | none => exact le_rfl
    | some o => exact o.work_mono (fun hc => hc) (le_max_left _ _)
  · rw [load, load, hsome]
    show th.work m.token.cancelled (max m.now time) < th.work m.token.cancelled m.now
    rw [max_eq_right hlate.le]
    cases th with
    | sleeper p =>
      cases p with
      | wait d notified =>
        cases notified with
        | true => cases hth
        | false =>
          obtain rfl := Option.some.inj hth
          simp [Thread.work, hquiet d rfl, Nat.not_lt.mpr (Nat.lt_succ_iff.mp hlate)]
      | _ => cases hth
    | canceller p =>
      cases p with
      | await time' =>
        obtain rfl := Option.some.inj hth
        simp [Thread.work, Nat.not_le.mpr hlate]
      | _ => cases hth
    | poisoner p => cases hth

theorem Thread.ended_of_work (h : th.work token.cancelled m.now = 0) : th.ended = true := by
  cases th with
  | sleeper p =>
    cases p with
    | done answer => rfl
    | panicked => rfl
    | _ =>
      simp only [Thread.work] at h
      first | cases h | (split at h <;> cases h)
  | canceller p =>
    cases p with
    | done => rfl
    | _ =>
      simp only [Thread.work] at h
      first | cases h | (split at h <;> cases h)
  | poisoner p =>
    cases p with
    | done => rfl
    | _ => cases h

theorem isReady_eq_false (h : (List.range m.threads.size).find? m.isReady = none) (u : ℕ) :
    m.isReady u = false := by
  by_cases hu : u < m.threads.size
  · exact Bool.eq_false_iff.mpr (List.find?_eq_none.mp h u (List.mem_range.mpr hu))
  · simp [isReady, Array.getElem?_eq_none (Nat.le_of_not_lt hu)]

theorem alarm?_eq_none (h : m.nextAlarm? = none) (ht : m.threads[t]? = some th) :
    th.alarm? = none := by
  refine Option.eq_none_iff_forall_ne_some.mpr fun time htime => ?_
  have hmem := List.mem_filterMap.mpr
    ⟨th, Array.mem_toList_iff.mpr (Array.mem_of_getElem? ht), htime⟩
  rw [List.min?_eq_none_iff.mp h] at hmem
  cases hmem

/-- A thread that does not wait for the clock, and cannot go on though the mutex is free. -/
theorem Thread.ended_of_stuck (ht : m.threads[t]? = some th) (ho : m.owner = none)
    (ha : th.alarm? = none) (hstuck : m.step t = none) : th.ended = true := by
  simp only [step, ht] at hstuck
  cases th with
  | sleeper p =>
    cases p with
    | done answer => rfl
    | panicked => rfl
    | start span =>
      simp only [stepSleep] at hstuck
      split at hstuck
      · cases hstuck
      · split at hstuck <;> cases hstuck
    | lock d => simp [stepSleep, acquire, ho] at hstuck
    | check d =>
      simp only [stepSleep] at hstuck
      split at hstuck <;> cases hstuck
    | measure d =>
      simp only [stepSleep] at hstuck
      split at hstuck <;> cases hstuck
    | _ => cases hstuck
  | canceller p =>
    cases p with
    | done => rfl
    | await time => cases ha
    | lock => simp [stepCancel, acquire, ho] at hstuck
    | _ => cases hstuck
  | poisoner p =>
    cases p with
    | done => rfl
    | lock => simp [stepPoison, acquire, ho] at hstuck
    | _ => cases hstuck

theorem Sound.ended (hm : m.Sound) (hh : m.Held) (hready : ∀ u, m.isReady u = false)
    (halarm : m.nextAlarm? = none) (ht : m.threads[t]? = some th) : th.ended = true := by
  have hstuck : ∀ u, m.step u = none := by
    intro u
    cases hstep : m.step u with
    | none => rfl
    | some m' =>
      obtain ⟨o, o', hs⟩ := step_stepped hstep
      have := isReady_of_step hs.before
        (by rw [alarm?_eq_none halarm hs.before]; exact nofun) (by rw [hstep]; rfl)
      rw [hready u] at this
      cases this
  exact Thread.ended_of_stuck ht (hm.owner_eq_none hh hstuck) (alarm?_eq_none halarm ht) (hstuck t)

/-- A run that is given a round for each piece of work comes to its end. -/
theorem runFor_ended (n : ℕ) (hm : m.Sound) (hh : m.Held) (hr : m.Roused) (hn : m.work ≤ n)
    (ht : (m.runFor n).threads[t]? = some th) : th.ended = true := by
  induction n generalizing m with
  | zero =>
    have hzero := (Finset.sum_eq_zero_iff.mp (Nat.le_zero.mp hn)) t
      (Finset.mem_range.mpr (Array.getElem?_eq_some_iff.mp ht).1)
    rw [load, show m.threads[t]? = some th from ht] at hzero
    exact Thread.ended_of_work hzero
  | succ n ih =>
    rw [runFor] at ht
    split at ht
    · rename_i u hu
      have hready := List.find?_some hu
      obtain ⟨m', hstep⟩ := step_of_isReady hready
      have hmove : m.move (.step u) = some m' := hstep
      obtain ⟨o, o', hs⟩ := step_stepped hstep
      have hlt := hs.work_lt (move_cancelled hmove) (hr.wakes hs.before hready)
      rw [hstep, Option.getD_some] at ht
      exact ih (hm.move hmove) (hh.move hmove) (hr.move hm hmove) (by omega) ht
    · rename_i hnone
      have hready := isReady_eq_false hnone
      split at ht
      · rename_i time htime
        have hlt := hm.jump_work_lt hready htime
        exact ih (m := { m with now := max m.now time }) ⟨hm.owner, hm.knows, hm.heard⟩ hh hr
          (by omega) ht
      · exact hm.ended hh hready ‹_› ht

/-! ### What a run leaves of the token -/

theorem Thread.kind_rouse (th other : Thread) : (th.rouse other).kind = other.kind := by
  rcases th.rouse_cases other with h | ⟨d, notified, rfl, h⟩ <;> rw [h]
  rfl

theorem Turn.kind_eq (ht : Turn m t th token owner th') : th'.kind = th.kind := by
  cases ht <;> rfl

theorem move_kind (h : m.move mv = some m') (u : ℕ) :
    m'.threads[u]?.map Thread.kind = m.threads[u]?.map Thread.kind := by
  cases mv with
  | tick span =>
    obtain rfl := Option.some.inj h
    rfl
  | step t =>
    obtain ⟨th, th', hs⟩ := step_stepped h
    by_cases hu : u = t
    · rw [hu, hs.before, hs.after, Option.map_some, Option.map_some, hs.turn.kind_eq]
    · rw [hs.others hu, Option.map_map]
      exact congrArg (Option.map · _) (funext th.kind_rouse)

theorem Continues.move (hm : m₀.Continues m) (h : m.move mv = some m') : m₀.Continues m' := by
  refine ⟨fun u => (move_kind h u).trans (hm.kinds u), fun hc => ?_⟩
  cases mv with
  | tick span =>
    obtain rfl := Option.some.inj h
    exact hm.flag hc
  | step t =>
    obtain ⟨th, th', hs⟩ := step_stepped h
    rcases hs.turn.flag with hsame | ⟨rfl, -, -⟩
    · exact hm.flag (hsame ▸ hc)
    · refine .inr ⟨t, ?_⟩
      rw [← hm.kinds t, hs.before]
      rfl

theorem Thread.eq_done_of_kind (hc : th.kind = .canceller) (he : th.ended = true) :
    th = .canceller .done := by
  rcases th with p | p | p
  · cases hc
  · cases p with
    | done => rfl
    | _ => cases he
  · cases hc

/-- Once all threads have ended, the token is cancelled if it was when they began, or if one of them
was to cancel it. -/
theorem follow_cancelled {moves : List Move} (hm₀ : m₀.Opening) (h : m₀.follow moves = some m)
    (hend : ∀ {u : ℕ} {th}, m.threads[u]? = some th → th.ended = true) :
    m.token.cancelled = true ↔ m₀.token.cancelled = true ∨
      ∃ u : ℕ, m₀.threads[u]?.map Thread.kind = some .canceller := by
  have hm : m.Sound := follow_invariant Sound.move moves hm₀.sound h
  have hcont : m₀.Continues m := follow_invariant Continues.move moves ⟨fun _ => rfl, .inl⟩ h
  constructor
  · exact hcont.flag
  · rintro (hc | ⟨u, hu⟩)
    · exact follow_invariant (P := fun m => m.token.cancelled = true)
        (fun hc hmv => move_cancelled hmv hc) moves hc h
    · rw [← hcont.kinds u] at hu
      obtain ⟨th, hth, hc⟩ := Option.map_eq_some_iff.mp hu
      obtain rfl := Thread.eq_done_of_kind hc (hend hth)
      exact hm.knows hth

end

/-! ### The whole -/

section
variable {token : StopToken} {now : Instant} {threads : List Thread}

theorem Thread.work_le (b : Bool) (now : Instant) (th : Thread) :
    th.work b now ≤ stepsPerThread := by
  -- more time does not add to the work, so none has passed
  refine (@Thread.work_mono false b 0 now nofun (Nat.zero_le now) th).trans ?_
  cases th with
  | sleeper p => cases p <;> simp [Thread.work, stepsPerThread]
  | canceller p =>
    cases p with
    | await time =>
      simp only [Thread.work, stepsPerThread]
      split <;> decide
    | _ => simp [Thread.work, stepsPerThread]
  | poisoner p => cases p <;> simp [Thread.work, stepsPerThread]

theorem opening (token : StopToken) (now : Instant) (h : ∀ th ∈ threads, th.opens = true) :
    Opening ⟨token, none, now, threads.toArray⟩ :=
  ⟨rfl, fun th hth => h th (List.mem_toArray.mp hth)⟩

theorem work_le (m : Monitor) : m.work ≤ stepsPerThread * m.threads.size := by
  have hload : ∀ u ∈ Finset.range m.threads.size, m.load u ≤ stepsPerThread := by
    intro u _
    rw [load]
    cases m.threads[u]? with
    | none => exact Nat.zero_le _
    | some th => exact th.work_le _ _
  calc m.work ≤ (Finset.range m.threads.size).card • stepsPerThread :=
        Finset.sum_le_card_nsmul _ _ _ hload
    _ = m.threads.size * stepsPerThread := by rw [Finset.card_range]; rfl
    _ = stepsPerThread * m.threads.size := Nat.mul_comm _ _

/-- No run is cut short. -/
theorem run_ended (h : ∀ th ∈ threads, th.opens = true) {t : ℕ} {th : Thread}
    (ht : (run token now threads).threads[t]? = some th) : th.ended = true := by
  have ho := opening token now h
  exact runFor_ended _ ho.sound ho.held ho.roused (work_le ⟨token, none, now, threads.toArray⟩) ht

/-- A sleeper comes to an answer, or there is no time at which its sleep could end. -/
theorem run_sleeper (token : StopToken) (now : Instant) (h : ∀ th ∈ threads, th.opens = true)
    {t : ℕ} {p : Sleep} (ht : threads[t]? = some (.sleeper p)) :
    (∃ answer, (run token now threads).threads[t]? = some (.sleeper (.done answer))) ∨
      (run token now threads).threads[t]? = some (.sleeper .panicked) := by
  obtain ⟨moves, hmoves⟩ := runFor_follow (stepsPerThread * threads.length)
    ⟨token, none, now, threads.toArray⟩
  have hkind : (run token now threads).threads[t]?.map Thread.kind = some .sleeper :=
    follow_invariant (P := fun m => m.threads[t]?.map Thread.kind = some .sleeper)
      (fun hm hmv => (move_kind hmv t).trans hm) moves
      (by rw [List.getElem?_toArray, ht]; rfl) hmoves
  obtain ⟨th, hth, hsleeper⟩ := Option.map_eq_some_iff.mp hkind
  have hended := run_ended h hth
  cases th with
  | sleeper p' =>
    cases p' with
    | done answer => exact .inl ⟨answer, hth⟩
    | panicked => exact .inr hth
    | _ => cases hended
  | _ => cases hsleeper

/-- What a run leaves of the flag depends on the flag, and on whether anybody was to cancel. -/
theorem run_cancelled (token : StopToken) (now : Instant) (h : ∀ th ∈ threads, th.opens = true) :
    (run token now threads).token.cancelled =
      (token.cancelled || threads.any (·.kind = .canceller)) := by
  obtain ⟨moves, hmoves⟩ := runFor_follow (stepsPerThread * threads.length)
    ⟨token, none, now, threads.toArray⟩
  have := follow_cancelled (opening token now h) hmoves (run_ended h)
  rw [Bool.eq_iff_iff, Bool.or_eq_true, List.any_eq_true]
  refine this.trans (or_congr_right ⟨fun ⟨u, hu⟩ => ?_, fun ⟨th, hth, hc⟩ => ?_⟩)
  · obtain ⟨th, hth, hc⟩ := Option.map_eq_some_iff.mp hu
    exact ⟨th, List.mem_toArray.mp (Array.mem_of_getElem? hth), decide_eq_true hc⟩
  · obtain ⟨u, hu, rfl⟩ := List.getElem_of_mem hth
    refine ⟨u, ?_⟩
    rw [List.getElem?_toArray, List.getElem?_eq_getElem hu, Option.map_some, of_decide_eq_true hc]

end

end Monitor

end QueueRace
