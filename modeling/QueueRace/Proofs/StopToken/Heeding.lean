import QueueRace.Proofs.StopToken.Wakeup
import QueueRace.StopToken.Script

/-! A sleeper that is called when the token is cancelled already. It answers so, whatever the others
do and whether or not the mutex is poisoned, and it never waits for the end of its time. Nobody
takes many steps any more after a cancellation, and whoever holds the mutex can go on, so the
sleeper comes to its answer under every scheduler. Only the end of its time stands in the way: it
is worked out before the flag is looked at, and one that the clock has no room for is a panic. -/

namespace QueueRace

namespace Monitor

/-- The token was cancelled, by a cancellation that is over or by one that has got to the flag. All
clones of a token share one state, so it may have been any of them. -/
def Cancelled (m : Monitor) : Prop :=
  m.token.cancelled = true ∨ ∃ u : ℕ, m.threads[u]? = some (.canceller .done)

/-- The clock has room for the end of a sleep that begins now. -/
def HasRoom (m : Monitor) (span : Duration) : Prop :=
  span.isZero = false → (m.now.add? span).isSome = true

/-- Sleeper `t` was called in the state `m`, to sleep for `span`, and the moves `later` have led to
the state `m'`. -/
structure Heeds (m : Monitor) (t : ℕ) (span : Duration) (later : List Move) (m' : Monitor) :
    Prop where
  /-- Cancelled or not, only a lack of room makes it panic. -/
  panicked : m'.threads[t]? = some (.sleeper .panicked) ↔ ¬m.HasRoom span
  awake : m.Cancelled → ∀ d notified, m'.threads[t]? ≠ some (.sleeper (.wait d notified))
  answer : m.Cancelled → ∀ {b}, m'.threads[t]? = some (.sleeper (.done b)) → b = true
  /-- No run goes on for ever. -/
  steps : m.Cancelled → ∀ u, (Move.step t :: later).count (.step u) ≤ 5
  /-- Where nobody can go on, it has answered. -/
  answered : m.Cancelled → m.HasRoom span → (∀ u, m'.step u = none) →
    m'.threads[t]? = some (.sleeper (.done true))

section
variable {m m' : Monitor} {t u : ℕ} {th th' : Thread} {token : StopToken} {owner : Option ℕ}
  {p : Sleep} {span : Duration} {later : List Move} {mv : Move}

theorem Sound.flag (hm : m.Sound) (hc : m.Cancelled) : m.token.cancelled = true := by
  rcases hc with hc | ⟨u, hu⟩
  · exact hc
  · exact hm.knows hu

/-! ### What a sleeper comes to -/

/-- What the turns of a sleeper keep of its phase, runs keep. -/
theorem follow_sleeper {Q : Monitor → Prop} {P : Sleep → Prop}
    (keeps : ∀ {m mv m'}, Q m → m.move mv = some m' → Q m')
    (turns : ∀ {m p token owner th'}, Q m → P p → Turn m t (.sleeper p) token owner th' →
      ∃ p', th' = .sleeper p' ∧ P p')
    (notified : ∀ {d n}, P (.wait d n) → P (.wait d true))
    (hm : Q m) (ht : m.threads[t]? = some (.sleeper p)) (hp : P p)
    (h : m.follow later = some m') : ∃ p', m'.threads[t]? = some (.sleeper p') ∧ P p' := by
  refine (follow_invariant (P := fun m => Q m ∧ ∃ p, m.threads[t]? = some (.sleeper p) ∧ P p)
    ?_ later ⟨hm, p, ht, hp⟩ h).2
  rintro m mv m' ⟨hm, p, ht, hp⟩ hmv
  refine ⟨keeps hm hmv, ?_⟩
  cases mv with
  | tick span =>
    obtain rfl := Option.some.inj hmv
    exact ⟨p, ht, hp⟩
  | step u =>
    obtain ⟨th, th', hs⟩ := step_stepped hmv
    by_cases hu : u = t
    · subst u
      obtain rfl := Option.some.inj (hs.before.symm.trans ht)
      obtain ⟨p', rfl, hp'⟩ := turns hm hp hs.turn
      exact ⟨p', hs.after, hp'⟩
    · rw [hs.others (Ne.symm hu), ht, Option.map_some]
      rcases th.rouse_cases (.sleeper p) with hr | ⟨d, n, hw, hr⟩
      · exact ⟨p, by rw [hr], hp⟩
      · obtain rfl := Thread.sleeper.inj hw
        exact ⟨_, by rw [hr], notified hp⟩

def Sleep.underWay : Sleep → Bool
  | .start _ => false
  | .panicked => false
  | _ => true

theorem Turn.underWay (ht : Turn m t (.sleeper p) token owner th') (hp : p.underWay = true) :
    ∃ p', th' = .sleeper p' ∧ p'.underWay = true := by
  cases ht <;> first | exact ⟨_, rfl, rfl⟩ | cases hp

/-- How far a sleeper comes that is called when the token is cancelled. -/
def Sleep.Heeding : Sleep → Prop
  | .yield | .lock _ | .check _ => True
  | .unlock answer | .done answer => answer = true
  | .start _ | .measure _ | .wait _ _ | .panicked => False

theorem Turn.heeding (ht : Turn m t (.sleeper p) token owner th')
    (hc : m.token.cancelled = true) (hp : p.Heeding) : ∃ p', th' = .sleeper p' ∧ p'.Heeding := by
  cases ht with
  | yields => exact ⟨_, rfl, hc⟩
  | acquires => exact ⟨_, rfl, trivial⟩
  | finds => exact ⟨_, rfl, rfl⟩
  | misses hn => simp [hc] at hn
  | returns => exact ⟨_, rfl, hp⟩
  | _ => exact hp.elim

theorem step_start (hstep : m.step t = some m')
    (ht : m.threads[t]? = some (.sleeper (.start span))) :
    m'.threads[t]? = some (.sleeper .panicked) ∧ ¬m.HasRoom span ∨
      ∃ p, m'.threads[t]? = some (.sleeper p) ∧ m.HasRoom span ∧ p.underWay = true ∧ p.Heeding := by
  obtain ⟨th, th', hs⟩ := step_stepped hstep
  obtain rfl := Option.some.inj (hs.before.symm.trans ht)
  have hafter := hs.after
  have hturn := hs.turn
  generalize m'.token = token, m'.owner = owner at hturn
  cases hturn with
  | goesOn hz => exact .inr ⟨_, hafter, fun hn => by simp [hz] at hn, rfl, trivial⟩
  | overflows hz hd =>
    refine .inl ⟨hafter, fun hr => ?_⟩
    have := hr hz
    rw [hd] at this
    cases this
  | begins _ hd => exact .inr ⟨_, hafter, fun _ => by rw [hd]; rfl, rfl, trivial⟩

/-! ### Nobody goes on for ever -/

/-- How many steps a thread can still take if the token is cancelled. -/
def Thread.left : Thread → ℕ
  | .sleeper (.start _) | .sleeper (.wait _ _) => 4
  | .sleeper (.lock _) => 3
  | .sleeper (.check _) => 2
  | .sleeper .yield | .sleeper (.unlock _) => 1
  | .sleeper (.measure _) | .sleeper (.done _) | .sleeper .panicked => 0
  | .canceller (.await _) => 5
  | .canceller .lock => 4
  | .canceller .store => 3
  | .canceller .notify => 2
  | .canceller .unlock => 1
  | .canceller .done => 0
  | .poisoner .lock => 2
  | .poisoner .fail => 1
  | .poisoner .done => 0

theorem Thread.left_le (th : Thread) : th.left ≤ 5 := by
  cases th with
  | sleeper p => cases p <;> simp [Thread.left]
  | canceller p => cases p <;> simp [Thread.left]
  | poisoner p => cases p <;> simp [Thread.left]

theorem Thread.left_rouse (th other : Thread) : (th.rouse other).left = other.left := by
  rcases th.rouse_cases other with h | ⟨d, notified, rfl, h⟩ <;> rw [h]
  rfl

theorem Turn.left_lt (ht : Turn m t th token owner th') (hc : m.token.cancelled = true)
    (hk : th.Knows m.token.cancelled) : th'.left < th.left := by
  cases ht with
  | misses hn => simp [hc] at hn
  | elapses => exact absurd hk (by simp [Thread.Knows, hc])
  | waits => exact absurd hk (by simp [Thread.Knows, hc])
  | _ => simp [Thread.left]

def left (m : Monitor) (u : ℕ) : ℕ := (m.threads[u]?).elim 0 Thread.left

theorem left_le (m : Monitor) (u : ℕ) : m.left u ≤ 5 := by
  rw [left]
  cases m.threads[u]? with
  | none => exact Nat.zero_le 5
  | some th => exact th.left_le

theorem Sound.left_move (hm : m.Sound) (hc : m.token.cancelled = true)
    (h : m.move mv = some m') (u : ℕ) :
    (if mv = .step u then 1 else 0) + m'.left u ≤ m.left u := by
  cases mv with
  | tick span =>
    obtain rfl := Option.some.inj h
    exact Nat.le_of_eq (Nat.zero_add _)
  | step t =>
    obtain ⟨th, th', hs⟩ := step_stepped h
    by_cases hu : t = u
    · subst u
      have hlt := hs.turn.left_lt hc (hm.knows hs.before)
      rw [if_pos rfl, left, left, hs.before, hs.after]
      exact Nat.one_add_le_iff.mpr hlt
    · have hne : Move.step t ≠ .step u := fun h => hu (Move.step.inj h)
      rw [if_neg hne, Nat.zero_add, left, left, hs.others (Ne.symm hu)]
      cases m.threads[u]? with
      | none => exact Nat.le_refl 0
      | some o => exact Nat.le_of_eq (th.left_rouse o)

theorem Sound.left_follow (hm : m.Sound) (hc : m.token.cancelled = true)
    (h : m.follow later = some m') (u : ℕ) : later.count (.step u) + m'.left u ≤ m.left u := by
  induction later generalizing m with
  | nil =>
    obtain rfl := Option.some.inj h
    exact Nat.le_of_eq (Nat.zero_add _)
  | cons mv later ih =>
    obtain ⟨m₁, hmv, h⟩ := Option.bind_eq_some_iff.mp h
    have hfirst := hm.left_move hc hmv u
    have hrest := ih (hm.move hmv) (move_cancelled hmv hc) h
    rw [List.count_cons]
    simp only [beq_iff_eq]
    omega

/-! ### Whoever holds the mutex can go on -/

/-- The owner of the mutex is one of the threads. -/
def Held (m : Monitor) : Prop := ∀ {u : ℕ}, m.owner = some u → ∃ th, m.threads[u]? = some th

theorem Held.move (hm : m.Held) (h : m.move mv = some m') : m'.Held := by
  cases mv with
  | tick span =>
    obtain rfl := Option.some.inj h
    exact hm
  | step t =>
    obtain ⟨th, th', hs⟩ := step_stepped h
    intro u hu
    by_cases hut : u = t
    · exact ⟨th', hut ▸ hs.after⟩
    · have hown : m.owner = some u := by
        rcases hs.turn.mutex with ⟨h1, -⟩ | ⟨-, h1, -⟩ | ⟨-, h1, -⟩ <;> rw [h1] at hu
        · exact hu
        · exact absurd (Option.some.inj hu).symm hut
        · cases hu
      obtain ⟨o, ho⟩ := hm hown
      exact ⟨th.rouse o, by rw [hs.others hut, ho, Option.map_some]⟩

theorem step_isSome_of_inside (ht : m.threads[t]? = some th) (hi : th.inside = true) :
    (m.step t).isSome = true := by
  cases th with
  | sleeper p =>
    cases p with
    | check d =>
      simp only [step, ht, stepSleep]
      split <;> rfl
    | measure d =>
      simp only [step, ht, stepSleep]
      split <;> rfl
    | unlock answer => simp [step, ht, stepSleep]
    | _ => cases hi
  | canceller p =>
    cases p with
    | store => simp [step, ht, stepCancel]
    | notify => simp [step, ht, stepCancel]
    | unlock => simp [step, ht, stepCancel]
    | _ => cases hi
  | poisoner p =>
    cases p with
    | fail => simp [step, ht, stepPoison]
    | _ => cases hi

theorem Sound.owner_eq_none (hm : m.Sound) (hh : m.Held) (hstuck : ∀ u, m.step u = none) :
    m.owner = none := by
  cases ho : m.owner with
  | none => rfl
  | some u =>
    obtain ⟨th, hth⟩ := hh ho
    have hstep := step_isSome_of_inside hth ((hm.owner hth).mpr ho)
    rw [hstuck u] at hstep
    cases hstep

/-- A sleeper that heeds the cancellation, and cannot go on though the mutex is free, has
answered. -/
theorem Sleep.Heeding.eq_done (hp : p.Heeding) (ht : m.threads[t]? = some (.sleeper p))
    (ho : m.owner = none) (hstuck : m.step t = none) : p = .done true := by
  simp only [step, ht] at hstuck
  cases p with
  | yield => cases hstuck
  | lock d => simp [stepSleep, acquire, ho] at hstuck
  | check d =>
    simp only [stepSleep] at hstuck
    split at hstuck <;> cases hstuck
  | unlock answer => cases hstuck
  | done answer => rw [show answer = true from hp]
  | _ => exact hp.elim

end

/-! ### The whole -/

/-- A sleeper heeds a cancellation before its call, for every span that the clock has room for, in
any interleaving with any number of sleepers, cancellers and poisoners. -/
theorem follow_heeds {m₀ m m' : Monitor} {before later : List Move} {t : ℕ} {span : Duration}
    (hm₀ : m₀.Opening) (hbefore : m₀.follow before = some m)
    (ht : m.threads[t]? = some (.sleeper (.start span)))
    (h : m.follow (.step t :: later) = some m') : m.Heeds t span later m' := by
  have hm : m.Sound := follow_invariant Sound.move before hm₀.sound hbefore
  have hm' : m'.Sound := follow_invariant Sound.move _ hm h
  have hheld : m'.Held := by
    refine follow_invariant Held.move _ (follow_invariant Held.move before ?_ hbefore) h
    intro u hu
    simp [hm₀.owner] at hu
  obtain ⟨m₁, hstep, hlater⟩ := Option.bind_eq_some_iff.mp h
  have hflag : m.Cancelled → m₁.token.cancelled = true := fun hc =>
    move_cancelled hstep (hm.flag hc)
  -- with room, the sleeper is under way after every run, and heeds a cancellation before its call
  have hroom : m.HasRoom span → ∃ p, m'.threads[t]? = some (.sleeper p) ∧ p.underWay = true ∧
      (m.Cancelled → p.Heeding) := by
    intro hr
    obtain ⟨p, hp, -, hway, hheed⟩ := (step_start hstep ht).resolve_left fun hn => hn.2 hr
    obtain ⟨p', hp', hway'⟩ := follow_sleeper (Q := fun _ => True) (P := fun p => p.underWay = true)
      (fun _ _ => trivial) (fun _ hp ht => ht.underWay hp) (fun _ => rfl) trivial hp hway hlater
    refine ⟨p', hp', hway', fun hc => ?_⟩
    obtain ⟨p'', hp'', hheed'⟩ := follow_sleeper (fun hc hmv => move_cancelled hmv hc)
      (fun hc hp ht => ht.heeding hc hp) (fun hw => hw.elim) (hflag hc) hp hheed hlater
    obtain rfl := Thread.sleeper.inj (Option.some.inj (hp'.symm.trans hp''))
    exact hheed'
  have hnone : ¬m.HasRoom span → m'.threads[t]? = some (.sleeper .panicked) := by
    intro hr
    obtain ⟨hp, -⟩ := (step_start hstep ht).resolve_right fun ⟨_, _, hr', _⟩ => hr hr'
    obtain ⟨p, hp', rfl⟩ := follow_sleeper (Q := fun _ => True) (P := (· = .panicked))
      (fun _ _ => trivial) (fun _ hp ht => by subst hp; cases ht) nofun trivial hp rfl hlater
    exact hp'
  refine ⟨⟨fun hp hr => ?_, hnone⟩, fun hc d notified hw => ?_, fun hc b hb => ?_, fun hc u => ?_,
    fun hc hr hstuck => ?_⟩
  · obtain ⟨p, hp', hway, -⟩ := hroom hr
    obtain rfl := Thread.sleeper.inj (Option.some.inj (hp'.symm.trans hp))
    cases hway
  · by_cases hr : m.HasRoom span
    · obtain ⟨p, hp, -, hheed⟩ := hroom hr
      obtain rfl := Thread.sleeper.inj (Option.some.inj (hp.symm.trans hw))
      exact hheed hc
    · cases (hnone hr).symm.trans hw
  · by_cases hr : m.HasRoom span
    · obtain ⟨p, hp, -, hheed⟩ := hroom hr
      obtain rfl := Thread.sleeper.inj (Option.some.inj (hp.symm.trans hb))
      exact hheed hc
    · cases (hnone hr).symm.trans hb
  · have hcount := hm.left_follow (hm.flag hc) h u
    have hle := m.left_le u
    omega
  · obtain ⟨p, hp, -, hheed⟩ := hroom hr
    rw [hp, (hheed hc).eq_done hp (hm'.owner_eq_none hheld hstuck) (hstuck t)]

/-- The call comes after the cancellation, and a thread that panics in between holds the mutex. -/
theorem follow_heeds_poisoned :
    ∃ m m' : Monitor,
      follow ⟨.new, none, 0, #[.sleeper (.start ⟨60, 0, by decide⟩), .canceller .lock,
          .poisoner .lock]⟩ (List.replicate 4 (.step 1) ++ [.step 2]) = some m ∧
      m.threads[0]? = some (.sleeper (.start ⟨60, 0, by decide⟩)) ∧ m.owner = some 2 ∧
      m.follow (.step 0 :: [.step 2, .step 0, .step 0, .step 0]) = some m' ∧
      m'.token = ⟨true, true⟩ ∧ m'.threads[0]? = some (.sleeper (.done true)) := by
  have hopening : Opening ⟨.new, none, 0, #[.sleeper (.start ⟨60, 0, by decide⟩), .canceller .lock,
      .poisoner .lock]⟩ := ⟨rfl, by simp [Thread.opens]⟩
  have hbefore : follow ⟨.new, none, 0, #[.sleeper (.start ⟨60, 0, by decide⟩), .canceller .lock,
      .poisoner .lock]⟩ (List.replicate 4 (.step 1) ++ [.step 2]) =
      some ⟨⟨true, false⟩, some 2, 0, #[.sleeper (.start ⟨60, 0, by decide⟩), .canceller .done,
        .poisoner .fail]⟩ := by cbv
  have hlater : follow ⟨⟨true, false⟩, some 2, 0, #[.sleeper (.start ⟨60, 0, by decide⟩),
      .canceller .done, .poisoner .fail]⟩ (.step 0 :: [.step 2, .step 0, .step 0, .step 0]) =
      some ⟨⟨true, true⟩, none, 0, #[.sleeper (.done true), .canceller .done,
        .poisoner .done]⟩ := by cbv
  refine ⟨_, _, hbefore, rfl, rfl, hlater, rfl, ?_⟩
  refine (follow_heeds hopening hbefore rfl hlater).answered (.inr ⟨1, rfl⟩) (fun _ => by decide) ?_
  rintro (_ | _ | _ | u) <;> rfl

end Monitor

namespace TokenScript

/-- A clone is cancelled, and a sleep for the longest span there is panics all the same. -/
theorem run_overflows_cancelled :
    run .start [(0, .act (.clone 1)), (0, .act .cancel),
        (1, .act (.sleep ⟨18446744073709551615, 999999999, by decide⟩))] =
      [(.done, [(0, false), (1, false)]), (.done, [(0, true), (1, true)]),
        (.panicked Instant.overflowText, [(0, true), (1, true)])] := by
  with_unfolding_all rfl

end TokenScript

end QueueRace
