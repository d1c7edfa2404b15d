import QueueRace.Proofs.Duration
import QueueRace.Proofs.StopToken.Turn

/-! No sleeper misses a cancellation, whatever wakes it and whoever else sleeps or cancels. The flag
is set, and looked at by a sleeper, only by the thread that holds the mutex, and a sleeper gives
the mutex up in the same step in which it begins to wait. So whoever waits unnotified while the
flag is set is about to be notified, and whoever comes later sees the flag. -/

namespace QueueRace

namespace Monitor

def Thread.opens : Thread → Bool
  | .sleeper (.start _) => true
  | .canceller (.await _) => true
  | .canceller .lock => true
  | .poisoner .lock => true
  | _ => false

/-- Nobody has taken a step yet. -/
structure Opening (m : Monitor) : Prop where
  owner : m.owner = none
  threads : ∀ th ∈ m.threads, th.opens = true

/-- What a thread knows of the flag. -/
def Thread.Knows (cancelled : Bool) : Thread → Prop
  | .sleeper (.measure _) => cancelled = false
  | .sleeper (.unlock true) => cancelled = true
  | .sleeper (.done true) => cancelled = true
  | .canceller .notify => cancelled = true
  | .canceller .unlock => cancelled = true
  | .canceller .done => cancelled = true
  | _ => True

structure Sound (m : Monitor) : Prop where
  owner : ∀ {t : ℕ} {th : Thread}, m.threads[t]? = some th → (th.inside = true ↔ m.owner = some t)
  knows : ∀ {t : ℕ} {th : Thread}, m.threads[t]? = some th → th.Knows m.token.cancelled
  heard : ∀ {t : ℕ} {d : Instant}, m.threads[t]? = some (.sleeper (.wait d false)) →
    m.token.cancelled = true → ∃ u : ℕ, m.threads[u]? = some (.canceller .notify)

/-! ### One step -/

theorem Thread.rouse_cases (th other : Thread) : th.rouse other = other ∨
    ∃ d notified, other = .sleeper (.wait d notified) ∧ th.rouse other = .sleeper (.wait d true) := by
  have hnotify : other.notify = other ∨ ∃ d notified, other = .sleeper (.wait d notified) ∧
      other.notify = .sleeper (.wait d true) := by
    cases other with
    | sleeper p =>
      cases p with
      | wait d notified => exact .inr ⟨d, notified, rfl, rfl⟩
      | _ => exact .inl rfl
    | _ => exact .inl rfl
  cases th with
  | canceller p =>
    cases p with
    | notify => exact hnotify
    | _ => exact .inl rfl
  | _ => exact .inl rfl

theorem Thread.inside_rouse (th other : Thread) : (th.rouse other).inside = other.inside := by
  rcases th.rouse_cases other with h | ⟨d, notified, rfl, h⟩ <;> rw [h]
  rfl

theorem Thread.Knows.rouse {b : Bool} {other : Thread} (h : other.Knows b) (th : Thread) :
    (th.rouse other).Knows b := by
  rcases th.rouse_cases other with hr | ⟨d, notified, rfl, hr⟩ <;> rw [hr]
  · exact h
  · trivial

/-- To a thread that does not hold the mutex a cancellation is no news, or good news. -/
theorem Thread.Knows.cancel {b : Bool} {th : Thread} (h : th.Knows b) (hi : th.inside = false) :
    th.Knows true := by
  cases th with
  | sleeper p =>
    cases p with
    | measure d => cases hi
    | unlock answer => cases hi
    | done answer => cases answer <;> trivial
    | _ => trivial
  | canceller p => cases p <;> trivial
  | poisoner p => trivial

section
variable {m m' : Monitor} {t : ℕ} {th th' : Thread} {token : StopToken} {owner : Option ℕ}

/-- A thread keeps the mutex or stays without it, takes it when it is free, or gives it up. -/
theorem Turn.mutex (ht : Turn m t th token owner th') :
    owner = m.owner ∧ th'.inside = th.inside ∨
      m.owner = none ∧ owner = some t ∧ th'.inside = true ∨
      th.inside = true ∧ owner = none ∧ th'.inside = false := by
  cases ht with
  | acquires h => exact .inr (.inl ⟨h, rfl, rfl⟩)
  | cancels h => exact .inr (.inl ⟨h, rfl, rfl⟩)
  | seizes h => exact .inr (.inl ⟨h, rfl, rfl⟩)
  | waits => exact .inr (.inr ⟨rfl, rfl, rfl⟩)
  | returns => exact .inr (.inr ⟨rfl, rfl, rfl⟩)
  | leaves => exact .inr (.inr ⟨rfl, rfl, rfl⟩)
  | poisons => exact .inr (.inr ⟨rfl, rfl, rfl⟩)
  | _ => exact .inl ⟨rfl, rfl⟩

theorem Turn.flag (ht : Turn m t th token owner th') :
    token.cancelled = m.token.cancelled ∨
      th = .canceller .store ∧ th' = .canceller .notify ∧ token.cancelled = true := by
  cases ht with
  | stores => exact .inr ⟨rfl, rfl, rfl⟩
  | _ => exact .inl rfl

theorem Turn.knows (ht : Turn m t th token owner th') (h : th.Knows m.token.cancelled) :
    th'.Knows token.cancelled := by
  cases ht with
  | yields =>
    cases m.token.cancelled
    · trivial
    · rfl
  | finds hc => exact hc
  | misses hc => exact hc
  | stores => rfl
  | notifies => exact h
  | leaves => exact h
  | returns answer => cases answer <;> exact h
  | _ => trivial

/-- Nobody begins to wait while the flag is set. -/
theorem Turn.not_waits {d : Instant} (ht : Turn m t th token owner (.sleeper (.wait d false)))
    (h : th.Knows m.token.cancelled) : token.cancelled = false := by
  cases ht with
  | waits => exact h

section
variable (hm : m.Sound) (hs : m.Stepped t th th' m')
include hm hs

theorem Sound.owner_stepped {u : ℕ} {x : Thread} (hx : m'.threads[u]? = some x) :
    x.inside = true ↔ m'.owner = some u := by
  have hown := hm.owner hs.before
  rcases hs.cases hx with ⟨rfl, rfl⟩ | ⟨hu, o, ho, rfl⟩
  · rcases hs.turn.mutex with ⟨h1, h2⟩ | ⟨-, h1, h2⟩ | ⟨-, h1, h2⟩
    · rw [h1, h2, hown]
    · simp [h1, h2]
    · simp [h1, h2]
  · rw [Thread.inside_rouse, hm.owner ho]
    rcases hs.turn.mutex with ⟨h1, -⟩ | ⟨h0, h1, -⟩ | ⟨h0, h1, -⟩
    · rw [h1]
    · simp [h0, h1, Ne.symm hu]
    · simp [hown.mp h0, h1, Ne.symm hu]

theorem Sound.knows_stepped {u : ℕ} {x : Thread} (hx : m'.threads[u]? = some x) :
    x.Knows m'.token.cancelled := by
  rcases hs.cases hx with ⟨rfl, rfl⟩ | ⟨hu, o, ho, rfl⟩
  · exact hs.turn.knows (hm.knows hs.before)
  · refine Thread.Knows.rouse ?_ th
    rcases hs.turn.flag with hc | ⟨rfl, -, hc⟩
    · rw [hc]
      exact hm.knows ho
    · -- the canceller holds the mutex, so the other thread does not
      rw [hc]
      refine (hm.knows ho).cancel (Bool.eq_false_iff.mpr fun hi => hu ?_)
      exact Option.some.inj (((hm.owner ho).mp hi).symm.trans ((hm.owner hs.before).mp rfl))

theorem Sound.heard_stepped {u : ℕ} {d : Instant}
    (hx : m'.threads[u]? = some (.sleeper (.wait d false))) (hc : m'.token.cancelled = true) :
    ∃ v : ℕ, m'.threads[v]? = some (.canceller .notify) := by
  rcases hs.cases hx with ⟨rfl, rfl⟩ | ⟨hu, o, ho, hr⟩
  · rw [hs.turn.not_waits (hm.knows hs.before)] at hc
    cases hc
  · obtain rfl : o = .sleeper (.wait d false) := by
      rcases th.rouse_cases o with h | ⟨d', notified, -, h⟩ <;> rw [h] at hr
      · exact hr.symm
      · cases hr
    rcases hs.turn.flag with hsame | ⟨-, rfl, -⟩
    · obtain ⟨v, hv⟩ := hm.heard ho (hsame ▸ hc)
      by_cases hvt : v = t
      · -- it notifies with this step, and then nobody waits unnotified
        subst v
        obtain rfl := Option.some.inj (hs.before.symm.trans hv)
        cases hr
      · refine ⟨v, ?_⟩
        rw [hs.others hvt, hv, Option.map_some]
        rcases th.rouse_cases (.canceller .notify) with h | ⟨d', notified, h, -⟩
        · rw [h]
        · cases h
    · exact ⟨t, hs.after⟩

end

theorem Sound.stepped (hm : m.Sound) (hs : m.Stepped t th th' m') : m'.Sound :=
  ⟨hm.owner_stepped hs, hm.knows_stepped hs, hm.heard_stepped hs⟩

theorem Sound.move {mv : Move} (hm : m.Sound) (h : m.move mv = some m') : m'.Sound := by
  cases mv with
  | step t =>
    obtain ⟨th, th', hs⟩ := step_stepped h
    exact hm.stepped hs
  | tick span =>
    obtain rfl := Option.some.inj h
    exact ⟨hm.owner, hm.knows, hm.heard⟩

theorem Thread.of_opens (h : th.opens = true) : th.inside = false ∧ ∀ b, th.Knows b := by
  cases th with
  | sleeper p => cases p <;> first | exact ⟨rfl, fun _ => trivial⟩ | cases h
  | canceller p => cases p <;> first | exact ⟨rfl, fun _ => trivial⟩ | cases h
  | poisoner p => cases p <;> first | exact ⟨rfl, fun _ => trivial⟩ | cases h

theorem Opening.sound (h : m.Opening) : m.Sound := by
  have hopens : ∀ {t : ℕ} {th : Thread}, m.threads[t]? = some th → th.opens = true :=
    fun ht => h.threads _ (Array.mem_of_getElem? ht)
  refine ⟨fun ht => ?_, fun ht => (Thread.of_opens (hopens ht)).2 _, fun ht => by cases hopens ht⟩
  simp [(Thread.of_opens (hopens ht)).1, h.owner]

theorem move_cancelled {mv : Move} (h : m.move mv = some m') (hc : m.token.cancelled = true) :
    m'.token.cancelled = true := by
  cases mv with
  | step t =>
    obtain ⟨th, th', hs⟩ := step_stepped h
    rcases hs.turn.flag with hf | ⟨-, -, hf⟩
    · rw [hf, hc]
    · exact hf
  | tick span =>
    obtain rfl := Option.some.inj h
    exact hc

end

/-! ### A sleeper that comes late -/

/-- A sleeper that has found the mutex free after a cancellation, after so many steps of its own. -/
def Sleep.late (d : Instant) : ℕ → Sleep
  | 0 => .check d
  | 1 => .unlock true
  | _ => .done true

section
variable {m m' : Monitor} {t : ℕ} {d : Instant}

theorem move_late {mv : Move} {k : ℕ} (h : m.move mv = some m') (hc : m.token.cancelled = true)
    (ht : m.threads[t]? = some (.sleeper (.late d k))) (hk : k ≤ 2) :
    k + (if mv = .step t then 1 else 0) ≤ 2 ∧
      m'.threads[t]? = some (.sleeper (.late d (k + if mv = .step t then 1 else 0))) := by
  cases mv with
  | tick span =>
    obtain rfl := Option.some.inj h
    exact ⟨hk, ht⟩
  | step u =>
    obtain ⟨th, th', hs⟩ := step_stepped h
    by_cases hu : u = t
    · subst u
      obtain rfl := Option.some.inj (hs.before.symm.trans ht)
      rw [if_pos rfl, hs.after]
      have hturn := hs.turn
      generalize m'.token = token, m'.owner = owner at hturn
      match k with
      | 0 =>
        cases hturn with
        | finds _ => exact ⟨by omega, rfl⟩
        | misses hn => simp [hc] at hn
      | 1 =>
        cases hturn with
        | returns => exact ⟨Nat.le_refl 2, rfl⟩
      | k + 2 => cases hturn
    · have hne : Move.step u ≠ .step t := fun h => hu (Move.step.inj h)
      rw [if_neg hne, hs.others (Ne.symm hu), ht]
      refine ⟨hk, ?_⟩
      rcases th.rouse_cases (.sleeper (.late d k)) with hr | ⟨d', notified, hw, -⟩
      · rw [Nat.add_zero, Option.map_some, hr]
      · match k with
        | 0 => cases hw
        | 1 => cases hw
        | k + 2 => cases hw

/-- A sleeper that has found the mutex free after a cancellation looks at the flag, gives the mutex
back and answers. -/
theorem follow_late {later : List Move} {k : ℕ} (h : m.follow later = some m')
    (hc : m.token.cancelled = true) (ht : m.threads[t]? = some (.sleeper (.late d k))) (hk : k ≤ 2) :
    k + later.count (.step t) ≤ 2 ∧
      m'.threads[t]? = some (.sleeper (.late d (k + later.count (.step t)))) := by
  induction later generalizing m k with
  | nil =>
    obtain rfl := Option.some.inj h
    exact ⟨hk, ht⟩
  | cons mv later ih =>
    obtain ⟨m₁, hmv, h⟩ := Option.bind_eq_some_iff.mp h
    obtain ⟨hk₁, ht₁⟩ := move_late hmv hc ht hk
    have := ih h (move_cancelled hmv hc) ht₁ hk₁
    rw [List.count_cons, ← Nat.add_assoc, Nat.add_right_comm]
    simpa [beq_iff_eq] using this

theorem late_step_isSome {k : ℕ} (ht : m.threads[t]? = some (.sleeper (.late d k))) (hk : k < 2) :
    (m.step t).isSome = true := by
  match k with
  | 0 =>
    simp only [step, ht, Sleep.late, stepSleep]
    split <;> rfl
  | 1 =>
    simp only [step, ht]
    rfl

end

/-! ### A sleeper that gives up -/

def Began (t : ℕ) (span : Duration) (d : Instant) (past : List (Monitor × Move)) : Prop :=
  ∃ m, (m, .step t) ∈ past ∧ m.threads[t]? = some (.sleeper (.start span)) ∧ d = m.now + span.toNanos

/-- Sleeper `t` holds the mutex, has found the flag not set, and has not done anything since. -/
def Checked (t : ℕ) (d : Instant) (past : List (Monitor × Move)) : Prop :=
  ∃ earlier m later, past = earlier ++ (m, .step t) :: later ∧
    m.threads[t]? = some (.sleeper (.check d)) ∧ m.owner = some t ∧ m.token.cancelled = false ∧
    ∀ x ∈ later, x.1.threads[t]? = some (.sleeper (.measure d))

/-- After its last look at the flag sleeper `t` has found the end of its time passed, while it still
held the mutex and the flag was still not set. -/
def GaveUp (t : ℕ) (span : Duration) (past : List (Monitor × Move)) : Prop :=
  ∃ earlier m later d, past = earlier ++ (m, .step t) :: later ∧
    m.threads[t]? = some (.sleeper (.measure d)) ∧ m.owner = some t ∧ m.token.cancelled = false ∧
    Began t span d earlier ∧ Checked t d earlier ∧ d < m.now ∧
    ∀ x ∈ later, x.1.threads[t]? = some (.sleeper (.unlock false)) ∨
      x.1.threads[t]? = some (.sleeper (.done false))

/-- How far sleeper `t` has come, which was to sleep for `span`. -/
def Sleep.Timed (t : ℕ) (span : Duration) (past : List (Monitor × Move)) : Sleep → Prop
  | .start s => s = span
  | .yield => False
  | .lock d => Began t span d past
  | .check d => Began t span d past
  | .measure d => Began t span d past ∧ Checked t d past
  | .wait d _ => Began t span d past
  | .unlock answer => answer = false → GaveUp t span past
  | .done answer => answer = false → GaveUp t span past
  | .panicked => True

section
variable {m m' : Monitor} {t : ℕ} {d : Instant} {span : Duration} {past : List (Monitor × Move)}
  {mv : Move} {p : Sleep}

theorem Began.snoc (h : Began t span d past) (x : Monitor × Move) : Began t span d (past ++ [x]) := by
  obtain ⟨m, hm, h⟩ := h
  exact ⟨m, List.mem_append_left _ hm, h⟩

/-- What is known of a sleeper stays so while it does not move, and is known when it does. -/
theorem Sleep.Timed.snoc (h : p.Timed t span past) (hm : m.threads[t]? = some (.sleeper p))
    (mv : Move) : p.Timed t span (past ++ [(m, mv)]) := by
  have hgave : GaveUp t span past → m.threads[t]? = some (.sleeper (.unlock false)) ∨
      m.threads[t]? = some (.sleeper (.done false)) → GaveUp t span (past ++ [(m, mv)]) := by
    rintro ⟨earlier, m₁, later, d, rfl, h1, h2, h3, h4, h5, h6, h7⟩ hx
    exact ⟨earlier, m₁, later ++ [(m, mv)], d, by simp, h1, h2, h3, h4, h5, h6,
      List.forall_mem_append.mpr ⟨h7, List.forall_mem_singleton.mpr hx⟩⟩
  cases p with
  | lock d => exact Began.snoc h _
  | check d => exact Began.snoc h _
  | wait d notified => exact Began.snoc h _
  | measure d =>
    obtain ⟨hb, earlier, m₁, later, rfl, h1, h2, h3, h4⟩ := h
    exact ⟨hb.snoc _, earlier, m₁, later ++ [(m, mv)], by simp, h1, h2, h3,
      List.forall_mem_append.mpr ⟨h4, List.forall_mem_singleton.mpr hm⟩⟩
  | unlock answer =>
    rintro rfl
    exact hgave (h rfl) (.inl hm)
  | done answer =>
    rintro rfl
    exact hgave (h rfl) (.inr hm)
  | _ => exact h

theorem Sleep.Timed.turn {token : StopToken} {owner : Option ℕ} {th' : Thread} (hs : m.Sound)
    (hz : span.isZero = false) (h : p.Timed t span past) (hm : m.threads[t]? = some (.sleeper p))
    (ht : Turn m t (.sleeper p) token owner th') :
    ∃ p', th' = .sleeper p' ∧ p'.Timed t span (past ++ [(m, .step t)]) := by
  have hsnoc := h.snoc hm (.step t)
  cases ht with
  | goesOn hz' =>
    obtain rfl : _ = span := h
    simp [hz] at hz'
  | overflows => exact ⟨_, rfl, trivial⟩
  | begins _ hd =>
    obtain rfl : _ = span := h
    exact ⟨_, rfl, m, by simp, hm, Instant.add?_eq_some hd⟩
  | yields => cases h
  | acquires => exact ⟨_, rfl, hsnoc⟩
  | finds => exact ⟨_, rfl, nofun⟩
  | misses hc => exact ⟨_, rfl, hsnoc, past, m, [], rfl, hm, (hs.owner hm).mp rfl, hc, by simp⟩
  | elapses hd =>
    exact ⟨_, rfl, fun _ => ⟨past, m, [], _, rfl, hm, (hs.owner hm).mp rfl, hs.knows hm, h.1, h.2, hd,
      by simp⟩⟩
  | waits => exact ⟨_, rfl, hsnoc.1⟩
  | wakes => exact ⟨_, rfl, hsnoc⟩
  | returns => exact ⟨_, rfl, hsnoc⟩

theorem Sleep.Timed.move (hs : m.Sound) (hz : span.isZero = false) (h : p.Timed t span past)
    (hm : m.threads[t]? = some (.sleeper p)) (hmv : m.move mv = some m') :
    ∃ p', m'.threads[t]? = some (.sleeper p') ∧ p'.Timed t span (past ++ [(m, mv)]) := by
  cases mv with
  | tick span =>
    obtain rfl := Option.some.inj hmv
    exact ⟨p, hm, h.snoc hm _⟩
  | step u =>
    obtain ⟨th, th', hst⟩ := step_stepped hmv
    by_cases hu : u = t
    · subst u
      obtain rfl := Option.some.inj (hst.before.symm.trans hm)
      obtain ⟨p', rfl, hp'⟩ := h.turn hs hz hm hst.turn
      exact ⟨p', hst.after, hp'⟩
    · have hsnoc := h.snoc hm (.step u)
      rw [hst.others (Ne.symm hu), hm, Option.map_some]
      rcases th.rouse_cases (.sleeper p) with hr | ⟨d, notified, hw, hr⟩
      · exact ⟨p, by rw [hr], hsnoc⟩
      · obtain rfl := Thread.sleeper.inj hw
        exact ⟨.wait d true, by rw [hr], hsnoc⟩

end

/-! ### The whole -/

/-- What is known of the sleepers and cancellers that began in the state `m₀`, after the moves
`past`. -/
structure Wakes (m₀ m : Monitor) (past : List (Monitor × Move)) : Prop where
  /-- Once a cancellation has notified the sleepers, none of them waits unnotified. -/
  heard : m.token.cancelled = true → (∀ u : ℕ, m.threads[u]? ≠ some (.canceller .notify)) →
    ∀ (t : ℕ) (d : Instant), m.threads[t]? ≠ some (.sleeper (.wait d false))
  /-- A sleeper that takes the mutex after a cancellation has given it back answers that it was
  cancelled, two steps later, and does not wait. -/
  late : ∀ {t u : ℕ} {d m₁ later m₂}, m.threads[u]? = some (.canceller .done) →
    m.threads[t]? = some (.sleeper (.lock d)) → m.step t = some m₁ → m₁.follow later = some m₂ →
      m₂.threads[t]? = some (.sleeper (.late d (later.count (.step t)))) ∧
        later.count (.step t) ≤ 2 ∧ (later.count (.step t) < 2 → (m₂.step t).isSome = true)
  cancelled : ∀ {t : ℕ}, m.threads[t]? = some (.sleeper (.done true)) → m.token.cancelled = true
  elapsed : ∀ {t : ℕ} {span}, m₀.threads[t]? = some (.sleeper (.start span)) → span.isZero = false →
    m.threads[t]? = some (.sleeper (.done false)) → GaveUp t span past
  kept : ∀ {later m₂}, m.token.cancelled = true → m.follow later = some m₂ → m₂.token.cancelled = true

/-- No cancellation is missed, in any interleaving of any number of sleepers and cancellers. -/
theorem follow_wakes {m₀ m : Monitor} {moves : List Move} (hm₀ : m₀.Opening)
    (h : m₀.follow moves = some m) : m₀.Wakes m (m₀.visited moves) := by
  have hs : m.Sound := follow_invariant Sound.move moves hm₀.sound h
  refine ⟨fun hc hn t d ht => ?_, ?_, fun ht => hs.knows ht, ?_, fun hc h => ?_⟩
  · obtain ⟨u, hu⟩ := hs.heard ht hc
    exact hn u hu
  · intro t u d m₁ later m₂ hu ht hstep hlater
    have hc : m₁.token.cancelled = true :=
      move_cancelled (show m.move (.step t) = some m₁ from hstep) (hs.knows hu)
    have hcheck : m₁.threads[t]? = some (.sleeper (.late d 0)) := by
      obtain ⟨th, th', hst⟩ := step_stepped hstep
      obtain rfl := Option.some.inj (hst.before.symm.trans ht)
      have hturn := hst.turn
      generalize m₁.token = token, m₁.owner = owner at hturn
      cases hturn with
      | acquires => exact hst.after
    obtain ⟨hle, ht₂⟩ := follow_late hlater hc hcheck (Nat.zero_le 2)
    rw [Nat.zero_add] at hle ht₂
    exact ⟨ht₂, hle, late_step_isSome ht₂⟩
  · intro t span hstart hz hdone
    have hstart' : m₀.Sound ∧ ∃ p, m₀.threads[t]? = some (.sleeper p) ∧ p.Timed t span [] :=
      ⟨hm₀.sound, _, hstart, rfl⟩
    obtain ⟨-, p, hp, htimed⟩ := follow_induction
      (P := fun m past => m.Sound ∧ ∃ p, m.threads[t]? = some (.sleeper p) ∧ p.Timed t span past)
      (fun ⟨hs, p, hp, ht⟩ hmv => ⟨hs.move hmv, ht.move hs hz hp hmv⟩) moves hstart' h
    cases hp.symm.trans hdone
    exact htimed rfl
  · exact follow_invariant (P := fun m => m.token.cancelled = true) (fun hc hmv => move_cancelled hmv hc)
      _ hc h

/-- One sleeper waits when the token is cancelled, and another one comes when the cancellation is
over. -/
theorem follow_wakes_late :
    ∃ m m₁ m₂ : Monitor,
      follow ⟨.new, none, 0, #[.sleeper (.start ⟨60, 0, by decide⟩), .canceller .lock,
          .sleeper (.start ⟨60, 0, by decide⟩)]⟩
        ([.step 2] ++ List.replicate 4 (.step 0) ++ List.replicate 4 (.step 1)) = some m ∧
      m.threads[0]? = some (.sleeper (.wait 60000000000 true)) ∧
      m.step 2 = some m₁ ∧ m₁.follow [.step 2, .step 0, .step 2, .step 0] = some m₂ ∧
      m₂.threads[2]? = some (.sleeper (.done true)) ∧ m₂.owner = some 0 := by
  have hopening : Opening ⟨.new, none, 0, #[.sleeper (.start ⟨60, 0, by decide⟩), .canceller .lock,
      .sleeper (.start ⟨60, 0, by decide⟩)]⟩ := ⟨rfl, by simp [Thread.opens]⟩
  have hmoves : follow ⟨.new, none, 0, #[.sleeper (.start ⟨60, 0, by decide⟩), .canceller .lock,
      .sleeper (.start ⟨60, 0, by decide⟩)]⟩
        ([.step 2] ++ List.replicate 4 (.step 0) ++ List.replicate 4 (.step 1)) =
      some ⟨⟨true, false⟩, none, 0, #[.sleeper (.wait 60000000000 true), .canceller .done,
        .sleeper (.lock 60000000000)]⟩ := by cbv
  obtain ⟨-, hlate, -, -, -⟩ := follow_wakes hopening hmoves
  refine ⟨_, _, _, hmoves, rfl, rfl, rfl, ?_, rfl⟩
  exact (@hlate 2 1 _ _ [.step 2, .step 0, .step 2, .step 0] _ rfl rfl rfl rfl).1

end Monitor

end QueueRace
