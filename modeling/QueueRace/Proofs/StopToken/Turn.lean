import Mathlib.Data.Nat.Notation
import QueueRace.Proofs.Table
import QueueRace.StopToken.Monitor

/-! Interleavings of the threads that share a token. A move is a step of one thread, or some time
that passes. `Turn` lists what a step can be; the other threads stay as they are, but for the
sleepers that a cancellation notifies. -/

namespace QueueRace

namespace Monitor

inductive Move where
  | step (t : ℕ)
  | tick (span : ℕ)
  deriving DecidableEq

/-- Makes a move; `none` if the thread has no step, or has to wait for the mutex or the clock. -/
def move (m : Monitor) : Move → Option Monitor
  | .step t => m.step t
  | .tick span => some (m.tick span)

def follow (m : Monitor) : List Move → Option Monitor
  | [] => some m
  | mv :: moves => (m.move mv).bind fun m => m.follow moves

def visited (m : Monitor) : List Move → List (Monitor × Move)
  | [] => []
  | mv :: moves => (m, mv) :: (m.move mv).elim [] fun m => m.visited moves

/-- What holds at the start and is kept by every move holds after every interleaving, also if it
speaks of the states that it has gone through. -/
theorem follow_induction {P : Monitor → List (Monitor × Move) → Prop}
    (step : ∀ {m past mv m'}, P m past → m.move mv = some m' → P m' (past ++ [(m, mv)])) :
    ∀ (moves : List Move) {m : Monitor} {past : List (Monitor × Move)} {m' : Monitor},
      P m past → m.follow moves = some m' → P m' (past ++ m.visited moves)
  | [], m, past, m', hm, h => by
    obtain rfl := Option.some.inj h
    simpa [visited] using hm
  | mv :: moves, m, past, m', hm, h => by
    obtain ⟨m₁, hmv, h⟩ := Option.bind_eq_some_iff.mp h
    have := follow_induction step moves (step hm hmv) h
    rw [List.append_assoc, List.singleton_append] at this
    simpa only [visited, hmv, Option.elim_some] using this

theorem follow_invariant {P : Monitor → Prop}
    (step : ∀ {m mv m'}, P m → m.move mv = some m' → P m') (moves : List Move) {m m' : Monitor}
    (hm : P m) (h : m.follow moves = some m') : P m' :=
  @follow_induction (fun m _ => P m) step moves m [] m' hm h

theorem step_of_isReady {m : Monitor} {t : ℕ} (h : m.isReady t = true) :
    ∃ m', m.step t = some m' := by
  simp only [isReady] at h
  split at h
  · cases h
  · exact Option.isSome_iff_exists.mp (Bool.and_eq_true_iff.mp h).2

/-- The run in which nobody wakes without a reason is one of the interleavings. -/
theorem runFor_follow (n : ℕ) (m : Monitor) : ∃ moves, m.follow moves = some (m.runFor n) := by
  induction n generalizing m with
  | zero => exact ⟨[], rfl⟩
  | succ n ih =>
    simp only [runFor]
    split
    · rename_i t ht
      obtain ⟨m', hm'⟩ := step_of_isReady (List.find?_some ht)
      obtain ⟨moves, h⟩ := ih m'
      refine ⟨.step t :: moves, ?_⟩
      simp only [follow, move, hm', Option.bind_some, Option.getD_some, h]
    · split
      · rename_i time _
        obtain ⟨moves, h⟩ := ih { m with now := max m.now time }
        refine ⟨.tick (max m.now time - m.now) :: moves, ?_⟩
        have htick : m.tick (max m.now time - m.now) = { m with now := max m.now time } := by
          rw [tick, Nat.add_sub_of_le (Nat.le_max_left m.now time)]
        simp only [follow, move, htick, Option.bind_some, h]
      · exact ⟨[], rfl⟩

/-! ### One step -/

/-- What a step of a thread does to another thread. -/
def Thread.rouse : Thread → Thread → Thread
  | .canceller .notify, other => other.notify
  | _, other => other

def Thread.inside : Thread → Bool
  | .sleeper (.check _) => true
  | .sleeper (.measure _) => true
  | .sleeper (.unlock _) => true
  | .canceller .store => true
  | .canceller .notify => true
  | .canceller .unlock => true
  | .poisoner .fail => true
  | _ => false

/-- Thread `t` steps in the state `m`, and leaves the token, the mutex and itself as given. -/
inductive Turn (m : Monitor) (t : ℕ) : Thread → StopToken → Option ℕ → Thread → Prop
  | goesOn {span : Duration} (h : span.isZero = true) :
    Turn m t (.sleeper (.start span)) m.token m.owner (.sleeper .yield)
  | overflows {span : Duration} (h : span.isZero = false) (hd : Instant.add? m.now span = none) :
    Turn m t (.sleeper (.start span)) m.token m.owner (.sleeper .panicked)
  | begins {span : Duration} {d : Instant} (h : span.isZero = false)
    (hd : Instant.add? m.now span = some d) :
    Turn m t (.sleeper (.start span)) m.token m.owner (.sleeper (.lock d))
  | yields : Turn m t (.sleeper .yield) m.token m.owner (.sleeper (.done m.token.cancelled))
  | acquires {d : Instant} (h : m.owner = none) :
    Turn m t (.sleeper (.lock d)) m.token (some t) (.sleeper (.check d))
  | finds {d : Instant} (h : m.token.cancelled = true) :
    Turn m t (.sleeper (.check d)) m.token m.owner (.sleeper (.unlock true))
  | misses {d : Instant} (h : m.token.cancelled = false) :
    Turn m t (.sleeper (.check d)) m.token m.owner (.sleeper (.measure d))
  | elapses {d : Instant} (h : d < m.now) :
    Turn m t (.sleeper (.measure d)) m.token m.owner (.sleeper (.unlock false))
  | waits {d : Instant} (h : ¬ d < m.now) :
    Turn m t (.sleeper (.measure d)) m.token none (.sleeper (.wait d false))
  | wakes (d : Instant) (notified : Bool) :
    Turn m t (.sleeper (.wait d notified)) m.token m.owner (.sleeper (.lock d))
  | returns (answer : Bool) :
    Turn m t (.sleeper (.unlock answer)) m.token none (.sleeper (.done answer))
  | falls {time : Instant} (h : time ≤ m.now) :
    Turn m t (.canceller (.await time)) m.token m.owner (.canceller .lock)
  | cancels (h : m.owner = none) : Turn m t (.canceller .lock) m.token (some t) (.canceller .store)
  | stores :
    Turn m t (.canceller .store) { m.token with cancelled := true } m.owner (.canceller .notify)
  | notifies : Turn m t (.canceller .notify) m.token m.owner (.canceller .unlock)
  | leaves : Turn m t (.canceller .unlock) m.token none (.canceller .done)
  | seizes (h : m.owner = none) : Turn m t (.poisoner .lock) m.token (some t) (.poisoner .fail)
  | poisons : Turn m t (.poisoner .fail) { m.token with poisoned := true } none (.poisoner .done)

/-- Thread `t` was `th` and has become `th'` by a step. -/
structure Stepped (m : Monitor) (t : ℕ) (th th' : Thread) (m' : Monitor) : Prop where
  before : m.threads[t]? = some th
  turn : Turn m t th m'.token m'.owner th'
  now_eq : m'.now = m.now
  after : m'.threads[t]? = some th'
  others : ∀ {u}, u ≠ t → m'.threads[u]? = m.threads[u]?.map th.rouse

variable {m m' : Monitor} {t u : ℕ} {th th' : Thread}

/-- A thread after the step is the one that has made it, or another one as it was before, but for a
notification. -/
theorem Stepped.cases (hs : m.Stepped t th th' m') {x : Thread} (hx : m'.threads[u]? = some x) :
    u = t ∧ x = th' ∨ u ≠ t ∧ ∃ o, m.threads[u]? = some o ∧ x = th.rouse o := by
  by_cases hu : u = t
  · subst u
    exact .inl ⟨rfl, Option.some.inj (hx.symm.trans hs.after)⟩
  · rw [hs.others hu] at hx
    obtain ⟨o, ho, hx⟩ := Option.map_eq_some_iff.mp hx
    exact .inr ⟨hu, o, ho, hx.symm⟩

/-- A step that changes no threads but its own. -/
theorem Stepped.of_put (hth : m.threads[t]? = some th) (hr : th.rouse = id)
    (ht : Turn m t th m'.token m'.owner th') (hn : m'.now = m.now)
    (hs : m'.threads = m.threads.setIfInBounds t th') : m.Stepped t th th' m' where
  before := hth
  turn := ht
  now_eq := hn
  after := by rw [hs, getElem?_set hth, if_pos rfl]
  others hu := by rw [hs, getElem?_set hth, if_neg (Ne.symm hu), hr, Option.map_id, id]

theorem acquire_eq_some (h : m.acquire t th = some m') :
    m.owner = none ∧ m' = { m.put t th with owner := some t } := by
  simp only [acquire] at h
  split at h
  · exact ⟨‹_›, (Option.some.inj h).symm⟩
  · cases h

theorem stepped_sleeper {p : Sleep} (hth : m.threads[t]? = some (.sleeper p))
    (h : m.stepSleep t p = some m') : ∃ th', m.Stepped t (.sleeper p) th' m' := by
  cases p with
  | start span =>
    simp only [stepSleep] at h
    split at h
    · obtain rfl := Option.some.inj h
      exact ⟨_, .of_put hth rfl (.goesOn ‹_›) rfl rfl⟩
    · rename_i hz
      split at h
      · obtain rfl := Option.some.inj h
        exact ⟨_, .of_put hth rfl (.overflows (Bool.eq_false_iff.mpr hz) ‹_›) rfl rfl⟩
      · obtain rfl := Option.some.inj h
        exact ⟨_, .of_put hth rfl (.begins (Bool.eq_false_iff.mpr hz) ‹_›) rfl rfl⟩
  | yield =>
    obtain rfl := Option.some.inj h
    exact ⟨_, .of_put hth rfl .yields rfl rfl⟩
  | lock d =>
    obtain ⟨ho, rfl⟩ := acquire_eq_some h
    exact ⟨_, .of_put hth rfl (.acquires ho) rfl rfl⟩
  | check d =>
    simp only [stepSleep] at h
    split at h <;> obtain rfl := Option.some.inj h
    · exact ⟨_, .of_put hth rfl (.finds ‹_›) rfl rfl⟩
    · exact ⟨_, .of_put hth rfl (.misses (Bool.eq_false_iff.mpr ‹_›)) rfl rfl⟩
  | measure d =>
    simp only [stepSleep] at h
    split at h <;> obtain rfl := Option.some.inj h
    · exact ⟨_, .of_put hth rfl (.elapses ‹_›) rfl rfl⟩
    · exact ⟨_, .of_put hth rfl (.waits ‹_›) rfl rfl⟩
  | wait d notified =>
    obtain rfl := Option.some.inj h
    exact ⟨_, .of_put hth rfl (.wakes d notified) rfl rfl⟩
  | unlock answer =>
    obtain rfl := Option.some.inj h
    exact ⟨_, .of_put hth rfl (.returns answer) rfl rfl⟩
  | done answer => cases h
  | panicked => cases h

theorem stepped_canceller {p : Cancel} (hth : m.threads[t]? = some (.canceller p))
    (h : m.stepCancel t p = some m') : ∃ th', m.Stepped t (.canceller p) th' m' := by
  cases p with
  | await time =>
    simp only [stepCancel] at h
    split at h
    · obtain rfl := Option.some.inj h
      exact ⟨_, .of_put hth rfl (.falls ‹_›) rfl rfl⟩
    · cases h
  | lock =>
    obtain ⟨ho, rfl⟩ := acquire_eq_some h
    exact ⟨_, .of_put hth rfl (.cancels ho) rfl rfl⟩
  | store =>
    obtain rfl := Option.some.inj h
    exact ⟨_, .of_put hth rfl .stores rfl rfl⟩
  | notify =>
    obtain rfl := Option.some.inj h
    have hmap : (m.threads.map Thread.notify)[t]? = some (.canceller .notify) := by
      rw [Array.getElem?_map, hth]
      rfl
    refine ⟨.canceller .unlock, hth, .notifies, rfl, ?_, fun {u} hu => ?_⟩
    · simp only [put, getElem?_set hmap, if_true]
    · simp only [put, getElem?_set hmap, if_neg (Ne.symm hu), Array.getElem?_map]
      rfl
  | unlock =>
    obtain rfl := Option.some.inj h
    exact ⟨_, .of_put hth rfl .leaves rfl rfl⟩
  | done => cases h

theorem stepped_poisoner {p : Poison} (hth : m.threads[t]? = some (.poisoner p))
    (h : m.stepPoison t p = some m') : ∃ th', m.Stepped t (.poisoner p) th' m' := by
  cases p with
  | lock =>
    obtain ⟨ho, rfl⟩ := acquire_eq_some h
    exact ⟨_, .of_put hth rfl (.seizes ho) rfl rfl⟩
  | fail =>
    obtain rfl := Option.some.inj h
    exact ⟨_, .of_put hth rfl .poisons rfl rfl⟩
  | done => cases h

/-- Every step is a turn of its thread. -/
theorem step_stepped (h : m.step t = some m') : ∃ th th', m.Stepped t th th' m' := by
  simp only [step] at h
  split at h
  · cases h
  · exact ⟨_, stepped_sleeper ‹_› h⟩
  · exact ⟨_, stepped_canceller ‹_› h⟩
  · exact ⟨_, stepped_poisoner ‹_› h⟩

end Monitor

end QueueRace
