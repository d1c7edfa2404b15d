import QueueRace.Proofs.Race.Termination
import QueueRace.Proofs.Race.Token

/-! Runs in which a thread cannot be created. The caller lets the threads that are there come to
their ends, and returns the error. -/

namespace QueueRace

namespace Setup

variable {s : Setup} {k : ℕ} {who : Who}

/-! ### The order of creation -/

def watchers (s : Setup) : List Who := if s.timeout.isSome then [.watchdog] else []

/-- The threads of a run in the order in which they are created. -/
def threads (s : Setup) : List Who :=
  s.watchers ++ ((List.range s.config.consumers.val).map .consumer ++
    (List.range s.config.producers.val).map .producer)

theorem length_threads (s : Setup) : s.threads.length =
    s.watchers.length + s.config.consumers.val + s.config.producers.val := by
  simp only [threads, List.length_append, List.length_map, List.length_range, Nat.add_assoc]

theorem threads_consumer {i : ℕ} (hi : i < s.config.consumers.val) :
    s.threads[s.watchers.length + i]? = some (.consumer i) := by
  rw [threads, List.getElem?_append_right (Nat.le_add_right _ _), Nat.add_sub_cancel_left,
    List.getElem?_append_left (by simpa using hi), List.getElem?_map, List.getElem?_range hi]
  rfl

theorem threads_producer {i : ℕ} (hi : i < s.config.producers.val) :
    s.threads[s.watchers.length + s.config.consumers.val + i]? = some (.producer i) := by
  rw [threads, Nat.add_assoc, List.getElem?_append_right (Nat.le_add_right _ _),
    Nat.add_sub_cancel_left, List.getElem?_append_right (by simp), List.length_map,
    List.length_range, Nat.add_sub_cancel_left, List.getElem?_map, List.getElem?_range hi]
  rfl

theorem watchers_eq (h : s.timeout.isSome) : s.watchers = [.watchdog] := if_pos h

theorem threads_watchdog (h : s.timeout.isSome) : s.threads[0]? = some .watchdog := by
  rw [threads, watchers_eq h]
  rfl

theorem lt_of_threads_watchdog (h : s.threads[k]? = some .watchdog) :
    s.timeout.isSome ∧ k < s.watchers.length := by
  by_cases hk : k < s.watchers.length
  · by_cases ht : s.timeout.isSome
    · exact ⟨ht, hk⟩
    · rw [watchers, if_neg ht] at hk
      exact absurd hk (Nat.not_lt_zero k)
  · rw [threads, List.getElem?_append_right (Nat.not_lt.mp hk)] at h
    have hmem := List.mem_of_getElem? h
    simp at hmem

end Setup

namespace Race

variable {s : Setup} {failure : SpawnFailure} {who : Who} {r r' : Race} {l : Label} {c c' : Caller}

/-! ### On the way to the failure and after it -/

/-- Nobody has been created, and nobody has said anything. -/
structure Untouched (r : Race) : Prop where
  watchdog : r.watchdog = none
  consumers : r.consumers.size = 0
  producers : r.producers.size = 0
  log : r.arena.log = #[]

theorem Untouched.no_consumer (h : r.Untouched) {i : ℕ} : r.consumers[i]? = none :=
  Array.getElem?_eq_none (h.consumers ▸ Nat.zero_le i)

theorem Untouched.no_producer (h : r.Untouched) {i : ℕ} : r.producers[i]? = none :=
  Array.getElem?_eq_none (h.producers ▸ Nat.zero_le i)

/-- The threads that were created when the creation of `who` failed. -/
def Crew (s : Setup) (r : Race) : Who → Prop
  | .main => False
  | .watchdog => r.Untouched
  | .consumer i => r.consumers.size = i ∧ r.producers.size = 0
  | .producer i => r.consumers.size = s.config.consumers.val ∧ r.producers.size = i

/-- The caller is about to create the thread of the number `place`. -/
structure Rises (failure : SpawnFailure) (who : Who) (r : Race) (place : ℕ) : Prop where
  running : who ≠ .watchdog
  created : r.created = place
  le : place ≤ failure.place

/-- The caller knows its outcome, after it could not create `who`. -/
structure Gives (s : Setup) (cause : String) (who : Who) (r : Race) (o : Outcome) : Prop where
  outcome : o = .error (.notSpawned who cause)
  crew : r.Crew s who
  cancelled : ∀ i, who = .producer i → r.arena.stop.cancelled

/-- Where the caller stands in a run in which the creation of `who` fails. -/
def Falls (s : Setup) (failure : SpawnFailure) (who : Who) (r : Race) : Caller → Prop
  | .spawnWatchdog => r.created = 0 ∧ r.Untouched
  | .announce => r.Rises failure who s.watchers.length
  | .spawnConsumer i => r.Rises failure who (s.watchers.length + i)
  | .reserve => r.Rises failure who (s.watchers.length + s.config.consumers.val)
  | .spawnProducer i => r.Rises failure who (s.watchers.length + s.config.consumers.val + i)
  | .disarm e => e = .notSpawned who failure.cause ∧ (∃ i, who = .consumer i) ∧ r.Crew s who
  | .cancelRest _ e => e = .notSpawned who failure.cause ∧ (∃ i, who = .producer i) ∧ r.Crew s who
  | .uncountRest _ e => (∃ i, who = .producer i) ∧ r.Gives s failure.cause who (.error e)
  | .joinProducers _ | .joinConsumers _ _ | .summarize _ => False
  | .close _ _ o | .dismiss o | .joinWatchdog o => who ≠ .watchdog ∧ r.Gives s failure.cause who o
  | .ended o => r.Gives s failure.cause who o

theorem Crew.mono (h : r.Crew s who) (hc : r'.consumers.size = r.consumers.size)
    (hp : r'.producers.size = r.producers.size) (hu : r.Untouched → r'.Untouched) :
    r'.Crew s who := by
  cases who with
  | main => exact h
  | watchdog => exact hu h
  | consumer i => exact ⟨hc.trans h.1, hp.trans h.2⟩
  | producer i => exact ⟨hc.trans h.1, hp.trans h.2⟩

theorem Falls.mono (h : Falls s failure who r c) (hcreated : r'.created = r.created)
    (hc : r'.consumers.size = r.consumers.size) (hp : r'.producers.size = r.producers.size)
    (hu : r.Untouched → r'.Untouched)
    (hs : r.arena.stop.cancelled → r'.arena.stop.cancelled) : Falls s failure who r' c := by
  have hrises : ∀ {place}, r.Rises failure who place → r'.Rises failure who place :=
    fun h => ⟨h.running, hcreated.trans h.created, h.le⟩
  have hgives : ∀ {o}, r.Gives s failure.cause who o → r'.Gives s failure.cause who o :=
    fun h => ⟨h.outcome, h.crew.mono hc hp hu, fun i hi => hs (h.cancelled i hi)⟩
  cases c with
  | spawnWatchdog => exact ⟨hcreated.trans h.1, hu h.2⟩
  | announce => exact hrises h
  | spawnConsumer i => exact hrises h
  | reserve => exact hrises h
  | spawnProducer i => exact hrises h
  | disarm e => exact ⟨h.1, h.2.1, h.2.2.mono hc hp hu⟩
  | cancelRest i e => exact ⟨h.1, h.2.1, h.2.2.mono hc hp hu⟩
  | uncountRest i e => exact ⟨h.1, hgives h.2⟩
  | joinProducers produced => exact h
  | joinConsumers produced consumed => exact h
  | summarize report => exact h
  | close i j o => exact ⟨h.1, hgives h.2⟩
  | dismiss o => exact ⟨h.1, hgives h.2⟩
  | joinWatchdog o => exact ⟨h.1, hgives h.2⟩
  | ended o => exact hgives h

theorem refusal?_of_place (hk : s.spawnFailure = some failure)
    (hplace : failure.place = r.created) : r.refusal? s = some failure.cause :=
  refusal?_eq_some_iff.mpr (hplace ▸ hk)

theorem Rises.next {place : ℕ} (h : r.Rises failure who place) (hk : s.spawnFailure = some failure)
    (hf : r.refusal? s = none) (hr : r'.created = r.created + 1) :
    r'.Rises failure who (place + 1) where
  running := h.running
  created := hr.trans (congrArg (· + 1) h.created)
  le := by
    refine Nat.lt_of_le_of_ne h.le fun hplace => ?_
    rw [refusal?_of_place hk (hplace.symm.trans h.created.symm)] at hf
    cases hf

/-- The thread whose creation fails is the one of that number, and the cause is told. -/
theorem eq_of_refusal? {place : ℕ} {who' : Who} {cause : String}
    (hk : s.spawnFailure = some failure) (hwho : s.threads[failure.place]? = some who)
    (hf : r.refusal? s = some cause) (hr : r.created = place)
    (hplace : s.threads[place]? = some who') : who' = who ∧ cause = failure.cause := by
  have hsome := refusal?_eq_some_iff.mp hf
  rw [hk, hr] at hsome
  obtain rfl := Option.some.inj hsome
  exact ⟨Option.some.inj (hplace.symm.trans hwho), rfl⟩

theorem Passes.falls (h : Passes s r c c') (hk : s.spawnFailure = some failure)
    (hwho : s.threads[failure.place]? = some who) (hcap : s.config.producers.val ≤ maxProducers)
    (hh : c.Hired s.config.consumers.val s.config.producers.val r.consumers.size r.producers.size)
    (hw : c.Watched s.timeout r.watchdog) (hcalm : r.Calm) (hf : Falls s failure who r c) :
    Falls s failure who r c' := by
  cases h with
  | unwatched hfails =>
    obtain ⟨rfl, rfl⟩ := eq_of_refusal? hk hwho hfails hf.1 (Setup.threads_watchdog hw.1)
    exact ⟨rfl, hf.2, nofun⟩
  | noConsumer hi hfails =>
    obtain ⟨rfl, rfl⟩ := eq_of_refusal? hk hwho hfails hf.created (Setup.threads_consumer hi)
    exact ⟨rfl, ⟨_, rfl⟩, hh.1, hh.2.2⟩
  | @consumersReady i hi =>
    have hlast : i = s.config.consumers.val := Nat.le_antisymm hh.2.1 (Nat.not_lt.mp hi)
    rw [hlast] at hf
    exact hf
  | reserved => exact hf
  | tooMany hn => exact absurd hcap hn
  | noProducer hi hfails =>
    obtain ⟨rfl, rfl⟩ := eq_of_refusal? hk hwho hfails hf.created (Setup.threads_producer hi)
    exact ⟨rfl, ⟨_, rfl⟩, hh.1, hh.2.1⟩
  | producersReady hi =>
    -- all threads have been created, so none can be the one that fails
    have hlt := (List.getElem?_eq_some_iff.mp hwho).1
    have hle := hf.le
    rw [Setup.length_threads] at hlt
    exact absurd hlt (by omega)
  | closed => exact hf
  | unjoinedPanicked hg ho hp =>
    rw [hcalm.not_anyPanicked] at hp
    cases hp
  | unwatchedEnd => exact hf.2
  | untold => cases hf.2.outcome
  | watchdogJoined => exact hf.2
  | watchdogPanicked ho hpanicked => exact absurd hpanicked hcalm.watchdog
  | _ => exact False.elim hf

theorem Turn.falls (ht : Turn s r l r') (hk : s.spawnFailure = some failure)
    (hwho : s.threads[failure.place]? = some who) (hcap : s.config.producers.val ≤ maxProducers)
    {initial : List Item} (ho : r.Orderly s initial) (hcalm : r.Calm)
    (hf : Falls s failure who r r.caller) : Falls s failure who r' r'.caller := by
  have hhired := ho.counted.hired
  cases ht with
  | stay => exact hf
  | tick span => exact hf.mono rfl rfl rfl (fun hu => ⟨hu.1, hu.2, hu.3, hu.4⟩) id
  | cancel => exact hf.mono rfl rfl rfl (fun hu => ⟨hu.1, hu.2, hu.3, hu.4⟩) fun _ => rfl
  | watch hv hw log => exact hf.mono rfl rfl rfl (fun hu => nomatch hu.1.symm.trans hv) id
  | expire hv => exact hf.mono rfl rfl rfl (fun hu => nomatch hu.1.symm.trans hv) fun _ => rfl
  | pass hp log hlog =>
    have hsame : log = r.arena.log := by
      refine hlog fun report hc => ?_
      rw [hc] at hf
      exact hf
    subst hsame
    exact (hp.falls hk hwho hcap hhired ho.watched hcalm hf).mono rfl rfl rfl
      (fun hu => ⟨hu.1, hu.2, hu.3, hu.4⟩) id
  | hireWatchdog hc hfails =>
    have hw := ho.watched
    rw [hc] at hf hw
    have hlead : s.watchers.length = 1 := congrArg List.length (Setup.watchers_eq hw.1)
    have hpos : failure.place ≠ 0 := by
      intro hzero
      rw [refusal?_of_place hk (hzero.trans hf.1.symm)] at hfails
      cases hfails
    refine ⟨fun hwatchdog => hpos ?_, ?_, ?_⟩
    · subst hwatchdog
      exact Nat.lt_one_iff.mp (hlead ▸ (Setup.lt_of_threads_watchdog hwho).2)
    · rw [hlead, hf.1]
    · rw [hlead]
      exact Nat.one_le_iff_ne_zero.mpr hpos
  | announce hc log =>
    rw [hc] at hf
    exact ⟨hf.running, hf.created, hf.le⟩
  | hireConsumer hc hi hfails =>
    rw [hc] at hf
    exact hf.next hk hfails rfl
  | disarm hc =>
    rw [hc] at hf
    obtain ⟨rfl, ⟨i, rfl⟩, hcrew⟩ := hf
    exact ⟨nofun, rfl, hcrew, nofun⟩
  | hireProducer hc hi hfails =>
    rw [hc] at hf
    exact hf.next hk hfails rfl
  | cancelRest hc =>
    rw [hc] at hf
    obtain ⟨rfl, ⟨i, rfl⟩, hcrew⟩ := hf
    exact ⟨⟨i, rfl⟩, rfl, hcrew, fun _ _ => rfl⟩
  | uncountRest hc =>
    rw [hc] at hf
    obtain ⟨⟨i, rfl⟩, houtcome, hcrew, hcancelled⟩ := hf
    exact ⟨nofun, houtcome, hcrew, hcancelled⟩
  | tell hc ht ho =>
    rw [hc] at hf
    obtain ⟨hne, hgives⟩ := hf
    refine ⟨hne, hgives.outcome, ?_, hgives.cancelled⟩
    exact hgives.crew.mono rfl rfl fun hu => ⟨hu.1, hu.2, hu.3, hu.4⟩
  | @consumer i c hc word =>
    have hstop := (Consumer.advance_outcome ho.queue s.config i word c).stop
    exact hf.mono rfl (Array.size_setIfInBounds ..) rfl
      (fun hu => nomatch hu.no_consumer.symm.trans hc)
      fun h => (congrArg (·.cancelled) hstop).trans h
  | @producer i p hp hne word =>
    have hstop := (Producer.step_outcome ho.queue s.config i word p).stop
    exact hf.mono rfl rfl (Array.size_setIfInBounds ..)
      (fun hu => nomatch hu.no_producer.symm.trans hp)
      fun h => (congrArg (·.cancelled) hstop).trans h
  | @retire i exit hp word =>
    exact hf.mono rfl rfl (Array.size_setIfInBounds ..)
      (fun hu => nomatch hu.no_producer.symm.trans hp) id

theorem start_falls (hwho : s.threads[failure.place]? = some who) (queue : Chain Item)
    (stop : StopToken) :
    Falls s failure who (start s queue stop) (start s queue stop).caller := by
  simp only [start]
  split
  · exact ⟨rfl, rfl, rfl, rfl, rfl⟩
  · rename_i ht
    refine ⟨fun hwatchdog => ?_, ?_, ?_⟩
    · subst hwatchdog
      exact ht (Setup.lt_of_threads_watchdog hwho).1
    · rw [Setup.watchers, if_neg ht]
      rfl
    · rw [Setup.watchers, if_neg ht]
      exact Nat.zero_le _

theorem run_falls (hk : s.spawnFailure = some failure) (hwho : s.threads[failure.place]? = some who)
    (hcap : s.config.producers.val ≤ maxProducers) {queue : Chain Item} (hq : queue.Sound)
    (stop : StopToken) (schedule : List Label)
    (hs : s.Fits ((start s queue stop).run s schedule).arena.now) :
    Falls s failure who ((start s queue stop).run s schedule)
      ((start s queue stop).run s schedule).caller := by
  refine (run_induction (P := fun r => r.Orderly s queue.toList ∧
      (s.Fits r.arena.now → r.Calm ∧ Falls s failure who r r.caller))
    (fun ⟨ho, hinv⟩ ht => ⟨ho.turn ht, fun hs => ?_⟩)
    ⟨start_orderly s hq stop, fun _ => ⟨start_calm s queue stop, start_falls hwho queue stop⟩⟩
    schedule).2 hs |>.2
  have hs := hs.mono (ht.now_le ho.queue)
  obtain ⟨hcalm, hf⟩ := hinv hs
  exact ⟨ht.calm hs hcalm, ht.falls hk hwho hcap ho hcalm hf⟩

theorem run_falls_of_prefix (hk : s.spawnFailure = some failure)
    (hwho : s.threads[failure.place]? = some who)
    (hcap : s.config.producers.val ≤ maxProducers) {queue : Chain Item} (hq : queue.Sound)
    (stop : StopToken) {earlier schedule : List Label}
    (hs : s.Fits ((start s queue stop).run s schedule).arena.now)
    (hearlier : earlier <+: schedule) :
    Falls s failure who ((start s queue stop).run s earlier)
      ((start s queue stop).run s earlier).caller := by
  obtain ⟨later, rfl⟩ := hearlier
  rw [run_append] at hs
  exact run_falls hk hwho hcap hq stop earlier
    (hs.mono (run_now_le (run_sound s hq stop earlier) later))

/-- As long as the watchdog's time does not run out, the caller is the only one in the run who
cancels the token, and it does so for a producer. -/
theorem cancelled_iff (hk : s.spawnFailure = some failure)
    (hwho : s.threads[failure.place]? = some who)
    (hcap : s.config.producers.val ≤ maxProducers) {queue : Chain Item} (hq : queue.Sound)
    (stop : StopToken) (schedule : List Label)
    (hs : s.Fits ((start s queue stop).run s schedule).arena.now)
    (hproducer : ∀ i, who = .producer i →
      ((start s queue stop).run s schedule).arena.stop.cancelled)
    (hnot : ¬ Elapses s (start s queue stop) schedule) :
    ((start s queue stop).run s schedule).arena.stop.cancelled ↔
      stop.cancelled ∨ .cancel ∈ schedule ∨ ∃ i, who = .producer i := by
  refine ⟨fun hc => ?_, fun h => ?_⟩
  · rcases run_cancelled_cases hq stop hc with h | h | h | ⟨earlier, hearlier, i, e, hcaller⟩
    · exact .inl h
    · exact .inr (.inl h)
    · exact absurd h hnot
    · have hf := run_falls_of_prefix hk hwho hcap hq stop hs hearlier
      rw [hcaller] at hf
      exact .inr (.inr hf.2.1)
  · rcases h with h | h | ⟨i, hi⟩
    · exact run_keeps_cancelled (start_sound s hq stop) h schedule
    · exact run_cancelled_of_mem hq stop h
    · exact hproducer i hi

/-! ### What is left behind -/

theorem Turn.unserved (ht : Turn s r l r') {queue : Chain Item}
    (h : r.consumers.size = 0 → r.producers.size = 0 → r.arena.queue = queue)
    (hc : r'.consumers.size = 0) (hp : r'.producers.size = 0) : r'.arena.queue = queue := by
  cases ht with
  | hireConsumer =>
    rw [Array.size_push] at hc
    cases hc
  | hireProducer =>
    rw [Array.size_push] at hp
    cases hp
  | consumer hi word =>
    rw [Array.size_setIfInBounds] at hc
    exact absurd (Array.getElem?_eq_some_iff.mp hi).1 (hc ▸ Nat.not_lt_zero _)
  | producer hi hne word =>
    rw [Array.size_setIfInBounds] at hp
    exact absurd (Array.getElem?_eq_some_iff.mp hi).1 (hp ▸ Nat.not_lt_zero _)
  | retire hi word =>
    rw [Array.size_setIfInBounds] at hp
    exact absurd (Array.getElem?_eq_some_iff.mp hi).1 (hp ▸ Nat.not_lt_zero _)
  | _ => exact h hc hp

theorem run_unserved (s : Setup) (queue : Chain Item) (stop : StopToken) (schedule : List Label)
    (hc : ((start s queue stop).run s schedule).consumers.size = 0)
    (hp : ((start s queue stop).run s schedule).producers.size = 0) :
    ((start s queue stop).run s schedule).arena.queue = queue :=
  run_induction (P := fun r => r.consumers.size = 0 → r.producers.size = 0 → r.arena.queue = queue)
    (fun h ht => ht.unserved h) (fun _ _ => rfl) schedule hc hp

theorem Falls.untouched (h : Falls s failure .watchdog r c) : r.Untouched := by
  cases c with
  | spawnWatchdog => exact h.2
  | announce => exact absurd rfl h.running
  | spawnConsumer i => exact absurd rfl h.running
  | reserve => exact absurd rfl h.running
  | spawnProducer i => exact absurd rfl h.running
  | disarm e => exact h.2.2
  | cancelRest i e => exact h.2.2
  | uncountRest i e => exact h.2.crew
  | joinProducers produced => exact h.elim
  | joinConsumers produced consumed => exact h.elim
  | summarize report => exact h.elim
  | close i j o => exact h.2.crew
  | dismiss o => exact h.2.crew
  | joinWatchdog o => exact h.2.crew
  | ended o => exact h.crew

/-- Where a consumer has been created and nobody has panicked, a run that is over has counted out
all producers and emptied the queue. -/
theorem Settled.over (h : r.Settled) (hg : r.allGone) (hcalm : r.Calm)
    (hpos : 0 < r.consumers.size) : r.arena.live = 0 ∧ r.arena.queue.toList = [] := by
  have hc := Array.getElem?_eq_getElem hpos
  obtain ⟨exit, he⟩ := (allGone_iff.mp hg).2 0 _ hc
  have hs := h hc
  have hne := hcalm.consumers 0 _ hc
  generalize r.consumers[0] = c at he hs hne
  obtain ⟨phase, items⟩ := c
  cases phase with
  | ended => exact hs
  | panicked => exact absurd rfl hne
  | _ => cases he

theorem Settled.drained (h : r.Settled) (hg : r.allGone) (hcalm : r.Calm)
    (hpos : 0 < r.consumers.size) : r.arena.queue.toList = [] :=
  (h.over hg hcalm hpos).2

/-- What a run leaves behind that returns `o` because `who` could not be created for this cause. -/
structure GaveUp (s : Setup) (queue : Chain Item) (stop : StopToken) (schedule : List Label)
    (who : Who) (cause : String) (r : Race) (o : Outcome) : Prop where
  error : ∃ e, o = .error e ∧ e.message = "failed to spawn " ++ who.name ∧ e.causes = [cause]
  workers : r.allGone
  watchdog : ∀ w, r.watchdog = some w → w.Over
  live : r.arena.live = 0
  /-- Without its watchdog the run is not even announced. -/
  unstarted : who = .watchdog → r.Untouched ∧ r.arena.queue = queue ∧
    (r.arena.stop.cancelled ↔ stop.cancelled ∨ .cancel ∈ schedule)
  kept : who = .consumer 0 → r.arena.queue = queue
  drained : ((∃ i, who = .consumer (i + 1)) ∨ ∃ i, who = .producer i) → r.arena.queue.toList = []
  /-- Every item that was ever in the queue and is not there any more has been received. -/
  traced : ∃ made line, r.Traced queue.toList made line
  cancelled : ¬ Elapses s (start s queue stop) schedule →
    (r.arena.stop.cancelled ↔ stop.cancelled ∨ .cancel ∈ schedule ∨ ∃ i, who = .producer i)
  poisoned : r.arena.stop.poisoned = stop.poisoned

/-- A run in which one creation fails, that of the thread `who`, returns its error whatever the
schedule is, and by then everybody who was created has ended. The count of producers never goes
above the number of producers and ends at zero. If the watchdog fails, or the first consumer, the
queue holds what it held; after a later failure it is empty. The caller cancels the token if and
only if a producer fails. And no such run hangs: under every fair schedule it comes to its end. -/
theorem run_gives_up (hk : s.spawnFailure = some failure)
    (hwho : s.threads[failure.place]? = some who)
    (hcap : s.config.producers.val ≤ maxProducers) {queue : Chain Item} (hq : queue.Sound)
    (stop : StopToken) :
    (∀ schedule, ((start s queue stop).run s schedule).arena.live.toNat ≤ s.config.producers.val ∧
      (s.Fits ((start s queue stop).run s schedule).arena.now →
        ∀ o, ((start s queue stop).run s schedule).outcome? = some o →
          GaveUp s queue stop schedule who failure.cause
            ((start s queue stop).run s schedule) o)) ∧
      ∀ σ, Fair s (start s queue stop) σ → ∃ n, ((start s queue stop).after s σ n).outcome?.isSome := by
  refine ⟨fun schedule => ⟨(run_orderly s hq stop schedule).counted.live_le, fun hs o ho => ?_⟩,
    fun σ hfair => hfair.ends hq hcap⟩
  have horderly := run_orderly s hq stop schedule
  have hcalm := run_calm s hq stop schedule hs
  have hend := caller_of_outcome? ho
  have hgives := run_falls hk hwho hcap hq stop schedule hs
  have hcleared := horderly.cleared
  have hwatched := horderly.watched
  rw [hend] at hgives hcleared hwatched
  have hgone : ((start s queue stop).run s schedule).allGone := hcleared
  obtain ⟨rfl, hcrew, hcancelled⟩ : Gives s failure.cause who _ o := hgives
  have htoken := cancelled_iff hk hwho hcap hq stop schedule hs hcancelled
  refine
    { error := ⟨_, rfl, rfl, rfl⟩
      workers := hgone
      watchdog := hwatched
      live := ?live
      unstarted := ?unstarted
      kept := ?kept
      drained := ?drained
      traced := horderly.traced
      cancelled := htoken
      poisoned := run_poisoned (start_sound s hq stop) schedule }
  case live =>
    refine horderly.counted.live_eq_zero (hend ▸ rfl) fun i p hp => ?_
    obtain ⟨exit, he⟩ := (allGone_iff.mp hgone).1 i _ hp
    cases he
  case unstarted =>
    rintro rfl
    have hnot : ¬ Elapses s (start s queue stop) schedule := by
      rintro ⟨earlier, hearlier, hw⟩
      have hf := run_falls_of_prefix hk hwho hcap hq stop hs hearlier
      rw [hf.untouched.watchdog] at hw
      cases hw
    have hu : Untouched _ := hcrew
    refine ⟨hu, run_unserved s queue stop schedule hu.consumers hu.producers,
      (htoken hnot).trans ?_⟩
    simp
  case kept =>
    rintro rfl
    exact run_unserved s queue stop schedule hcrew.1 hcrew.2
  case drained =>
    refine fun hlate => horderly.settled.drained hgone hcalm ?_
    rcases hlate with ⟨i, rfl⟩ | ⟨i, rfl⟩
    · exact hcrew.1 ▸ Nat.succ_pos i
    · exact hcrew.1 ▸ s.config.consumers.pos

/-- Two consumers and two producers under a watchdog; the second producer cannot be created. -/
def shorthanded : Setup :=
  ⟨.burst 1 pair pair, some (.ofMillis 500), some ⟨4, "out of memory"⟩, true⟩

/-- The first producer enqueues its item before the caller fails. -/
def shorthandedSchedule : List Label :=
  List.replicate 7 Label.caller ++ List.replicate 2 (Label.producer 0 7) ++
    List.replicate 3 Label.caller ++ List.replicate 4 (Label.producer 0 7) ++
    List.replicate 9 (Label.consumer 0 0) ++ List.replicate 3 (Label.consumer 1 0) ++
    List.replicate 2 Label.caller ++ List.replicate 2 Label.watchdog ++ [Label.caller]

/-- The run of a caller without its second producer takes both items out of the queue, cancels the
token and returns the error; and it ends under the schedule in which all take turns. -/
theorem run_gives_up_shorthanded :
    shorthanded.spawnFailure = some ⟨4, "out of memory"⟩ ∧
      shorthanded.threads[4]? = some (.producer 1) ∧
      ((start shorthanded (.ofList [⟨9, 4, 1⟩]) .new).run shorthanded shorthandedSchedule).outcome? =
        some (.error (.notSpawned (.producer 1) "out of memory")) ∧
      GaveUp shorthanded (.ofList [⟨9, 4, 1⟩]) .new shorthandedSchedule (.producer 1)
        "out of memory"
        ((start shorthanded (.ofList [⟨9, 4, 1⟩]) .new).run shorthanded shorthandedSchedule)
        (.error (.notSpawned (.producer 1) "out of memory")) ∧
      ∃ n, ((start shorthanded (.ofList [⟨9, 4, 1⟩]) .new).after shorthanded dovetail n).outcome?.isSome := by
  have hwho : shorthanded.threads[4]? = some (.producer 1) := by decide +kernel
  have ho : ((start shorthanded (.ofList [⟨9, 4, 1⟩]) .new).run shorthanded
      shorthandedSchedule).outcome? =
        some (.error (.notSpawned (.producer 1) "out of memory")) := by
    decide +kernel
  have hnow : ((start shorthanded (.ofList [⟨9, 4, 1⟩]) .new).run shorthanded
      shorthandedSchedule).arena.now = clockStart := by
    decide +kernel
  have hfits : shorthanded.Fits clockStart := by
    refine ⟨by decide +kernel, fun span hspan => ?_, by decide +kernel⟩
    obtain rfl := Option.some.inj hspan
    decide +kernel
  obtain ⟨hgives, hends⟩ := run_gives_up (s := shorthanded) rfl hwho (by decide +kernel)
    (Chain.ofList_sound [(⟨9, 4, 1⟩ : Item)]).1 .new
  exact ⟨rfl, hwho, ho, (hgives _).2 (hnow ▸ hfits) _ ho, hends _ (dovetail_fair _ _)⟩

end Race

end QueueRace
