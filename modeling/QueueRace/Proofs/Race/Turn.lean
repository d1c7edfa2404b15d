import Mathlib.Data.Nat.Notation
import QueueRace.Race.Basic

/-! One step of a run. `Passes` lists the steps of the caller that at most change where it stands,
`Watches` those of the watchdog, and `Stuck` the reasons for which a thread cannot go on. `Turn`
lists all steps of all threads by what they change. Invariants of a run, and that it gets on at all,
are proved by cases on a turn, and only here the steps themselves are looked into. -/

namespace QueueRace

/-- A watchdog that has nothing more to do. -/
def Watchdog.Over : Watchdog → Prop
  | .ended | .panicked => True
  | _ => False

namespace Race

/-- Where the caller may go without touching what the workers share. -/
inductive Passes (s : Setup) (r : Race) : Caller → Caller → Prop
  | unwatched {cause : String} (hf : r.refusal? s = some cause) :
    Passes s r .spawnWatchdog (.ended (.error (.notSpawned .watchdog cause)))
  | noConsumer {i : ℕ} {cause : String} (hi : i < s.config.consumers.val)
    (hf : r.refusal? s = some cause) :
    Passes s r (.spawnConsumer i) (.disarm (.notSpawned (.consumer i) cause))
  | consumersReady {i : ℕ} (hi : ¬ i < s.config.consumers.val) : Passes s r (.spawnConsumer i) .reserve
  | reserved : Passes s r .reserve (.spawnProducer 0)
  | tooMany (hn : ¬ s.config.producers.val ≤ maxProducers) :
    Passes s r .reserve (.close 0 0 (.panicked .capacity))
  | noProducer {i : ℕ} {cause : String} (hi : i < s.config.producers.val)
    (hf : r.refusal? s = some cause) :
    Passes s r (.spawnProducer i) (.cancelRest i (.notSpawned (.producer i) cause))
  | producersReady {i : ℕ} (hi : ¬ i < s.config.producers.val) :
    Passes s r (.spawnProducer i) (.joinProducers [])
  | producerJoined {produced : List UInt64} {n : UInt64}
    (h : r.producers[produced.length]? = some (.gone (.returned n))) :
    Passes s r (.joinProducers produced) (.joinProducers (produced ++ [n]))
  | producerPanicked {produced : List UInt64}
    (h : r.producers[produced.length]? = some (.gone .panicked)) :
    Passes s r (.joinProducers produced)
      (.close (produced.length + 1) 0 (.error (.workerPanicked (.producer produced.length))))
  | producersJoined {produced : List UInt64} (h : r.producers[produced.length]? = none) :
    Passes s r (.joinProducers produced) (.joinConsumers produced [])
  | consumerJoined {produced : List UInt64} {consumed : List (List Item)} {c : Consumer}
    {items : List Item} (h : r.consumers[consumed.length]? = some c)
    (he : c.exit? = some (.returned items)) :
    Passes s r (.joinConsumers produced consumed) (.joinConsumers produced (consumed ++ [items]))
  | consumerPanicked {produced : List UInt64} {consumed : List (List Item)} {c : Consumer}
    (h : r.consumers[consumed.length]? = some c) (he : c.exit? = some .panicked) :
    Passes s r (.joinConsumers produced consumed)
      (.close produced.length (consumed.length + 1)
        (.error (.workerPanicked (.consumer consumed.length))))
  | consumersJoined {produced : List UInt64} {consumed : List (List Item)}
    (h : r.consumers[consumed.length]? = none) :
    Passes s r (.joinConsumers produced consumed) (.summarize ⟨produced, consumed⟩)
  | overflowed {report : Report} (h : report.totalProduced? = none) :
    Passes s r (.summarize report)
      (.close report.produced.length report.consumed.length (.panicked .overflow))
  | summarized {report : Report} :
    Passes s r (.summarize report)
      (.close report.produced.length report.consumed.length (.ok report))
  | closed {producers consumers : ℕ} {outcome : Outcome} (h : r.allGone)
    (hp : (∃ p, outcome = .panicked p) ∨ ¬ r.anyPanicked producers consumers) :
    Passes s r (.close producers consumers outcome) (.dismiss outcome)
  | unjoinedPanicked {producers consumers : ℕ} {outcome : Outcome} (h : r.allGone)
    (ho : ∀ p, outcome ≠ .panicked p) (hp : r.anyPanicked producers consumers) :
    Passes s r (.close producers consumers outcome) (.dismiss (.panicked .scopedThread))
  | unwatchedEnd {outcome : Outcome} (ht : s.timeout = none) :
    Passes s r (.dismiss outcome) (.ended outcome)
  | untold {p : RunPanic} (ht : s.timeout.isSome) :
    Passes s r (.dismiss (.panicked p)) (.joinWatchdog (.panicked p))
  | watchdogJoined {outcome : Outcome}
    (hw : r.watchdog = some .ended ∨ r.watchdog = some .panicked ∧ ∃ p, outcome = .panicked p) :
    Passes s r (.joinWatchdog outcome) (.ended outcome)
  | watchdogPanicked {outcome : Outcome} (ho : ∀ p, outcome ≠ .panicked p)
    (hw : r.watchdog = some .panicked) :
    Passes s r (.joinWatchdog outcome) (.ended (.error (.workerPanicked .watchdog)))

/-- The steps of the watchdog up to the moment at which it cancels the token. -/
inductive Watches (s : Setup) (r : Race) : Watchdog → Watchdog → Prop
  | yields {timeout : Duration} (ht : s.timeout = some timeout)
    (hp : r.arena.pause timeout = .yielded) : Watches s r .start .yielded
  | sleeps {timeout : Duration} {deadline : Instant} (ht : s.timeout = some timeout)
    (hp : r.arena.pause timeout = .asleep deadline) : Watches s r .start (.asleep deadline)
  | overflows {timeout : Duration} (ht : s.timeout = some timeout)
    (hp : r.arena.pause timeout = .panicked) : Watches s r .start .panicked
  | told {w : Watchdog} (hw : w = .yielded ∨ ∃ deadline, w = .asleep deadline) : Watches s r w .ended
  | timesOut {w : Watchdog} (hf : ¬ r.finished)
    (hw : w = .yielded ∨ ∃ deadline, w = .asleep deadline ∧ deadline < r.arena.now) :
    Watches s r w .check
  | tooLate : Watches s r .check .ended
  | warns : Watches s r .check .warn
  | goes : Watches s r .warn .cancel

/-- Why the thread of a label cannot go on. -/
inductive Stuck (s : Setup) (r : Race) : Label → Prop
  | producerRuns {produced : List UInt64} {p : Producer} (h : r.caller = .joinProducers produced)
    (hp : r.producers[produced.length]? = some (.running p)) : Stuck s r .caller
  | consumerRuns {produced : List UInt64} {consumed : List (List Item)} {c : Consumer}
    (h : r.caller = .joinConsumers produced consumed) (hc : r.consumers[consumed.length]? = some c)
    (he : c.exit? = none) : Stuck s r .caller
  | workersRun {producers consumers : ℕ} {outcome : Outcome}
    (h : r.caller = .close producers consumers outcome) (hg : ¬ r.allGone) : Stuck s r .caller
  | watchdogRuns {outcome : Outcome} (h : r.caller = .joinWatchdog outcome)
    (hw : ∀ w, r.watchdog = some w → ¬ w.Over) : Stuck s r .caller
  | returned {outcome : Outcome} (h : r.caller = .ended outcome) : Stuck s r .caller
  | noWatchdog (h : r.watchdog = none ∨ s.timeout = none) : Stuck s r .watchdog
  | watchdogSleeps {deadline : Instant} (h : r.watchdog = some (.asleep deadline))
    (hd : ¬ deadline < r.arena.now) : Stuck s r .watchdog
  | watchdogOver {w : Watchdog} (h : r.watchdog = some w) (hw : w.Over) : Stuck s r .watchdog
  | noConsumer {i : ℕ} (h : r.consumers[i]? = none) (word : UInt64) : Stuck s r (.consumer i word)
  | noProducer {i : ℕ} (h : ∀ p, r.producers[i]? ≠ some (.running p)) (word : UInt64) :
    Stuck s r (.producer i word)

/-- The step of the run `r` of the setup `s` that a label stands for leads to another run. -/
inductive Turn (s : Setup) (r : Race) : Label → Race → Prop
  | stay {l : Label} (h : Stuck s r l) : Turn s r l r
  | tick (span : ℕ) : Turn s r (.tick span) { r with arena := r.arena.tick span }
  | cancel : Turn s r .cancel { r with arena := r.arena.cancel }
  | watch {v w : Watchdog} (h : r.watchdog = some v) (hw : Watches s r v w)
    (log : Array (Who × Notice)) :
    Turn s r .watchdog { r with arena := { r.arena with log }, watchdog := some w }
  | expire (h : r.watchdog = some .cancel) :
    Turn s r .watchdog { r with arena := r.arena.cancel, watchdog := some .ended }
  | pass {caller : Caller} (h : Passes s r r.caller caller) (log : Array (Who × Notice))
    (hlog : (∀ report, r.caller ≠ .summarize report) → log = r.arena.log) :
    Turn s r .caller { r with arena := { r.arena with log }, caller }
  | hireWatchdog (h : r.caller = .spawnWatchdog) (hf : r.refusal? s = none) :
    Turn s r .caller
      { r with watchdog := some .start, created := r.created + 1, caller := .announce }
  | announce (h : r.caller = .announce) (log : Array (Who × Notice)) :
    Turn s r .caller
      { r with
        arena := { r.arena with live := s.config.producers.val.toUInt64, log }
        caller := .spawnConsumer 0 }
  | hireConsumer {i : ℕ} (h : r.caller = .spawnConsumer i) (hi : i < s.config.consumers.val)
    (hf : r.refusal? s = none) :
    Turn s r .caller
      { r with
        consumers := r.consumers.push .start
        created := r.created + 1
        caller := .spawnConsumer (i + 1) }
  | disarm {e : RunError} (h : r.caller = .disarm e) :
    Turn s r .caller { r with arena := { r.arena with live := 0 }, caller := .close 0 0 (.error e) }
  | hireProducer {i : ℕ} (h : r.caller = .spawnProducer i) (hi : i < s.config.producers.val)
    (hf : r.refusal? s = none) :
    Turn s r .caller
      { r with
        producers := r.producers.push (.running (.check 0))
        created := r.created + 1
        caller := .spawnProducer (i + 1) }
  | cancelRest {i : ℕ} {e : RunError} (h : r.caller = .cancelRest i e) :
    Turn s r .caller { r with arena := r.arena.cancel, caller := .uncountRest i e }
  | uncountRest {i : ℕ} {e : RunError} (h : r.caller = .uncountRest i e) :
    Turn s r .caller
      { r with
        arena := { r.arena with live := r.arena.live - (s.config.producers.val - i).toUInt64 }
        caller := .close 0 0 (.error e) }
  | tell {outcome : Outcome} (h : r.caller = .dismiss outcome) (ht : s.timeout.isSome)
    (ho : ∀ p, outcome ≠ .panicked p) :
    Turn s r .caller { r with finished := true, caller := .joinWatchdog outcome }
  | consumer {i : ℕ} {c : Consumer} (h : r.consumers[i]? = some c) (word : UInt64) :
    Turn s r (.consumer i word)
      { r with
        arena := (c.advance s.config i word r.arena).1
        consumers := r.consumers.setIfInBounds i (c.advance s.config i word r.arena).2 }
  | producer {i : ℕ} {p : Producer} (h : r.producers[i]? = some (.running p))
    (hp : ∀ exit, p ≠ .ended exit) (word : UInt64) :
    Turn s r (.producer i word)
      { r with
        arena := (p.step s.config i word r.arena).1
        producers := r.producers.setIfInBounds i (.running (p.step s.config i word r.arena).2) }
  | retire {i : ℕ} {exit : Exit UInt64} (h : r.producers[i]? = some (.running (.ended exit)))
    (word : UInt64) :
    Turn s r (.producer i word)
      { r with
        arena := { r.arena with live := r.arena.live - 1 }
        producers := r.producers.setIfInBounds i (.gone exit) }

variable {s : Setup} {r : Race}

theorem refusal?_eq_some_iff {cause : String} :
    r.refusal? s = some cause ↔ s.spawnFailure = some ⟨r.created, cause⟩ := by
  rw [refusal?]
  split
  · rename_i failure hfailure
    obtain ⟨place, cause'⟩ := failure
    rw [hfailure]
    by_cases hplace : place = r.created
    · simp [hplace]
    · simp [hplace]
  · rename_i hnone
    rw [hnone]
    exact iff_of_false nofun nofun

theorem Turn.of_passes {caller : Caller} (h : Passes s r r.caller caller) :
    Turn s r .caller { r with caller } :=
  .pass h r.arena.log fun _ => rfl

theorem Turn.of_watches {v w : Watchdog} (h : r.watchdog = some v) (hw : Watches s r v w) :
    Turn s r .watchdog { r with watchdog := some w } :=
  .watch h hw r.arena.log

theorem stepCaller_turn (s : Setup) (r : Race) : Turn s r .caller (r.stepCaller s) := by
  obtain ⟨arena, finished, caller, watchdog, consumers, producers, created⟩ := r
  cases caller with
  | spawnWatchdog =>
    simp only [stepCaller]
    split
    · exact .of_passes (.unwatched ‹_›)
    · exact .hireWatchdog rfl ‹_›
  | announce => exact .announce rfl _
  | spawnConsumer i =>
    simp only [stepCaller]
    split
    · rename_i hi
      split
      · exact .of_passes (.noConsumer hi ‹_›)
      · exact .hireConsumer rfl hi ‹_›
    · exact .of_passes (.consumersReady ‹_›)
  | disarm e => exact .disarm rfl
  | reserve =>
    simp only [stepCaller]
    split
    · exact .of_passes .reserved
    · exact .of_passes (.tooMany ‹_›)
  | spawnProducer i =>
    simp only [stepCaller]
    split
    · rename_i hi
      split
      · exact .of_passes (.noProducer hi ‹_›)
      · exact .hireProducer rfl hi ‹_›
    · exact .of_passes (.producersReady ‹_›)
  | cancelRest i e => exact .cancelRest rfl
  | uncountRest i e => exact .uncountRest rfl
  | joinProducers produced =>
    simp only [stepCaller]
    split
    · exact .of_passes (.producersJoined ‹_›)
    · exact .of_passes (.producerJoined ‹_›)
    · exact .of_passes (.producerPanicked ‹_›)
    · exact .stay (.producerRuns rfl ‹_›)
  | joinConsumers produced consumed =>
    simp only [stepCaller]
    split
    · exact .of_passes (.consumersJoined ‹_›)
    · split
      · exact .of_passes (.consumerJoined ‹_› ‹_›)
      · exact .of_passes (.consumerPanicked ‹_› ‹_›)
      · exact .stay (.consumerRuns rfl ‹_› ‹_›)
  | summarize report =>
    simp only [stepCaller]
    split
    · split
      · exact .of_passes (.overflowed ‹_›)
      · exact .pass .summarized _ fun hne => absurd rfl (hne _)
    · exact .of_passes .summarized
  | close m n outcome =>
    simp only [stepCaller]
    split
    · rename_i hg
      split
      · exact .of_passes (.closed hg (.inl ⟨_, rfl⟩))
      · rename_i ho
        split
        · exact .of_passes (.unjoinedPanicked hg ho ‹_›)
        · exact .of_passes (.closed hg (.inr ‹_›))
    · exact .stay (.workersRun rfl ‹_›)
  | dismiss outcome =>
    simp only [stepCaller]
    split
    · exact .of_passes (.unwatchedEnd ‹_›)
    · rename_i ht
      exact .of_passes (.untold (by rw [ht]; rfl))
    · rename_i ht ho
      exact .tell rfl (by rw [ht]; rfl) fun p hp => ho p hp
  | joinWatchdog outcome =>
    simp only [stepCaller]
    split
    · exact .of_passes (.watchdogJoined (.inl rfl))
    · exact .of_passes (.watchdogJoined (.inr ⟨rfl, _, rfl⟩))
    · rename_i ho
      exact .of_passes (.watchdogPanicked (fun p hp => ho p hp) rfl)
    · rename_i hended hpanicked _
      refine .stay (.watchdogRuns rfl fun w hw hover => ?_)
      cases w with
      | ended => exact hended hw
      | panicked => exact hpanicked hw
      | _ => exact hover
  | ended outcome => exact .stay (.returned rfl)

theorem stepWatchdog_turn {w : Watchdog} {timeout : Duration} (h : r.watchdog = some w)
    (ht : s.timeout = some timeout) : Turn s r .watchdog (r.stepWatchdog timeout w) := by
  cases w with
  | start =>
    simp only [stepWatchdog]
    split
    · exact .of_watches h (.yields ht ‹_›)
    · exact .of_watches h (.sleeps ht ‹_›)
    · exact .of_watches h (.overflows ht ‹_›)
  | yielded =>
    simp only [stepWatchdog]
    split
    · exact .of_watches h (.told (.inl rfl))
    · exact .of_watches h (.timesOut ‹_› (.inl rfl))
  | asleep deadline =>
    simp only [stepWatchdog]
    split
    · exact .of_watches h (.told (.inr ⟨_, rfl⟩))
    · rename_i hf
      split
      · exact .of_watches h (.timesOut hf (.inr ⟨_, rfl, ‹_›⟩))
      · exact .stay (.watchdogSleeps h ‹_›)
  | check =>
    simp only [stepWatchdog]
    split
    · exact .of_watches h .tooLate
    · exact .of_watches h .warns
  | warn => exact .watch h .goes _
  | cancel => exact .expire h
  | ended => exact .stay (.watchdogOver h trivial)
  | panicked => exact .stay (.watchdogOver h trivial)

theorem stepConsumer_turn (s : Setup) (r : Race) (i : ℕ) (word : UInt64) :
    Turn s r (.consumer i word) (r.stepConsumer s i word) := by
  obtain ⟨arena, finished, caller, watchdog, consumers, producers, created⟩ := r
  simp only [stepConsumer]
  split
  · exact .stay (.noConsumer ‹_› word)
  · rename_i c hc
    rw [Array.setIfInBounds_setIfInBounds]
    exact .consumer hc word

theorem stepProducer_turn (s : Setup) (r : Race) (i : ℕ) (word : UInt64) :
    Turn s r (.producer i word) (r.stepProducer s i word) := by
  obtain ⟨arena, finished, caller, watchdog, consumers, producers, created⟩ := r
  simp only [stepProducer]
  split
  · exact .retire ‹_› word
  · rename_i p hne hp
    exact .producer hp (fun exit he => hne exit he) word
  · rename_i hne hp
    exact .stay (.noProducer (fun p h => hp p h) word)

/-- Every step of a run is a turn. -/
theorem step_turn (s : Setup) (r : Race) (l : Label) : Turn s r l (r.step s l) := by
  cases l with
  | caller => exact stepCaller_turn s r
  | watchdog =>
    simp only [step]
    split
    · exact stepWatchdog_turn ‹_› ‹_›
    · rename_i h
      refine .stay (.noWatchdog ?_)
      cases hw : r.watchdog with
      | none => exact .inl rfl
      | some w =>
        cases ht : s.timeout with
        | none => exact .inr rfl
        | some timeout => exact absurd ht (h w timeout hw)
  | consumer i word => exact stepConsumer_turn s r i word
  | producer i word => exact stepProducer_turn s r i word
  | cancel => exact .cancel
  | tick span => exact .tick span

/-- What holds of a run and is kept by every turn holds under every schedule. -/
theorem run_induction {P : Race → Prop} (turn : ∀ {r l r'}, P r → Turn s r l r' → P r') (h : P r)
    (schedule : List Label) : P (r.run s schedule) := by
  induction schedule generalizing r with
  | nil => exact h
  | cons l schedule ih => exact ih (turn h (step_turn s r l))

end Race

end QueueRace
