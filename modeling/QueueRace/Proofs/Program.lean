import QueueRace.Program
import QueueRace.Proofs.Race.Timeout

/-! The whole program. With the spans that a command line can ask for nobody panics as long as the
clock has room for them, the race returns a report, and the check accepts it, because the queue was
empty at the start. So the program fails only if it is told to have no workers, or if a thread cannot
be created. -/

namespace QueueRace

namespace Race

/-! ### The schedule of the executable -/

/-- The state has come out of `r` under some schedule. -/
def Progress.From (s : Setup) (r : Race) (p : Progress) : Prop := ∃ schedule, p.race = r.run s schedule

variable {s : Setup} {r : Race} {p : Progress}

theorem Progress.From.step (h : p.From s r) (l : Label) (drawn : ℕ) (moved : Bool) :
    Progress.From s r ⟨p.race.step s l, drawn, moved⟩ := by
  obtain ⟨schedule, hp⟩ := h
  refine ⟨schedule ++ [l], ?_⟩
  rw [run_append, ← hp]
  rfl

theorem Progress.From.turn (h : p.From s r) (ready : Race → Bool) (l : Label) :
    (p.turn s ready l).From s r := by
  simp only [Progress.turn]
  split
  · exact h.step l _ _
  · exact h

theorem Progress.From.round (h : p.From s r) (words : ℕ → UInt64) : (p.round s words).From s r := by
  have hfold : ∀ {p : Progress} (ready : Race → ℕ → Bool) (label : Progress → ℕ → Label)
      (ids : List ℕ), p.From s r → (ids.foldl (fun p i => p.turn s (ready · i) (label p i)) p).From s r :=
    fun ready label ids hp => List.foldlRecOn ids _ hp fun p hp i _ => hp.turn _ _
  have hstart : Progress.From s r { p with moved := false } := h
  refine hfold producerReady (fun p i => .producer i (words p.drawn)) _ ?_
  refine hfold consumerReady (fun p i => .consumer i (words p.drawn)) _ ?_
  exact (hstart.turn callerReady .caller).turn watchdogReady .watchdog

theorem runRounds_eq_run (words : ℕ → UInt64) (n : ℕ) (h : p.From s r) :
    ∃ schedule, runRounds s words n p = r.run s schedule := by
  induction n generalizing p with
  | zero => exact h
  | succ n ih =>
    have hround := h.round words
    rw [runRounds]
    split
    · exact h
    · split
      · rename_i race drawn heq
        exact ih ((heq ▸ hround).step _ _ _)
      · rename_i race drawn heq
        rw [heq] at hround
        split
        · exact hround
        · exact ih (hround.step _ _ _)

/-- The schedule that the program follows is one of all schedules. -/
theorem execute_eq_run (s : Setup) (queue : Chain Item) (stop : StopToken) (words : ℕ → UInt64) :
    ∃ schedule, execute s queue stop words = (start s queue stop).run s schedule :=
  runRounds_eq_run words patience ⟨[], rfl⟩

end Race

namespace Arguments

variable {a : Arguments} {config : Config}

/-! ### Arguments -/

theorem ofNat?_eq_none_iff (n : UInt64) : WorkerCount.ofNat? n.toNat = none ↔ n = 0 := by
  have hlt : n.toNat < UInt64.size := n.toNat_lt
  rw [WorkerCount.ofNat?, ← UInt64.toNat_inj, UInt64.toNat_zero]
  by_cases h : 0 < n.toNat
  · rw [dif_pos ⟨h, hlt⟩]
    exact iff_of_false nofun h.ne'
  · rw [dif_neg fun hand => h hand.1]
    exact iff_of_true rfl (Nat.eq_zero_of_not_pos h)

theorem config_cases (a : Arguments) :
    a.producers = 0 ∧ a.config = .error .noProducers ∨
      a.producers ≠ 0 ∧ a.consumers = 0 ∧ a.config = .error .noConsumers ∨
        a.producers ≠ 0 ∧ a.consumers ≠ 0 ∧ ∃ producers consumers, a.config = .ok
          ⟨a.items, producers, consumers, .ofMillis a.produceDelay, .ofMillis a.consumeDelay,
            .ofMillis a.pollInterval⟩ := by
  have hproducers := ofNat?_eq_none_iff a.producers
  have hconsumers := ofNat?_eq_none_iff a.consumers
  simp only [config]
  cases hp : WorkerCount.ofNat? a.producers.toNat with
  | none => exact .inl ⟨hproducers.mp hp, rfl⟩
  | some producers =>
    have hp : a.producers ≠ 0 := fun h => nomatch hp.symm.trans (hproducers.mpr h)
    cases hc : WorkerCount.ofNat? a.consumers.toNat with
    | none => exact .inr (.inl ⟨hp, hconsumers.mp hc, rfl⟩)
    | some consumers =>
      have hc : a.consumers ≠ 0 := fun h => nomatch hc.symm.trans (hconsumers.mpr h)
      exact .inr (.inr ⟨hp, hc, producers, consumers, rfl⟩)

/-- Without producers or without consumers the arguments make no config, whatever the other ones
are. -/
theorem config_fails_iff (a : Arguments) :
    (∃ e, a.config = .error e) ↔ a.producers = 0 ∨ a.consumers = 0 := by
  rcases a.config_cases with ⟨hp, h⟩ | ⟨hp, hc, h⟩ | ⟨hp, hc, producers, consumers, h⟩
  · exact iff_of_true ⟨_, h⟩ (.inl hp)
  · exact iff_of_true ⟨_, h⟩ (.inr hc)
  · refine iff_of_false ?_ (not_or.mpr ⟨hp, hc⟩)
    rintro ⟨e, he⟩
    cases h.symm.trans he

theorem config_message {e : ConfigError} (he : a.config = .error e) :
    e.message =
      if a.producers = 0 then "producers must not be zero" else "consumers must not be zero" := by
  rcases a.config_cases with ⟨hp, h⟩ | ⟨hp, hc, h⟩ | ⟨hp, hc, producers, consumers, h⟩
  · obtain rfl := Except.error.inj (h.symm.trans he)
    exact (if_pos hp).symm
  · obtain rfl := Except.error.inj (h.symm.trans he)
    exact (if_neg hp).symm
  · cases h.symm.trans he

theorem fits (h : a.config = .ok config) (shows : Notice → Bool) (failure : Option SpawnFailure)
    {time : Instant} (hclock : (time.add? .ample).isSome) :
    { Program.setup config (a.timeout.map .ofMillis) shows with spawnFailure := failure }.Fits
      time := by
  refine Setup.fits_of_ample ?_ (fun span hspan => ?_) hclock
  · rcases a.config_cases with ⟨-, h'⟩ | ⟨-, -, h'⟩ | ⟨-, -, producers, consumers, h'⟩
    · cases h.symm.trans h'
    · cases h.symm.trans h'
    · obtain rfl := Except.ok.inj (h.symm.trans h')
      exact Duration.ofMillis_le_ample a.pollInterval
  · obtain ⟨n, -, rfl⟩ := Option.map_eq_some_iff.mp hspan
    exact Duration.ofMillis_le_ample n

end Arguments

namespace Program

variable {a : Arguments} {shows : Notice → Bool} {race : Race} {report : Report}

/-- A race with a report that is accepted and whose total fits is a success. -/
theorem finish_of_accepted (ho : race.outcome? = some (.ok report))
    (hv : report.verify = .accepted) (hsum : report.producedSum < UInt64.size) :
    (finish shows race).exitCode = 0 ∧ (finish shows race).stderr = "" := by
  have htotal : report.totalProduced? = some report.producedSum.toUInt64 := if_pos hsum
  simp only [finish, ho, conclude, hv, htotal]
  cases shows (.verified 0 0) <;> exact ⟨rfl, rfl⟩

theorem runWith_of_config {config : Config} (h : a.config = .ok config) (race : Setup → Race) :
    runWith a shows race = finish shows (race (setup config (a.timeout.map .ofMillis) shows)) := by
  rw [runWith, h]

theorem exitCode_run {arguments : List String} (h : CommandLine.parse arguments = .run a)
    (levels : String) (words : ℕ → UInt64) : (run arguments levels words).exitCode =
      (runWith a (Filter.read levels).1.shows fun s =>
        Race.execute s .empty .new words).exitCode := by
  rw [run, h]

/-- The race `r` of the setup `s` can be run, and has come to its end: every thread can be created,
the clock has room, and what the producers have made can be counted. -/
structure Ends (s : Setup) (r : Race) (o : Outcome) : Prop where
  created : ∀ who, ¬ s.Lacks who
  clock : (r.arena.now.add? .ample).isSome
  ended : r.outcome? = some o
  marks : ∀ n ∈ r.produced, n.toNat ≤ Report.markLimit
  total : (r.produced.map UInt64.toNat).sum < UInt64.size

theorem Ends.of_single {s : Setup} {r : Race} {o : Outcome} (n : UInt64) (hs : s.spawnFailure = none)
    (hclock : (r.arena.now.add? .ample).isSome) (ho : r.outcome? = some o) (hr : r.produced = [n])
    (hn : n.toNat ≤ Report.markLimit) : Ends s r o where
  created := Setup.not_lacks hs
  clock := hclock
  ended := ho
  marks := hr ▸ List.forall_mem_singleton.mpr hn
  total := by
    rw [hr, List.map_singleton, List.sum_singleton]
    exact n.toNat_lt_size

/-- What the program comes to with the arguments `a`, whichever notices are shown. -/
structure Reliable (a : Arguments) (shows : Notice → Bool) : Prop where
  fails : (∃ e, a.config = .error e) ↔ a.producers = 0 ∨ a.consumers = 0
  message : ∀ e, a.config = .error e → e.message =
    if a.producers = 0 then "producers must not be zero" else "consumers must not be zero"
  refuses : ∀ e, a.config = .error e → ∀ race,
    runWith a shows race = ⟨1, "", "Error: " ++ e.message ++ "\n", []⟩
  succeeds : ∀ config failure schedule race o, a.config = .ok config →
    let s := setup config (a.timeout.map .ofMillis) shows
    let s' := { s with spawnFailure := failure }
    let r := (Race.start s' .empty .new).run s' schedule
    race s = r → Ends s' r o → r.Calm ∧ (∃ report, o = .ok report ∧ report.verify = .accepted) ∧
      (runWith a shows race).exitCode = 0 ∧ (runWith a shows race).stderr = ""
  /-- The schedule of the executable is one of them. -/
  executes : ∀ config words o, a.config = .ok config →
    let s := setup config (a.timeout.map .ofMillis) shows
    Ends s (Race.execute s .empty .new words) o →
      let output := runWith a shows fun s => Race.execute s .empty .new words
      output.exitCode = 0 ∧ output.stderr = ""

theorem succeeds {config : Config} (hconfig : a.config = .ok config) {failure : Option SpawnFailure}
    {schedule : List Label} (race : Setup → Race) {o : Outcome} :
    let s := setup config (a.timeout.map .ofMillis) shows
    let s' := { s with spawnFailure := failure }
    let r := (Race.start s' .empty .new).run s' schedule
    race s = r → Ends s' r o → r.Calm ∧ (∃ report, o = .ok report ∧ report.verify = .accepted) ∧
      (runWith a shows race).exitCode = 0 ∧ (runWith a shows race).stderr = "" := by
  intro s s' r hrace h
  have hfits : s'.Fits r.arena.now := Arguments.fits hconfig shows failure h.clock
  have hcalm : r.Calm := Race.run_calm s' Chain.empty_sound .new schedule hfits
  have horderly := Race.run_orderly s' Chain.empty_sound .new schedule
  obtain ⟨report, rfl, hcovers, hnil⟩ := horderly.succeeds h.ended
    (Race.run_cause s' Chain.empty_sound .new schedule h.ended) h.created hcalm h.total
  have hmarks := h.marks
  have hsum := h.total
  rw [← Race.produced_eq hcovers] at hmarks hsum
  have hv : report.verify = .accepted :=
    (horderly.accepts_iff hcovers hnil hmarks).mpr (by decide +kernel)
  rw [runWith_of_config hconfig, hrace]
  exact ⟨hcalm, ⟨report, rfl, hv⟩, finish_of_accepted h.ended hv (report.producedSum_eq ▸ hsum)⟩

/-- A command line can make the program fail only by asking for no workers, of which the producers
are told first. Otherwise, if every thread can be created, nobody panics under any schedule, and
where the race ends, it returns a report, the check accepts it, and the program exits without an
error. -/
theorem run_succeeds (a : Arguments) (shows : Notice → Bool) : Reliable a shows where
  fails := a.config_fails_iff
  message _ he := Arguments.config_message he
  refuses e he race := by
    simp only [runWith, he, failure, String.append_empty]
  succeeds config failure schedule race o hconfig := succeeds hconfig race
  executes config words o hconfig := by
    intro s h
    obtain ⟨schedule, hrun⟩ := Race.execute_eq_run s .empty .new words
    rw [hrun] at h
    exact (succeeds hconfig (fun s => Race.execute s .empty .new words) hrun h).2.2

def hurriedArguments : Arguments := ⟨3, 1, 2, 0, 0, 10, some 500⟩

def hurriedLine : List String :=
  ["--items", "3", "--consumers", "2", "--produce-delay", "0", "--consume-delay", "0",
    "--timeout", "500"]

def hurriedConfig : Config := ⟨3, .one, Race.pair, .ofMillis 0, .ofMillis 0, .ofMillis 10⟩

def hurriedSetup (shows : Notice → Bool) : Setup := setup hurriedConfig (some (.ofMillis 500)) shows

/-- The race in which the time is over after one item. -/
def hurriedRace (s : Setup) : Race := (Race.start s .empty .new).run s Race.hurriedSchedule

/-- Where all threads take turns, all items are made and received long before the time is over. -/
theorem execute_hurried (shows : Notice → Bool) :
    Ends (hurriedSetup shows) (Race.execute (hurriedSetup shows) .empty .new fun _ => 7)
      (.ok ⟨[3], [[⟨0, 0, 7⟩, ⟨0, 2, 7⟩], [⟨0, 1, 7⟩]]⟩) := by
  rw [hurriedSetup, setup]
  cases shows (.finished 0 0) <;>
    exact .of_single 3 rfl (by decide +kernel) (by decide +kernel) (by decide +kernel)
      (by decide +kernel)

/-- The program delivers all items and exits with zero, and it does so if the time is over after one
item; without producers it exits with one. -/
theorem run_succeeds_hurried :
    (run hurriedLine "off" fun _ => 7).exitCode = 0 ∧
      (run ["--producers", "0"] "off" fun _ => 7).exitCode = 1 ∧
      (hurriedRace (hurriedSetup fun _ => false)).outcome? = some (.ok ⟨[1], [[⟨0, 0, 7⟩], []]⟩) ∧
      (hurriedRace (hurriedSetup fun _ => false)).Calm ∧
      Report.verify ⟨[1], [[⟨0, 0, 7⟩], []]⟩ = .accepted ∧
      (runWith hurriedArguments (fun _ => false) hurriedRace).exitCode = 0 := by
  have hconfig : hurriedArguments.config = .ok hurriedConfig := rfl
  have hparse : CommandLine.parse hurriedLine = .run hurriedArguments := by decide +kernel
  have hidle : CommandLine.parse ["--producers", "0"] = .run ⟨10, 0, 5, 500, 800, 10, none⟩ := by
    decide +kernel
  have hends : Ends (hurriedSetup fun _ => false) (hurriedRace (hurriedSetup fun _ => false))
      (.ok ⟨[1], [[⟨0, 0, 7⟩], []]⟩) :=
    .of_single 1 rfl (by decide +kernel) (by decide +kernel) (by decide +kernel) (by decide +kernel)
  obtain ⟨hcalm, ⟨report, hreport, hv⟩, hexit, -⟩ :=
    (run_succeeds hurriedArguments fun _ => false).succeeds _ none Race.hurriedSchedule hurriedRace
      _ hconfig rfl hends
  obtain rfl := Outcome.ok.inj hreport
  refine ⟨?_, ?_, hends.ended, hcalm, hv, hexit⟩
  · rw [exitCode_run hparse]
    exact ((run_succeeds hurriedArguments _).executes _ _ _ hconfig (execute_hurried _)).1
  · rw [exitCode_run hidle, (run_succeeds _ _).refuses .noProducers rfl]

end Program

end QueueRace
