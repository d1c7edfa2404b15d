import QueueRace.Proofs.Race.Outcomes

/-! The plain run inside a run with a timeout. Without the watchdog, without what it says and without
what the caller does for its sake, a run with a timeout is a run without one, step by step. Where the
watchdog cancels the token, the plain run sees somebody else do it. -/

namespace QueueRace

/-- The setup without its timeout: the other threads are created in the same order. -/
def Setup.inner (s : Setup) : Setup :=
  { s with
    timeout := none
    spawnFailure := s.spawnFailure.map fun f => { f with place := f.place - s.watchers.length } }

def Arena.inner (a : Arena) : Arena := { a with log := a.log.filter (·.1 ≠ .watchdog) }

/-- Where the caller stands in the plain run. It has returned from it when it waits for the
watchdog. -/
def Caller.inner : Caller → Caller
  | .spawnWatchdog => .announce
  | .joinWatchdog o => .ended o
  | c => c

namespace Race

def inner (s : Setup) (r : Race) : Race where
  arena := r.arena.inner
  finished := false
  caller := r.caller.inner
  watchdog := none
  consumers := r.consumers
  producers := r.producers
  created := r.created - s.watchers.length

/-- What the plain run sees of a step. -/
def shadow (r : Race) : Label → List Label
  | .caller => match r.caller with
    | .spawnWatchdog => []
    | _ => [.caller]
  | .watchdog => if r.watchdog = some .cancel then [.cancel] else []
  | l => [l]

/-- The schedule of the plain run. -/
def shadows (s : Setup) (r : Race) : List Label → List Label
  | [] => []
  | l :: schedule => r.shadow l ++ shadows s (r.step s l) schedule

end Race

/-! ### The workers -/

namespace Arena

theorem inner_record {who : Who} (hw : who ≠ .watchdog) (a : Arena) (n : Notice) :
    (a.record who n).inner = a.inner.record who n := by
  simp [inner, record, hw]

theorem inner_record_watchdog (a : Arena) (n : Notice) :
    (a.record .watchdog n).inner = a.inner := by
  simp [inner, record]

theorem inner_now (a : Arena) : a.inner.now = a.now := rfl

theorem inner_stop (a : Arena) : a.inner.stop = a.stop := rfl

theorem inner_pause (a : Arena) (span : Duration) : a.inner.pause span = a.pause span := by
  rw [pause, pause, inner_now]

theorem inner_wakes (a : Arena) (deadline : Instant) :
    a.inner.wakes deadline = a.wakes deadline := by
  rw [wakes, wakes, inner_now, inner_stop]

end Arena

theorem Consumer.advance_inner (cfg : Config) (id : ℕ) (word : UInt64) (a : Arena) (c : Consumer) :
    c.advance cfg id word a.inner =
      ((c.advance cfg id word a).1.inner, (c.advance cfg id word a).2) := by
  have hwho : Who.consumer id ≠ .watchdog := nofun
  obtain ⟨phase, items⟩ := c
  cases phase with
  | poll drained =>
    obtain ⟨queue, stop, live, now, log⟩ := a
    simp only [advance, step, Arena.inner]
    cases queue.dequeue with
    | mk queue' reached =>
      cases reached with
      | done answer =>
        cases answer with
        | some item => simp [Arena.record]
        | none => rfl
      | _ => rfl
  | leave => simp only [advance, step, Arena.inner_record hwho]
  | rest => simp only [advance, step, Arena.inner_pause]
  | idle => simp only [advance, step, Arena.inner_pause]
  | asleep deadline =>
    simp only [advance, step]
    rw [Arena.inner_wakes]
  | _ => rfl

theorem Producer.step_inner (cfg : Config) (id : ℕ) (word : UInt64) (a : Arena) (p : Producer) :
    p.step cfg id word a.inner =
      ((p.step cfg id word a).1.inner, (p.step cfg id word a).2) := by
  have hwho : Who.producer id ≠ .watchdog := nofun
  cases p with
  | check n =>
    simp only [step]
    rw [Arena.inner_stop]
  | enqueue n =>
    simp only [step, Arena.inner_record hwho]
    rfl
  | rest n => rw [step_rest, step_rest, Arena.inner_pause]
  | asleep n deadline =>
    simp only [step]
    rw [Arena.inner_wakes]
  | leave n =>
    simp only [step, Arena.inner_record hwho]
    rfl
  | _ => rfl

namespace Race

variable {s : Setup} {r r' : Race} {l : Label} {initial : List Item}

theorem stepConsumer_inner (s : Setup) (r : Race) (i : ℕ) (word : UInt64) :
    (r.stepConsumer s i word).inner s = (r.inner s).stepConsumer s.inner i word := by
  obtain ⟨arena, finished, caller, watchdog, consumers, producers, created⟩ := r
  simp only [stepConsumer, inner]
  cases consumers[i]? with
  | none => rfl
  | some c =>
    simp only [Consumer.advance_inner, Setup.inner]

theorem stepProducer_of_running {i : ℕ} {p : Producer} (h : r.producers[i]? = some (.running p))
    (hne : ∀ exit, p ≠ .ended exit) (word : UInt64) :
    r.stepProducer s i word =
      { r with
        arena := (p.step s.config i word r.arena).1
        producers := r.producers.setIfInBounds i (.running (p.step s.config i word r.arena).2) } := by
  obtain ⟨arena, finished, caller, watchdog, consumers, producers, created⟩ := r
  simp only at h
  simp only [stepProducer, h]

theorem stepProducer_inner (s : Setup) (r : Race) (i : ℕ) (word : UInt64) :
    (r.stepProducer s i word).inner s = (r.inner s).stepProducer s.inner i word := by
  have hsame : (r.inner s).producers[i]? = r.producers[i]? := rfl
  rcases h : r.producers[i]? with _ | p | exit
  · simp only [stepProducer, hsame, h]
  · by_cases he : ∃ exit, p = .ended exit
    · obtain ⟨exit, rfl⟩ := he
      simp only [stepProducer, hsame, h]
      rfl
    · have hne : ∀ exit, p ≠ .ended exit := fun exit h => he ⟨exit, h⟩
      have hstep : p.step s.inner.config i word (r.inner s).arena = _ :=
        Producer.step_inner s.config i word r.arena p
      rw [stepProducer_of_running h hne, stepProducer_of_running (hsame.trans h) hne, hstep]
      rfl
  · simp only [stepProducer, hsame, h]

/-! ### The caller -/

theorem length_watchers_le {failure : SpawnFailure} (h : ¬ s.Lacks .watchdog)
    (hk : s.spawnFailure = some failure) : s.watchers.length ≤ failure.place := by
  by_cases ht : s.timeout.isSome
  · have hwatchers := Setup.watchers_eq ht
    have hne : failure.place ≠ 0 := by
      intro hzero
      refine h ⟨failure.cause, failure.place, hk, ?_⟩
      rw [hzero, Setup.threads, hwatchers]
      rfl
    rw [hwatchers]
    exact Nat.one_le_iff_ne_zero.mpr hne
  · rw [Setup.watchers, if_neg ht]
    exact Nat.zero_le _

/-- The creations of the plain run are numbered without the watchdog, and the same one fails. -/
theorem refusal?_inner (h : ¬ s.Lacks .watchdog) (hc : s.watchers.length ≤ r.created) :
    (r.inner s).refusal? s.inner = r.refusal? s := by
  cases hk : s.spawnFailure with
  | none => simp only [refusal?, Setup.inner, hk, Option.map_none]
  | some failure =>
    have hle := length_watchers_le h hk
    have hiff : failure.place - s.watchers.length = r.created - s.watchers.length ↔
        failure.place = r.created := by
      omega
    simp only [refusal?, Setup.inner, inner, hk, Option.map_some, hiff]

theorem inner_ite {p q : Prop} [Decidable p] [Decidable q] {r₁ r₂ r₁' r₂' : Race} (h : p ↔ q)
    (h₁ : r₁.inner s = r₁') (h₂ : r₂.inner s = r₂') :
    (if p then r₁ else r₂).inner s = if q then r₁' else r₂' :=
  (apply_ite (inner s) p r₁ r₂).trans (if_congr h h₁ h₂)

/-- Once the watchdog has been created, the caller does the same in the plain run. -/
theorem stepCaller_inner (hlack : ¬ s.Lacks .watchdog) (ho : r.Orderly s initial) (hn : r.Numbered)
    (hne : r.caller ≠ .spawnWatchdog) (hp : r.watchdog ≠ some .panicked) :
    (r.stepCaller s).inner s = (r.inner s).stepCaller s.inner := by
  have hhired := ho.counted.hired
  have hwatched := ho.watched
  have hfails := refusal?_inner (s := s) (r := r) hlack
  have hconsumer := fun {i} => hn.of_spawnConsumer (s := s) (i := i)
  have hproducer := fun {i} => hn.of_spawnProducer (s := s) (i := i)
  have hnext : s.watchers.length ≤ r.created →
      r.created + 1 - s.watchers.length = r.created - s.watchers.length + 1 := Nat.sub_add_comm
  clear hn ho
  obtain ⟨arena, finished, caller, watchdog, consumers, producers, created⟩ := r
  cases caller with
  | spawnWatchdog => exact absurd rfl hne
  | announce =>
    simp [stepCaller, inner, Caller.inner, Arena.inner, Arena.record, Setup.inner]
  | spawnConsumer i =>
    have hle : s.watchers.length ≤ created := by
      have hcreated := hconsumer hhired hwatched
      simp only at hcreated
      omega
    refine inner_ite Iff.rfl ?_ rfl
    rw [hfails hle]
    cases Race.refusal? s _ with
    | some cause => rfl
    | none => simp only [inner, Caller.inner, hnext hle]
  | disarm e => rfl
  | reserve => exact inner_ite Iff.rfl rfl rfl
  | spawnProducer i =>
    have hle : s.watchers.length ≤ created := by
      have hcreated := hproducer hhired hwatched
      simp only at hcreated
      omega
    refine inner_ite Iff.rfl ?_ rfl
    rw [hfails hle]
    cases Race.refusal? s _ with
    | some cause => rfl
    | none => simp only [inner, Caller.inner, hnext hle]
  | cancelRest i e => rfl
  | uncountRest i e => rfl
  | joinProducers produced =>
    simp only [stepCaller, inner, Caller.inner]
    split <;> rfl
  | joinConsumers produced consumed =>
    simp only [stepCaller, inner, Caller.inner]
    split
    · rfl
    · split <;> rfl
  | summarize report =>
    refine inner_ite Iff.rfl ?_ rfl
    cases report.totalProduced? with
    | none => rfl
    | some total => simp [inner, Caller.inner, Arena.inner, Arena.record]
  | close m n o =>
    refine inner_ite Iff.rfl ?_ rfl
    cases o with
    | panicked p => rfl
    | _ => exact inner_ite Iff.rfl rfl rfl
  | dismiss o =>
    obtain ⟨config, timeout, spawnFailure, announced⟩ := s
    cases timeout with
    | none => rfl
    | some timeout => cases o <;> rfl
  | joinWatchdog o =>
    cases watchdog with
    | none => rfl
    | some w =>
      cases w with
      | panicked => exact absurd rfl hp
      | _ => rfl
  | ended o => rfl

/-! ### The watchdog -/

/-- The watchdog has been created as soon as that is its turn. -/
structure Attended (s : Setup) (initial : List Item) (r : Race) : Prop
    extends r.Orderly s initial where
  numbered : r.Numbered
  attended : r.caller ≠ .spawnWatchdog → r.watchdog.isSome = s.timeout.isSome

theorem start_attended (s : Setup) {queue : Chain Item} (hq : queue.Sound) (stop : StopToken) :
    (start s queue stop).Attended s queue.toList where
  toOrderly := start_orderly s hq stop
  numbered := rfl
  attended := by
    simp only [start]
    split
    · exact absurd rfl
    · exact fun _ => (Bool.eq_false_iff.mpr ‹_›).symm

theorem Attended.turn (h : r.Attended s initial) (hlack : ¬ s.Lacks .watchdog)
    (ht : Turn s r l r') : r'.Attended s initial := by
  refine ⟨h.toOrderly.turn ht, ht.numbered h.watched h.numbered, ?_⟩
  have hattended := h.attended
  cases ht with
  | watch hv hw log =>
    rw [hv] at hattended
    exact hattended
  | expire hv =>
    rw [hv] at hattended
    exact hattended
  | hireWatchdog hc hf =>
    have hwatched := h.watched
    rw [hc] at hwatched
    exact fun _ => hwatched.1.symm
  | pass hp log hlog =>
    have hhired := h.counted.hired
    have hwatched := h.watched
    refine fun _ => hattended fun hc => ?_
    rw [hc] at hp hhired hwatched
    cases hp with
    | unwatched hf => exact hlack ⟨_, h.numbered.refuses_watchdog hhired hwatched hf⟩
  | announce hc log => exact fun _ => hattended (hc ▸ nofun)
  | hireConsumer hc hi hf => exact fun _ => hattended (hc ▸ nofun)
  | disarm hc => exact fun _ => hattended (hc ▸ nofun)
  | hireProducer hc hi hf => exact fun _ => hattended (hc ▸ nofun)
  | cancelRest hc => exact fun _ => hattended (hc ▸ nofun)
  | uncountRest hc => exact fun _ => hattended (hc ▸ nofun)
  | tell hc ht ho => exact fun _ => hattended (hc ▸ nofun)
  | _ => exact hattended

theorem run_attended (hlack : ¬ s.Lacks .watchdog) {queue : Chain Item} (hq : queue.Sound)
    (stop : StopToken) (schedule : List Label) :
    ((start s queue stop).run s schedule).Attended s queue.toList :=
  run_induction (fun h ht => h.turn hlack ht) (start_attended s hq stop) schedule

/-- The plain run does not see what the watchdog does before it cancels the token. -/
theorem stepWatchdog_inner (s : Setup) (r : Race) (timeout : Duration) {w : Watchdog}
    (hw : w ≠ .cancel) : (r.stepWatchdog timeout w).inner s = r.inner s := by
  cases w with
  | start =>
    rw [stepWatchdog]
    cases r.arena.pause timeout <;> rfl
  | asleep deadline =>
    rw [stepWatchdog]
    split
    · rfl
    · split <;> rfl
  | warn => simp only [stepWatchdog, inner, Arena.inner_record_watchdog]
  | cancel => exact absurd rfl hw
  | _ => rfl

/-! ### Whole runs -/

theorem shadow_caller (hc : r.caller ≠ .spawnWatchdog) : r.shadow .caller = [.caller] := by
  rw [shadow]
  split
  · exact absurd ‹_› hc
  · rfl

/-- A step of the run is what the plain run sees of it. -/
theorem Attended.step_inner (h : r.Attended s initial) (hlack : ¬ s.Lacks .watchdog)
    (hp : r.watchdog ≠ some .panicked) (l : Label) :
    (r.step s l).inner s = (r.inner s).run s.inner (r.shadow l) := by
  cases l with
  | caller =>
    by_cases hc : r.caller = .spawnWatchdog
    · have hhired := h.counted.hired
      have hwatched := h.watched
      rw [hc] at hhired hwatched
      have hcreated := h.numbered.of_spawnWatchdog hhired hwatched
      have hfails : r.refusal? s = none := Option.eq_none_iff_forall_ne_some.mpr fun cause hf =>
        hlack ⟨cause, h.numbered.refuses_watchdog hhired hwatched hf⟩
      have hlead : s.watchers.length = 1 := congrArg List.length (Setup.watchers_eq hwatched.1)
      have hstep : r.step s .caller =
          { r with watchdog := some .start, created := r.created + 1, caller := .announce } := by
        simp only [step, stepCaller, hc, hfails]
      rw [hstep, shadow, hc]
      simp only [inner, hc, Caller.inner, hcreated, hlead]
      rfl
    · rw [shadow_caller hc]
      exact stepCaller_inner hlack h.toOrderly h.numbered hc hp
  | watchdog =>
    by_cases hw : r.watchdog = some .cancel
    · have hwatched := h.watched
      rw [shadow, if_pos hw]
      cases ht : s.timeout with
      | none =>
        rw [ht, hw] at hwatched
        exact hwatched.over.elim
      | some timeout =>
        simp only [step, hw, ht]
        rfl
    · rw [shadow, if_neg hw]
      simp only [step]
      split
      · rename_i w timeout hsome ht
        exact stepWatchdog_inner s r timeout fun hcancel => hw (hcancel ▸ hsome)
      · rfl
  | consumer i word => exact stepConsumer_inner s r i word
  | producer i word => exact stepProducer_inner s r i word
  | cancel => rfl
  | tick span => rfl

theorem start_inner (s : Setup) (queue : Chain Item) (stop : StopToken) :
    (start s queue stop).inner s = start s.inner queue stop := by
  have hcaller : (start s queue stop).caller.inner = .announce := by
    simp only [start]
    split <;> rfl
  rw [inner, hcaller]
  simp only [start, Arena.inner, Array.filter_empty, Nat.zero_sub, Setup.inner, Option.isSome_none,
    Bool.false_eq_true, if_false]

/-- A run with a timeout is the plain run under the schedule that this one sees, as long as the
watchdog does not panic. -/
theorem Attended.run_inner (h : r.Attended s initial) (hlack : ¬ s.Lacks .watchdog)
    (schedule : List Label) (hp : (r.run s schedule).watchdog ≠ some .panicked) :
    (r.run s schedule).inner s = (r.inner s).run s.inner (shadows s r schedule) := by
  induction schedule generalizing r with
  | nil => rfl
  | cons l schedule ih =>
    have hnext : (r.step s l).Attended s initial := h.turn hlack (step_turn s r l)
    have hcalm : r.watchdog ≠ some .panicked := fun hpanicked =>
      hp (run_induction (P := fun r => r.Orderly s initial ∧ r.watchdog = some .panicked)
        (fun ⟨ho, h⟩ ht => ⟨ho.turn ht, ht.keeps_panicked ho.watched h⟩)
        ⟨h.toOrderly, hpanicked⟩ (l :: schedule)).2
    rw [shadows, run_append, ← h.step_inner hlack hcalm l]
    exact ih hnext hp

/-! ### Runs without a timeout -/

theorem inner_eq_self (ht : s.timeout = none) : s.inner = s := by
  obtain ⟨config, timeout, spawnFailure, announced⟩ := s
  obtain rfl : timeout = none := ht
  cases spawnFailure <;> rfl

theorem not_lacks_watchdog (ht : s.timeout = none) : ¬ s.Lacks .watchdog := by
  rintro ⟨cause, place, -, hwho⟩
  have hsome := (Setup.lt_of_threads_watchdog hwho).1
  rw [ht] at hsome
  cases hsome

theorem Attended.watchdog_eq_none (h : r.Attended s initial) (ht : s.timeout = none) :
    r.caller ≠ .spawnWatchdog ∧ r.watchdog = none := by
  have hne : r.caller ≠ .spawnWatchdog := by
    intro hc
    have hwatched := h.watched
    rw [hc, ht] at hwatched
    cases hwatched.1
  have hsame := h.attended hne
  rw [ht] at hsame
  exact ⟨hne, Option.not_isSome_iff_eq_none.mp (by rw [hsame]; nofun)⟩

theorem Attended.run_shadow (h : r.Attended s initial) (ht : s.timeout = none) (l : Label) :
    r.run s (r.shadow l) = r.step s l := by
  obtain ⟨hc, hw⟩ := h.watchdog_eq_none ht
  cases l with
  | caller =>
    rw [shadow_caller hc]
    rfl
  | watchdog =>
    rw [shadow, step, hw, if_neg (Option.some_ne_none _).symm]
    rfl
  | _ => rfl

theorem Attended.run_shadows (h : r.Attended s initial) (ht : s.timeout = none)
    (schedule : List Label) : r.run s (shadows s r schedule) = r.run s schedule := by
  induction schedule generalizing r with
  | nil => rfl
  | cons l schedule ih =>
    rw [shadows, run_append, h.run_shadow ht l]
    exact ih (h.turn (not_lacks_watchdog ht) (step_turn s r l))

/-- A run without a timeout is its own plain run. -/
theorem run_inner_eq_self (ht : s.timeout = none) {queue : Chain Item} (hq : queue.Sound)
    (stop : StopToken) (schedule : List Label) :
    ((start s queue stop).run s schedule).inner s = (start s queue stop).run s schedule := by
  have hstart := start_attended s hq stop
  have hend := run_attended (not_lacks_watchdog ht) hq stop schedule
  rw [hstart.run_inner (not_lacks_watchdog ht) schedule, start_inner, inner_eq_self ht,
    hstart.run_shadows ht]
  rw [(hend.watchdog_eq_none ht).2]
  nofun

end Race

end QueueRace
