import QueueRace.Proofs.Race.FailedCreation
import QueueRace.Proofs.Race.Panics
import QueueRace.Proofs.Report.Count

/-! Why a run ends as it does. A run that does not return a report has a cause for it that can be
named: a thread that cannot be created, a thread that has panicked, a total that does not fit, or a
list of producers that gets no room. A run without any of these causes returns a report. -/

namespace QueueRace

/-- The thread of `who` is the one that cannot be created, for this cause. -/
def Setup.Refuses (s : Setup) (who : Who) (cause : String) : Prop :=
  ∃ place, s.spawnFailure = some ⟨place, cause⟩ ∧ s.threads[place]? = some who

def Setup.Lacks (s : Setup) (who : Who) : Prop := ∃ cause, s.Refuses who cause

theorem Setup.not_lacks {s : Setup} (h : s.spawnFailure = none) (who : Who) : ¬ s.Lacks who := by
  rintro ⟨cause, place, hfailure, -⟩
  cases h.symm.trans hfailure

theorem Setup.length_watchers {s : Setup} {w : Option Watchdog} (h : w.isSome = s.timeout.isSome) :
    w.toList.length = s.watchers.length := by
  rw [watchers, ← h]
  cases w <;> rfl

namespace Race

variable {s : Setup} {r r' : Race} {l : Label} {c c' : Caller} {o : Outcome} {initial : List Item}

/-! ### The numbers of the creations -/

/-- Every creation so far has made a thread. -/
def Numbered (r : Race) : Prop :=
  r.created = r.watchdog.toList.length + r.consumers.size + r.producers.size

theorem Turn.numbered (ht : Turn s r l r') (hw : r.caller.Watched s.timeout r.watchdog)
    (h : r.Numbered) : r'.Numbered := by
  have hcreated : r.created =
    r.watchdog.toList.length + r.consumers.size + r.producers.size := h
  cases ht with
  | watch hv hw log =>
    rw [hv] at hcreated
    exact hcreated
  | expire hv =>
    rw [hv] at hcreated
    exact hcreated
  | hireWatchdog hc hf =>
    rw [hc] at hw
    rw [hw.2] at hcreated
    simp only [Numbered, hcreated, Option.toList_none, Option.toList_some, List.length_nil,
      List.length_singleton]
    omega
  | hireConsumer hc hi hf =>
    simp only [Numbered, hcreated, Array.size_push]
    omega
  | hireProducer hc hi hf =>
    simp only [Numbered, hcreated, Array.size_push]
    omega
  | consumer hc word => exact hcreated.trans (by rw [Array.size_setIfInBounds])
  | producer hp hne word => exact hcreated.trans (by rw [Array.size_setIfInBounds])
  | retire hp word => exact hcreated.trans (by rw [Array.size_setIfInBounds])
  | _ => exact hcreated

/-- The watchdog is the first thread. -/
theorem Numbered.of_spawnWatchdog (h : r.Numbered)
    (hh : Caller.spawnWatchdog.Hired s.config.consumers.val s.config.producers.val
      r.consumers.size r.producers.size)
    (hw : Caller.spawnWatchdog.Watched s.timeout r.watchdog) : r.created = 0 := by
  rw [h, hw.2, hh.1, hh.2]
  rfl

theorem Numbered.of_spawnConsumer {i : ℕ} (h : r.Numbered)
    (hh : (Caller.spawnConsumer i).Hired s.config.consumers.val s.config.producers.val
      r.consumers.size r.producers.size)
    (hw : (Caller.spawnConsumer i).Watched s.timeout r.watchdog) :
    r.created = s.watchers.length + i := by
  rw [h, Setup.length_watchers hw, hh.1, hh.2.2, Nat.add_zero]

theorem Numbered.of_spawnProducer {i : ℕ} (h : r.Numbered)
    (hh : (Caller.spawnProducer i).Hired s.config.consumers.val s.config.producers.val
      r.consumers.size r.producers.size)
    (hw : (Caller.spawnProducer i).Watched s.timeout r.watchdog) :
    r.created = s.watchers.length + s.config.consumers.val + i := by
  rw [h, Setup.length_watchers hw, hh.1, hh.2.1]

theorem refuses_of_refusal? {place : ℕ} {who : Who} {cause : String}
    (hf : r.refusal? s = some cause) (hr : r.created = place)
    (hwho : s.threads[place]? = some who) : s.Refuses who cause :=
  ⟨place, hr ▸ refusal?_eq_some_iff.mp hf, hwho⟩

theorem Numbered.refuses_watchdog (h : r.Numbered)
    (hh : Caller.spawnWatchdog.Hired s.config.consumers.val s.config.producers.val
      r.consumers.size r.producers.size)
    (hw : Caller.spawnWatchdog.Watched s.timeout r.watchdog) {cause : String}
    (hf : r.refusal? s = some cause) : s.Refuses .watchdog cause :=
  refuses_of_refusal? hf (h.of_spawnWatchdog hh hw) (Setup.threads_watchdog hw.1)

/-! ### Causes -/

/-- What stands behind an outcome. -/
inductive Cause (s : Setup) (r : Race) : Outcome → Prop
  | joined {report : Report} (h : report.Covers r.producers r.consumers) : Cause s r (.ok report)
  | lacking {who : Who} {cause : String} (h : s.Refuses who cause) :
    Cause s r (.error (.notSpawned who cause))
  | worker {w : Who} (h : r.fate w = some true) : Cause s r (.error (.workerPanicked w))
  | watchdog (h : r.watchdog = some .panicked) : Cause s r (.error (.workerPanicked .watchdog))
  | unjoined {w : Who} (h : r.fate w = some true) : Cause s r (.panicked .scopedThread)
  | overflow {report : Report} (h : report.Covers r.producers r.consumers)
    (ht : report.totalProduced? = none) : Cause s r (.panicked .overflow)
  | capacity (hn : ¬ s.config.producers.val ≤ maxProducers)
    (hm : r.consumers.size = s.config.consumers.val) : Cause s r (.panicked .capacity)

/-- A caller that knows its outcome has a cause for it. -/
def Explained (s : Setup) (r : Race) : Caller → Prop
  | .disarm e => ∃ i cause, e = .notSpawned (.consumer i) cause ∧ s.Refuses (.consumer i) cause
  | .cancelRest i e | .uncountRest i e =>
    ∃ cause, e = .notSpawned (.producer i) cause ∧ s.Refuses (.producer i) cause
  | .close _ _ o | .dismiss o | .joinWatchdog o | .ended o => r.Cause s o
  | _ => True

theorem Passes.explained (h : Passes s r c c')
    (hh : c.Hired s.config.consumers.val s.config.producers.val r.consumers.size r.producers.size)
    (hw : c.Watched s.timeout r.watchdog) (hj : c.Joined r.producers r.consumers)
    (hn : r.Numbered) (he : r.Explained s c) : r.Explained s c' := by
  cases h with
  | unwatched hf => exact .lacking (hn.refuses_watchdog hh hw hf)
  | noConsumer hi hf =>
    have hlack := refuses_of_refusal? hf (hn.of_spawnConsumer hh hw) (Setup.threads_consumer hi)
    exact ⟨_, _, rfl, hlack⟩
  | tooMany hnot => exact .capacity hnot hh.1
  | noProducer hi hf =>
    have hlack := refuses_of_refusal? hf (hn.of_spawnProducer hh hw) (Setup.threads_producer hi)
    exact ⟨_, rfl, hlack⟩
  | producerPanicked hp => exact .worker (fate_producer hp)
  | consumerPanicked hc hexit => exact .worker (fate_consumer hc hexit)
  | overflowed ht => exact .overflow hj ht
  | summarized => exact .joined hj
  | closed => exact he
  | unjoinedPanicked hg ho hp =>
    obtain ⟨w, -, hfate⟩ := (anyPanicked_iff _ _).mp hp
    exact .unjoined hfate
  | unwatchedEnd => exact he
  | untold => exact he
  | watchdogJoined => exact he
  | watchdogPanicked ho hpanicked => exact .watchdog hpanicked
  | _ => trivial

/-- A caller keeps its cause, as long as nobody is created. -/
theorem Explained.mono (h : r.Explained s c)
    (hj : ∀ {report : Report}, report.Covers r.producers r.consumers →
      report.Covers r'.producers r'.consumers)
    (hfate : ∀ {w}, r.fate w = some true → r'.fate w = some true)
    (hw : r.watchdog = some .panicked → r'.watchdog = some .panicked)
    (hc : r'.consumers.size = r.consumers.size) : r'.Explained s c := by
  have hcause : ∀ {o}, r.Cause s o → r'.Cause s o := by
    intro o ho
    cases ho with
    | joined h => exact .joined (hj h)
    | lacking h => exact .lacking h
    | worker h => exact .worker (hfate h)
    | watchdog h => exact .watchdog (hw h)
    | unjoined h => exact .unjoined (hfate h)
    | overflow h ht => exact .overflow (hj h) ht
    | capacity hn hm => exact .capacity hn (hc.trans hm)
  cases c with
  | disarm e => exact h
  | cancelRest i e => exact h
  | uncountRest i e => exact h
  | close i j o => exact hcause h
  | dismiss o => exact hcause h
  | joinWatchdog o => exact hcause h
  | ended o => exact hcause h
  | _ => trivial

/-- A watchdog that has panicked stays so. -/
theorem Turn.keeps_panicked (ht : Turn s r l r') (hw : r.caller.Watched s.timeout r.watchdog)
    (h : r.watchdog = some .panicked) : r'.watchdog = some .panicked := by
  cases ht with
  | watch hv hstep log =>
    exact absurd hstep (Option.some.inj (h.symm.trans hv) ▸ Watchdog.Over.not_watches trivial)
  | expire hv => cases h.symm.trans hv
  | hireWatchdog hc hf =>
    rw [hc] at hw
    cases h.symm.trans hw.2
  | _ => exact h

theorem Turn.explained (ht : Turn s r l r') (ho : r.Orderly s initial) (hn : r.Numbered)
    (h : r.Explained s r.caller) : r'.Explained s r'.caller := by
  have hcovers : ∀ {report : Report}, r'.producers.size = r.producers.size →
      r'.consumers.size = r.consumers.size → report.Covers r.producers r.consumers →
        report.Covers r'.producers r'.consumers :=
    fun hp hc h =>
      ⟨ht.joins ho.queue h.joins, h.producers.trans hp.symm, h.consumers.trans hc.symm⟩
  have hfate : ∀ {w}, r.fate w = some true → r'.fate w = some true := ht.fate ho.queue
  have hpanicked := ht.keeps_panicked ho.watched
  cases ht with
  | watch hv hw log => exact h.mono id id hpanicked rfl
  | expire hv => exact h.mono id id hpanicked rfl
  | pass hp log hlog =>
    exact (hp.explained ho.counted.hired ho.watched ho.joined hn h).mono id id id rfl
  | hireWatchdog => trivial
  | announce => trivial
  | hireConsumer => trivial
  | disarm hc =>
    rw [hc] at h
    obtain ⟨i, cause, rfl, hlack⟩ := h
    exact .lacking hlack
  | hireProducer => trivial
  | cancelRest hc =>
    rw [hc] at h
    exact h
  | uncountRest hc =>
    rw [hc] at h
    obtain ⟨cause, rfl, hlack⟩ := h
    exact .lacking hlack
  | tell hc ht ho =>
    rw [hc] at h
    exact Explained.mono (c := .joinWatchdog _) h id id id rfl
  | consumer hc word =>
    exact h.mono (hcovers rfl (Array.size_setIfInBounds ..)) hfate id (Array.size_setIfInBounds ..)
  | producer hp hne word => exact h.mono (hcovers (Array.size_setIfInBounds ..) rfl) hfate id rfl
  | retire hp word => exact h.mono (hcovers (Array.size_setIfInBounds ..) rfl) hfate id rfl
  | _ => exact h.mono id id id rfl

theorem run_explained (s : Setup) {queue : Chain Item} (hq : queue.Sound) (stop : StopToken)
    (schedule : List Label) : ((start s queue stop).run s schedule).Explained s
      ((start s queue stop).run s schedule).caller := by
  refine (run_induction (P := fun r => (r.Orderly s queue.toList ∧ r.Numbered) ∧
    r.Explained s r.caller)
    (fun ⟨⟨ho, hn⟩, h⟩ ht => ⟨⟨ho.turn ht, ht.numbered ho.watched hn⟩, ht.explained ho hn h⟩)
    ⟨⟨start_orderly s hq stop, rfl⟩, ?_⟩ schedule).2
  simp only [start]
  split <;> trivial

/-- Every outcome has its cause. -/
theorem run_cause (s : Setup) {queue : Chain Item} (hq : queue.Sound) (stop : StopToken)
    (schedule : List Label) (h : ((start s queue stop).run s schedule).outcome? = some o) :
    ((start s queue stop).run s schedule).Cause s o := by
  have hexplained := run_explained s hq stop schedule
  rw [caller_of_outcome? h] at hexplained
  exact hexplained

/-! ### Runs that succeed -/

/-- How many items each producer has enqueued that has not panicked. -/
def produced (r : Race) : List UInt64 := r.producers.toList.filterMap (·.state.count?)

theorem produced_eq {report : Report} (h : report.Covers r.producers r.consumers) :
    report.produced = r.produced := by
  have hgone : r.producers.toList = report.produced.map fun n => .gone (.returned n) := by
    refine List.ext_getElem (by simp [h.producers]) fun i hi hi' => ?_
    rw [List.length_map] at hi'
    have hjoined := h.joins.producers (List.getElem?_eq_getElem hi')
    rw [← Array.getElem?_toList, List.getElem?_eq_getElem hi] at hjoined
    rw [List.getElem_map]
    exact Option.some.inj hjoined
  rw [produced, hgone, List.filterMap_map]
  exact List.filterMap_some.symm

theorem Calm.fate_ne (h : r.Calm) (w : Who) : r.fate w ≠ some true := by
  intro hw
  have hany := (anyPanicked_iff 0 0).mpr ⟨w, w.not_among_zero, hw⟩
  rw [h.not_anyPanicked] at hany
  cases hany

/-- Where all workers are gone, their ends tell whether any has panicked. -/
theorem calm_of_allGone (hg : r.allGone) (hfate : ∀ w, r.fate w ≠ some true)
    (hwatchdog : r.watchdog ≠ some .panicked) : r.Calm where
  consumers i c hc hp := by
    have hexit : c.exit? = some .panicked := by rw [Consumer.exit?, hp]
    exact hfate (.consumer i) (fate_consumer hc hexit)
  producers i th hi hp := by
    obtain ⟨exit, rfl⟩ := (allGone_iff.mp hg).1 i th hi
    obtain rfl := Producer.ended.inj hp
    exact hfate (.producer i) (fate_producer hi)
  watchdog := hwatchdog

/-- A run in which every thread can be created and nobody has panicked returns a report of all
workers and leaves the queue empty, if the total of what they have made fits. -/
theorem Orderly.succeeds (ho : r.Orderly s initial) (hend : r.outcome? = some o)
    (hcause : r.Cause s o) (hcreated : ∀ who, ¬ s.Lacks who) (hcalm : r.Calm)
    (hsum : (r.produced.map UInt64.toNat).sum < UInt64.size) :
    ∃ report, o = .ok report ∧ report.Covers r.producers r.consumers ∧
      r.arena.queue.toList = [] := by
  have hc := caller_of_outcome? hend
  have hhired := ho.counted.hired
  have hlive := ho.counted.live
  have hcleared := ho.cleared
  rw [hc] at hhired hlive hcleared
  cases hcause with
  | joined h => exact ⟨_, rfl, h, ho.drained h (hhired.1 ▸ s.config.consumers.pos)⟩
  | lacking h => exact absurd ⟨_, h⟩ (hcreated _)
  | worker h => exact absurd h (hcalm.fate_ne _)
  | watchdog h => exact absurd h hcalm.watchdog
  | unjoined h => exact absurd h (hcalm.fate_ne _)
  | overflow h ht =>
    rw [Report.totalProduced?, Report.producedSum_eq, produced_eq h, if_pos hsum] at ht
    cases ht
  | capacity hn hm =>
    -- the consumers have ended, but not before a count that stays above zero for ever
    obtain ⟨h0, -⟩ := ho.settled.over hcleared hcalm (hm ▸ s.config.consumers.pos)
    rw [h0, UInt64.toNat_zero] at hlive
    have hpos := s.config.producers.pos
    simp only [Caller.pending, Outcome.pending] at hlive
    omega

/-- The check accepts the report of such a run if and only if there was nothing in the queue. -/
theorem Sound.accepts_iff (h : r.Sound s initial) {report : Report}
    (hr : report.Covers r.producers r.consumers) (hnil : r.arena.queue.toList = [])
    (hroom : ∀ n ∈ report.produced, n.toNat ≤ Report.markLimit) :
    report.verify = .accepted ↔ initial = [] := by
  obtain ⟨made, line, htraced⟩ := h.traced
  have hline : line.map Prod.snd = initial ++ made := by
    rw [htraced.balance, hnil, List.append_nil]
  rw [Report.verify_eq_accepted_iff hroom,
    Report.correct_iff hline (htraced.interleaves hr) (htraced.shares hr)]

end Race

end QueueRace
