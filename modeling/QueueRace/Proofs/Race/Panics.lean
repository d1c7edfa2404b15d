import QueueRace.Proofs.Race.Termination

/-! Runs whose workers panic. The caller joins the producers and then the consumers, and returns an
error at the first one that has panicked. The workers behind that one are not joined any more, so a
second panic among them becomes a panic of the caller itself when it has waited for all. -/

namespace QueueRace

namespace Exit

def isPanicked {ρ : Type} : Exit ρ → Bool
  | .returned _ => false
  | .panicked => true

end Exit

def Who.Among (p q : ℕ) : Who → Prop
  | .producer i => i < p
  | .consumer i => i < q
  | .main | .watchdog => False

theorem Who.not_among_zero (w : Who) : ¬ w.Among 0 0 := by
  cases w with
  | producer i => exact Nat.not_lt_zero i
  | consumer i => exact Nat.not_lt_zero i
  | _ => exact id

namespace Race

variable {s : Setup} {r r' : Race} {l : Label} {c c' : Caller} {w : Who} {b : Bool}

/-! ### How a worker has ended -/

/-- Whether a worker has panicked, if it has ended. -/
def fate (r : Race) : Who → Option Bool
  | .producer i => (r.producers[i]?.bind ProducerThread.exit?).map Exit.isPanicked
  | .consumer i => (r.consumers[i]?.bind Consumer.exit?).map Exit.isPanicked
  | .main | .watchdog => none

theorem fate_producer {i : ℕ} {exit : Exit UInt64} (h : r.producers[i]? = some (.gone exit)) :
    r.fate (.producer i) = some exit.isPanicked := by
  rw [fate, h]
  rfl

theorem fate_consumer {i : ℕ} {c : Consumer} {exit : Exit (List Item)}
    (h : r.consumers[i]? = some c) (he : c.exit? = some exit) :
    r.fate (.consumer i) = some exit.isPanicked := by
  rw [fate, h, Option.bind_some, he]
  rfl

theorem fate_cases (h : r.fate w = some b) :
    (∃ i exit, w = .producer i ∧ r.producers[i]? = some (.gone exit) ∧ exit.isPanicked = b) ∨
      ∃ i c exit, w = .consumer i ∧ r.consumers[i]? = some c ∧ c.exit? = some exit ∧
        exit.isPanicked = b := by
  cases w with
  | main => cases h
  | watchdog => cases h
  | producer i =>
    obtain ⟨exit, he, hb⟩ := Option.map_eq_some_iff.mp h
    obtain ⟨th, hth, hexit⟩ := Option.bind_eq_some_iff.mp he
    cases th with
    | running p => cases hexit
    | gone exit' =>
      obtain rfl := Option.some.inj hexit
      exact .inl ⟨i, _, rfl, hth, hb⟩
  | consumer i =>
    obtain ⟨exit, he, hb⟩ := Option.map_eq_some_iff.mp h
    obtain ⟨c, hc, hexit⟩ := Option.bind_eq_some_iff.mp he
    exact .inr ⟨i, c, exit, rfl, hc, hexit, hb⟩

theorem Turn.fate (ht : Turn s r l r') (hq : r.arena.queue.Sound) (h : r.fate w = some b) :
    r'.fate w = some b := by
  rcases fate_cases h with ⟨i, exit, rfl, hi, rfl⟩ | ⟨i, c, exit, rfl, hc, he, rfl⟩
  · exact fate_producer (ht.gone hi)
  · obtain ⟨c', hc', he'⟩ := ht.exited hq hc he
    exact fate_consumer hc' he'

/-- Where all workers are gone, nobody can end any more. -/
theorem Turn.fate_of_allGone (ht : Turn s r l r') (hq : r.arena.queue.Sound) (hg : r.allGone)
    (hp : r'.producers.size = r.producers.size) (hc : r'.consumers.size = r.consumers.size)
    (h : r'.fate w = some b) : r.fate w = some b := by
  obtain ⟨hproducers, hconsumers⟩ := allGone_iff.mp hg
  have hback : ∀ {b'}, r.fate w = some b' → r.fate w = some b := by
    intro b' hb'
    rw [← h, ht.fate hq hb', hb']
  rcases fate_cases h with ⟨i, exit, rfl, hi, -⟩ | ⟨i, c, exit, rfl, hi, -, -⟩
  · have hlt := hp ▸ (Array.getElem?_eq_some_iff.mp hi).1
    obtain ⟨exit', he⟩ := hproducers i _ (Array.getElem?_eq_getElem hlt)
    exact hback (fate_producer ((Array.getElem?_eq_getElem hlt).trans (congrArg some he)))
  · have hlt := hc ▸ (Array.getElem?_eq_some_iff.mp hi).1
    obtain ⟨exit', he⟩ := hconsumers i _ (Array.getElem?_eq_getElem hlt)
    exact hback (fate_consumer (Array.getElem?_eq_getElem hlt) he)

/-- Whether a worker has panicked that nobody waited for. -/
theorem anyPanicked_iff (p q : ℕ) :
    r.anyPanicked p q ↔ ∃ w, ¬ w.Among p q ∧ r.fate w = some true := by
  simp only [anyPanicked, Bool.or_eq_true, List.any_eq_true, List.mem_iff_getElem?,
    List.getElem?_drop, Array.getElem?_toList, decide_eq_true_eq]
  constructor
  · rintro (⟨th, ⟨i, hi⟩, hp⟩ | ⟨c, ⟨i, hi⟩, hp⟩)
    · refine ⟨.producer (p + i), Nat.not_lt.mpr (Nat.le_add_right p i), ?_⟩
      rw [fate, hi, Option.bind_some, hp]
      rfl
    · have hexit : c.exit? = some .panicked := by rw [Consumer.exit?, hp]
      exact ⟨.consumer (q + i), Nat.not_lt.mpr (Nat.le_add_right q i), fate_consumer hi hexit⟩
  · rintro ⟨w, hw, hfate⟩
    rcases fate_cases hfate with ⟨i, exit, rfl, hi, he⟩ | ⟨i, c, exit, rfl, hi, he, hb⟩
    · rw [← Nat.add_sub_cancel' (Nat.not_lt.mp hw)] at hi
      refine .inl ⟨_, ⟨_, hi⟩, ?_⟩
      cases exit with
      | returned n => cases he
      | panicked => rfl
    · rw [← Nat.add_sub_cancel' (Nat.not_lt.mp hw)] at hi
      refine .inr ⟨_, ⟨_, hi⟩, ?_⟩
      obtain ⟨phase, items⟩ := c
      cases phase with
      | panicked => rfl
      | ended =>
        obtain rfl := Option.some.inj he
        cases hb
      | _ => cases he

/-! ### What the caller makes of it -/

/-- What the caller knows of the workers when it has joined the first `p` producers and the first
`q` consumers and leaves with an outcome: it names the one that has panicked, or it has joined
them all, or not all producers have been created. -/
structure Accounts (s : Setup) (r : Race) (p q : ℕ) (o : Outcome) : Prop where
  joined : ∀ w, w.Among p q → ∃ b, r.fate w = some b ∧ (b = true → o = .error (.workerPanicked w))
  cause : (∃ w, o = .error (.workerPanicked w) ∧ w.Among p q ∧ r.fate w = some true) ∨
    ((∃ report, o = .ok report) ∨ o = .panicked .overflow) ∧
      r.producers.size ≤ p ∧ r.consumers.size ≤ q ∨
    r.producers.size < s.config.producers.val

/-- How the outcome of a run goes together with the workers that have panicked, provided that all
producers have been created. -/
inductive Verdict (s : Setup) (r : Race) : Outcome → Prop
  | short {o : Outcome} (h : r.producers.size < s.config.producers.val) : Verdict s r o
  | clean {o : Outcome} (ho : (∃ report, o = .ok report) ∨ o = .panicked .overflow)
    (h : ∀ w, r.fate w ≠ some true) : Verdict s r o
  | one {w : Who} (h : r.fate w = some true) (hw : ∀ v, r.fate v = some true → v = w) :
    Verdict s r (.error (.workerPanicked w))
  | more {v w : Who} (hne : v ≠ w) (hv : r.fate v = some true) (hw : r.fate w = some true) :
    Verdict s r (.panicked .scopedThread)

/-- What holds of the caller of a run without a watchdog. -/
def Judges (s : Setup) (r : Race) : Caller → Prop
  | .close p q o => r.Accounts s p q o
  | .dismiss o | .ended o => r.Verdict s o
  | .spawnWatchdog | .joinWatchdog _ => False
  | _ => True

theorem fate_of_joins {produced : List UInt64} {consumed : List (List Item)}
    (h : Joins r.producers r.consumers produced consumed)
    (hw : w.Among produced.length consumed.length) : r.fate w = some false := by
  cases w with
  | main => exact hw.elim
  | watchdog => exact hw.elim
  | producer i => exact fate_producer (h.producers (List.getElem?_eq_getElem hw))
  | consumer i =>
    obtain ⟨c, hc, he⟩ := h.consumers (List.getElem?_eq_getElem hw)
    exact fate_consumer hc he

theorem among_of_fate {p q : ℕ} (hp : r.producers.size ≤ p) (hq : r.consumers.size ≤ q)
    (h : r.fate w = some b) : w.Among p q := by
  rcases fate_cases h with ⟨i, exit, rfl, hi, -⟩ | ⟨i, c, exit, rfl, hi, -, -⟩
  · exact Nat.lt_of_lt_of_le (Array.getElem?_eq_some_iff.mp hi).1 hp
  · exact Nat.lt_of_lt_of_le (Array.getElem?_eq_some_iff.mp hi).1 hq

theorem Accounts.of_covers {report : Report} {o : Outcome}
    (h : report.Covers r.producers r.consumers)
    (ho : (∃ report, o = .ok report) ∨ o = .panicked .overflow) :
    r.Accounts s report.produced.length report.consumed.length o where
  joined _ hw := ⟨false, fate_of_joins h.joins hw, nofun⟩
  cause := .inr (.inl ⟨ho, h.producers.ge, h.consumers.ge⟩)

/-- The first one that has panicked is the last one that has been joined. -/
theorem Accounts.of_panicked {produced : List UInt64} {consumed : List (List Item)} {p q : ℕ}
    (h : Joins r.producers r.consumers produced consumed) (hw : w.Among p q)
    (hfate : r.fate w = some true)
    (hrest : ∀ v, v.Among p q → v = w ∨ v.Among produced.length consumed.length) :
    r.Accounts s p q (.error (.workerPanicked w)) where
  joined v hv := by
    rcases hrest v hv with rfl | hv
    · exact ⟨true, hfate, fun _ => rfl⟩
    · exact ⟨false, fate_of_joins h hv, nofun⟩
  cause := .inl ⟨w, rfl, hw, hfate⟩

theorem Accounts.of_short {o : Outcome} (h : r.producers.size < s.config.producers.val) :
    r.Accounts s 0 0 o where
  joined w hw := absurd hw w.not_among_zero
  cause := .inr (.inr h)

/-- Nobody has panicked whom the caller has not joined. -/
theorem Accounts.closed {p q : ℕ} {o : Outcome} (h : r.Accounts s p q o)
    (hp : (∃ p, o = .panicked p) ∨ ¬ r.anyPanicked p q) : r.Verdict s o := by
  rcases h.cause with ⟨w, rfl, hw, hfate⟩ | ⟨ho, hproducers, hconsumers⟩ | hshort
  · refine .one hfate fun v hv => ?_
    have hamong : v.Among p q := by
      by_contra hnot
      rcases hp with ⟨p, hp⟩ | hp
      · cases hp
      · exact hp ((anyPanicked_iff p q).mpr ⟨v, hnot, hv⟩)
    obtain ⟨b, hb, hblame⟩ := h.joined v hamong
    obtain rfl := Option.some.inj (hv.symm.trans hb)
    exact (RunError.workerPanicked.inj (Outcome.error.inj (hblame rfl))).symm
  · refine .clean ho fun v hv => ?_
    obtain ⟨b, hb, hblame⟩ := h.joined v (among_of_fate hproducers hconsumers hv)
    obtain rfl := Option.some.inj (hv.symm.trans hb)
    rcases ho with ⟨report, rfl⟩ | rfl <;> cases hblame rfl
  · exact .short hshort

/-- Somebody has panicked whom the caller has not joined, so it has left early. -/
theorem Accounts.unjoined {p q : ℕ} {o : Outcome} (h : r.Accounts s p q o)
    (hp : r.anyPanicked p q) : r.Verdict s (.panicked .scopedThread) := by
  obtain ⟨v, hnot, hv⟩ := (anyPanicked_iff p q).mp hp
  rcases h.cause with ⟨w, rfl, hw, hfate⟩ | ⟨ho, hproducers, hconsumers⟩ | hshort
  · refine .more (fun hvw => hnot ?_) hv hfate
    rwa [hvw]
  · exact absurd (among_of_fate hproducers hconsumers hv) hnot
  · exact .short hshort

theorem Passes.judges (h : Passes s r c c') (hunwatched : s.timeout = none)
    (hh : c.Hired s.config.consumers.val s.config.producers.val r.consumers.size r.producers.size)
    (hj : c.Joined r.producers r.consumers) (hv : r.Judges s c) : r.Judges s c' := by
  cases h with
  | unwatched => exact hv.elim
  | tooMany =>
    exact .of_short (hh.2.trans_lt s.config.producers.pos)
  | producerPanicked h =>
    refine .of_panicked hj (Nat.lt_succ_self _) (fate_producer h) fun v hv => ?_
    cases v with
    | producer i =>
      rcases Nat.lt_succ_iff_lt_or_eq.mp hv with hlt | rfl
      · exact .inr hlt
      · exact .inl rfl
    | _ => exact .inr hv
  | consumerPanicked h he =>
    refine .of_panicked hj.1 (Nat.lt_succ_self _) (fate_consumer h he) fun v hv => ?_
    cases v with
    | consumer i =>
      rcases Nat.lt_succ_iff_lt_or_eq.mp hv with hlt | rfl
      · exact .inr hlt
      · exact .inl rfl
    | _ => exact .inr hv
  | overflowed => exact .of_covers hj (.inr rfl)
  | summarized => exact .of_covers hj (.inl ⟨_, rfl⟩)
  | closed hg hp => exact hv.closed hp
  | unjoinedPanicked hg ho hp => exact hv.unjoined hp
  | unwatchedEnd => exact hv
  | watchdogJoined => exact hv.elim
  | watchdogPanicked => exact hv.elim
  | untold ht =>
    rw [hunwatched] at ht
    cases ht
  | _ => trivial

theorem Judges.mono (h : r.Judges s c) (hc : c.Cleared r.allGone)
    (hfate : ∀ {w b}, r.fate w = some b → r'.fate w = some b)
    (hback : r.allGone → ∀ {w b}, r'.fate w = some b → r.fate w = some b)
    (hproducers : r'.producers.size = r.producers.size)
    (hconsumers : r'.consumers.size = r.consumers.size) : r'.Judges s c := by
  have hverdict : ∀ {o}, r.allGone → r.Verdict s o → r'.Verdict s o := by
    intro o hg hv
    cases hv with
    | short h => exact .short (hproducers.trans_lt h)
    | clean ho h => exact .clean ho fun w hw => h w (hback hg hw)
    | one h hw => exact .one (hfate h) fun v hv => hw v (hback hg hv)
    | more hne hv hw => exact .more hne (hfate hv) (hfate hw)
  cases c with
  | close p q o =>
    refine ⟨fun w hw => ?_, ?_⟩
    · obtain ⟨b, hb, hblame⟩ := h.joined w hw
      exact ⟨b, hfate hb, hblame⟩
    · rw [hproducers, hconsumers]
      exact h.cause.imp_left fun ⟨w, ho, hw, hb⟩ => ⟨w, ho, hw, hfate hb⟩
  | dismiss o => exact hverdict hc h
  | ended o => exact hverdict hc h
  | spawnWatchdog => exact h
  | joinWatchdog o => exact h
  | _ => trivial

theorem Turn.judges (ht : Turn s r l r') (hunwatched : s.timeout = none) {initial : List Item}
    (ho : r.Orderly s initial) (h : r.Judges s r.caller) : r'.Judges s r'.caller := by
  have hhired := ho.counted.hired
  have hfate : ∀ {w b}, r.fate w = some b → r'.fate w = some b := ht.fate ho.queue
  have hback := fun hg hp hc {w b} => ht.fate_of_allGone ho.queue hg hp hc (w := w) (b := b)
  cases ht with
  | pass hp log hlog =>
    exact (hp.judges hunwatched hhired ho.joined h).mono (hp.cleared hhired ho.cleared) id
      (fun _ => id) rfl rfl
  | hireWatchdog => trivial
  | announce => trivial
  | hireConsumer => trivial
  | disarm hc =>
    rw [hc] at hhired
    exact .of_short (lt_of_eq_of_lt hhired s.config.producers.pos)
  | hireProducer => trivial
  | cancelRest => trivial
  | uncountRest hc =>
    rw [hc] at hhired
    exact .of_short (hhired.1.trans_lt hhired.2)
  | tell hc ht ho =>
    rw [hunwatched] at ht
    cases ht
  | consumer hc word =>
    exact h.mono ho.cleared hfate (hback · rfl (Array.size_setIfInBounds ..)) rfl
      (Array.size_setIfInBounds ..)
  | producer hp hne word =>
    exact h.mono ho.cleared hfate (hback · (Array.size_setIfInBounds ..) rfl)
      (Array.size_setIfInBounds ..) rfl
  | retire hp word =>
    exact h.mono ho.cleared hfate (hback · (Array.size_setIfInBounds ..) rfl)
      (Array.size_setIfInBounds ..) rfl
  | _ => exact h.mono ho.cleared id (fun _ => id) rfl rfl

theorem run_judges (hunwatched : s.timeout = none) {queue : Chain Item} (hq : queue.Sound)
    (stop : StopToken) (schedule : List Label) :
    ((start s queue stop).run s schedule).Judges s
      ((start s queue stop).run s schedule).caller := by
  refine (run_induction (P := fun r => r.Orderly s queue.toList ∧ r.Judges s r.caller)
    (fun ⟨ho, h⟩ ht => ⟨ho.turn ht, ht.judges hunwatched ho h⟩)
    ⟨start_orderly s hq stop, ?_⟩ schedule).2
  rw [start, hunwatched]
  trivial

/-- If exactly one worker has panicked, a run that is over returns an error with its name. If more
than one has panicked, the run has panicked itself. This takes in all schedules under which all
threads have been created; and a fair schedule brings the run to its end. -/
theorem run_reports_panics (hunwatched : s.timeout = none)
    (hcap : s.config.producers.val ≤ maxProducers) {queue : Chain Item} (hq : queue.Sound)
    (stop : StopToken) :
    (∀ schedule o, ((start s queue stop).run s schedule).outcome? = some o →
      ((start s queue stop).run s schedule).producers.size = s.config.producers.val →
      (∀ w, ((start s queue stop).run s schedule).fate w = some true →
        (∀ v, ((start s queue stop).run s schedule).fate v = some true → v = w) →
          ∃ e, o = .error e ∧ e.message = w.name ++ " panicked") ∧
      ∀ v w, v ≠ w → ((start s queue stop).run s schedule).fate v = some true →
        ((start s queue stop).run s schedule).fate w = some true → o = .panicked .scopedThread) ∧
      ∀ σ, Fair s (start s queue stop) σ → ∃ n, ((start s queue stop).after s σ n).outcome?.isSome := by
  refine ⟨fun schedule o ho hsize => ?_, fun σ hfair => hfair.ends hq hcap⟩
  have hj := run_judges hunwatched hq stop schedule
  generalize (start s queue stop).run s schedule = r at ho hsize hj
  rw [caller_of_outcome? ho] at hj
  have hverdict : r.Verdict s o := hj
  cases hverdict with
  | short h => exact absurd hsize h.ne
  | clean ho h => exact ⟨fun w hw _ => absurd hw (h w), fun v w _ hv _ => absurd hv (h v)⟩
  | one h hunique =>
    refine ⟨fun w hw _ => ⟨_, rfl, ?_⟩, fun v w hne hv hw => ?_⟩
    · rw [hunique w hw]
      rfl
    · exact absurd ((hunique v hv).trans (hunique w hw).symm) hne
  | more hne hv hw =>
    exact ⟨fun w _ hall => absurd ((hall _ hv).trans (hall _ hw).symm) hne, fun _ _ _ _ _ => rfl⟩

/-- One item, two consumers, and a pause before looking again that ends after the last reading of
the clock: a consumer that finds the queue empty while the producer is at work panics. -/
def impatient : Setup :=
  ⟨{ Config.burst 1 .one pair with
      pollInterval := { Duration.zero with secs := 9223372036854775808 } }, none, none, true⟩

def impatientBeginning : List Label :=
  List.replicate 7 Label.caller ++ List.replicate 3 (Label.consumer 0 0)

def oneImpatient : List Label :=
  impatientBeginning ++ List.replicate 6 (Label.producer 0 7) ++
    List.replicate 6 (Label.consumer 1 0) ++ List.replicate 5 Label.caller

def twoImpatient : List Label :=
  impatientBeginning ++ List.replicate 3 (Label.consumer 1 0) ++
    List.replicate 6 (Label.producer 0 7) ++ List.replicate 5 Label.caller

/-- A run in which one of two consumers panics returns an error, and the run ends under the schedule
in which all take turns. -/
theorem run_reports_panics_one :
    (∃ e, ((start impatient .empty .new).run impatient oneImpatient).outcome? = some (.error e) ∧
      e.message = "consumer-0 panicked") ∧
      ∃ n, ((start impatient .empty .new).after impatient dovetail n).outcome?.isSome := by
  obtain ⟨hreports, hends⟩ := run_reports_panics (s := impatient) rfl (by decide +kernel)
    Chain.empty_sound .new
  have ho : ((start impatient .empty .new).run impatient oneImpatient).outcome? =
      some (.error (.workerPanicked (.consumer 0))) := by
    decide +kernel
  have hsizes : ((start impatient .empty .new).run impatient oneImpatient).producers.size = 1 ∧
      ((start impatient .empty .new).run impatient oneImpatient).consumers.size = 2 := by
    decide +kernel
  have hfates :
      ((start impatient .empty .new).run impatient oneImpatient).fate (.producer 0) = some false ∧
      ((start impatient .empty .new).run impatient oneImpatient).fate (.consumer 0) = some true ∧
      ((start impatient .empty .new).run impatient oneImpatient).fate (.consumer 1) = some false := by
    decide +kernel
  obtain ⟨hp, hc, hc'⟩ := hfates
  have hunique : ∀ v, ((start impatient .empty .new).run impatient oneImpatient).fate v = some true →
      v = .consumer 0 := by
    intro v hv
    rcases fate_cases hv with ⟨i, exit, rfl, hi, -⟩ | ⟨i, c, exit, rfl, hi, -, -⟩
    · have hlt := (Array.getElem?_eq_some_iff.mp hi).1
      rw [hsizes.1, Nat.lt_one_iff] at hlt
      subst hlt
      rw [hp] at hv
      cases hv
    · have hlt := (Array.getElem?_eq_some_iff.mp hi).1
      rw [hsizes.2] at hlt
      match i, hlt with
      | 0, _ => rfl
      | 1, _ =>
        rw [hc'] at hv
        cases hv
  obtain ⟨e, he, hmessage⟩ := (hreports _ _ ho hsizes.1).1 _ hc hunique
  exact ⟨⟨e, ho.trans (congrArg some he), hmessage⟩, hends _ (dovetail_fair _ _)⟩

/-- All threads have been created and both consumers have panicked, but the run does not return an
error with the name of the first: it panics. -/
theorem run_panics_after_two :
    ((start impatient .empty .new).run impatient twoImpatient).producers.size =
        impatient.config.producers.val ∧
      ((start impatient .empty .new).run impatient twoImpatient).consumers.size =
        impatient.config.consumers.val ∧
      ((start impatient .empty .new).run impatient twoImpatient).fate (.producer 0) = some false ∧
      ((start impatient .empty .new).run impatient twoImpatient).fate (.consumer 0) = some true ∧
      ((start impatient .empty .new).run impatient twoImpatient).fate (.consumer 1) = some true ∧
      ((start impatient .empty .new).run impatient twoImpatient).outcome? =
        some (.panicked .scopedThread) ∧
      ((start impatient .empty .new).run impatient twoImpatient).outcome? ≠
        some (.error (.workerPanicked (.consumer 0))) := by
  decide +kernel

end Race

end QueueRace
