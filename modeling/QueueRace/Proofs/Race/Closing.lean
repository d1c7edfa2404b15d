import QueueRace.Proofs.Race.Conservation

/-! What has ended when a run has ended: all workers that were created, and the watchdog, if there
is one. -/

namespace QueueRace

namespace Caller

/-- Behind the point at which the caller waits for all workers, they are gone. -/
def Cleared (gone : Prop) : Caller → Prop
  | .dismiss _ | .joinWatchdog _ | .ended _ => gone
  | _ => True

/-- Whether there is a watchdog, and whether it has ended. -/
def Watched (timeout : Option Duration) (watchdog : Option Watchdog) : Caller → Prop
  | .spawnWatchdog => timeout.isSome ∧ watchdog = none
  | .joinWatchdog _ => timeout.isSome ∧ watchdog.isSome
  | .ended _ => ∀ w, watchdog = some w → w.Over
  | _ => watchdog.isSome = timeout.isSome

variable {c : Caller}

theorem Cleared.mono {gone gone' : Prop} (h : c.Cleared gone) (hg : gone → gone') :
    c.Cleared gone' := by
  cases c with
  | dismiss o => exact hg h
  | joinWatchdog o => exact hg h
  | ended o => exact hg h
  | _ => trivial

/-- What a watchdog does that goes on makes no difference. -/
theorem Watched.move {timeout : Option Duration} {v w : Watchdog}
    (h : c.Watched timeout (some v)) (hv : ¬ v.Over) : c.Watched timeout (some w) := by
  cases c with
  | spawnWatchdog => cases h.2
  | ended o => exact absurd (h v rfl) hv
  | joinWatchdog o => exact ⟨h.1, rfl⟩
  | _ => exact h

/-- There is no watchdog without a timeout, unless it has ended. -/
theorem Watched.over {w : Watchdog} (h : c.Watched none (some w)) : w.Over := by
  cases c with
  | ended o => exact h w rfl
  | spawnWatchdog => cases h.2
  | joinWatchdog o => cases h.1
  | _ => cases h

end Caller

theorem Watchdog.Over.not_watches {s : Setup} {r : Race} {v w : Watchdog} (h : v.Over) :
    ¬ Race.Watches s r v w := by
  intro hw
  cases hw with
  | told hv => rcases hv with rfl | ⟨deadline, rfl⟩ <;> exact h
  | timesOut hf hv => rcases hv with rfl | ⟨deadline, rfl, -⟩ <;> exact h
  | _ => exact h

namespace Race

variable {s : Setup} {r r' : Race} {l : Label} {c c' : Caller}

/-! ### All workers are gone -/

theorem allGone_iff : r.allGone ↔
    (∀ (i : ℕ) (th : ProducerThread), r.producers[i]? = some th → ∃ exit, th = .gone exit) ∧
      ∀ (i : ℕ) (c : Consumer), r.consumers[i]? = some c → ∃ exit, c.exit? = some exit := by
  simp only [allGone, Bool.and_eq_true, Array.all_eq_true, Option.isSome_iff_exists]
  refine and_congr ⟨fun h i th hi => ?_, fun h i hi => ?_⟩ ⟨fun h i c hi => ?_, fun h i hi => ?_⟩
  · obtain ⟨hlt, rfl⟩ := Array.getElem?_eq_some_iff.mp hi
    obtain ⟨exit, he⟩ := h i hlt
    cases hth : r.producers[i] with
    | running p =>
      rw [hth] at he
      cases he
    | gone exit => exact ⟨exit, rfl⟩
  · obtain ⟨exit, he⟩ := h i _ (Array.getElem?_eq_getElem hi)
    exact ⟨exit, by rw [he]; rfl⟩
  · obtain ⟨hlt, rfl⟩ := Array.getElem?_eq_some_iff.mp hi
    exact h i hlt
  · exact h i _ (Array.getElem?_eq_getElem hi)

/-- Workers that are gone stay gone, as long as no more are created. -/
theorem Turn.allGone (ht : Turn s r l r') (hq : r.arena.queue.Sound)
    (hp : r'.producers.size = r.producers.size) (hc : r'.consumers.size = r.consumers.size)
    (h : r.allGone) : r'.allGone := by
  obtain ⟨hproducers, hconsumers⟩ := allGone_iff.mp h
  refine allGone_iff.mpr ⟨fun i th hi => ?_, fun i c hi => ?_⟩
  · have hlt := (Array.getElem?_eq_some_iff.mp hi).1
    rw [hp] at hlt
    obtain ⟨exit, he⟩ := hproducers i _ (Array.getElem?_eq_getElem hlt)
    have hgone := ht.gone ((Array.getElem?_eq_getElem hlt).trans (congrArg some he))
    exact ⟨exit, Option.some.inj (hi.symm.trans hgone)⟩
  · have hlt := (Array.getElem?_eq_some_iff.mp hi).1
    rw [hc] at hlt
    obtain ⟨exit, he⟩ := hconsumers i _ (Array.getElem?_eq_getElem hlt)
    obtain ⟨c', hc', he'⟩ := ht.exited hq (Array.getElem?_eq_getElem hlt) he
    obtain rfl := Option.some.inj (hi.symm.trans hc')
    exact ⟨exit, he'⟩

theorem allGone_of_size_eq_zero (hc : r.consumers.size = 0) (hp : r.producers.size = 0) :
    r.allGone := by
  simp [allGone, Array.eq_empty_of_size_eq_zero hc, Array.eq_empty_of_size_eq_zero hp]

theorem Passes.cleared (h : Passes s r c c')
    (hh : c.Hired s.config.consumers.val s.config.producers.val r.consumers.size r.producers.size)
    (hc : c.Cleared r.allGone) : c'.Cleared r.allGone := by
  cases h with
  | unwatched => exact allGone_of_size_eq_zero hh.1 hh.2
  | closed hg => exact hg
  | unjoinedPanicked hg => exact hg
  | unwatchedEnd => exact hc
  | untold => exact hc
  | watchdogJoined => exact hc
  | watchdogPanicked => exact hc
  | _ => trivial

theorem Turn.cleared (ht : Turn s r l r') (hq : r.arena.queue.Sound) (hn : r.Counted s)
    (h : r.caller.Cleared r.allGone) : r'.caller.Cleared r'.allGone := by
  have hall := ht.allGone hq
  cases ht with
  | pass hp log => exact hp.cleared hn.hired h
  | hireWatchdog => trivial
  | announce => trivial
  | hireConsumer => trivial
  | disarm => trivial
  | hireProducer => trivial
  | cancelRest => trivial
  | uncountRest => trivial
  | tell hc ho =>
    rw [hc] at h
    exact h
  | consumer hc word => exact h.mono (hall rfl (Array.size_setIfInBounds ..))
  | producer hp hne word => exact h.mono (hall (Array.size_setIfInBounds ..) rfl)
  | retire hp word => exact h.mono (hall (Array.size_setIfInBounds ..) rfl)
  | _ => exact h

/-! ### The watchdog -/

theorem Passes.watched (h : Passes s r c c') (hc : c.Watched s.timeout r.watchdog) :
    c'.Watched s.timeout r.watchdog := by
  cases h with
  | unwatched hf =>
    intro w hw
    rw [hc.2] at hw
    cases hw
  | unwatchedEnd ht =>
    intro w hw
    have hsame : r.watchdog.isSome = s.timeout.isSome := hc
    rw [ht, hw] at hsame
    cases hsame
  | untold ht => exact ⟨ht, hc.trans ht⟩
  | watchdogJoined hw =>
    rintro w hsome
    rcases hw with hw | ⟨hw, -⟩ <;>
    · obtain rfl := Option.some.inj (hsome.symm.trans hw)
      trivial
  | watchdogPanicked ho hw =>
    rintro w hsome
    obtain rfl := Option.some.inj (hsome.symm.trans hw)
    trivial
  | _ => exact hc

theorem Turn.watched (ht : Turn s r l r') (h : r.caller.Watched s.timeout r.watchdog) :
    r'.caller.Watched s.timeout r'.watchdog := by
  cases ht with
  | watch hv hw log =>
    rw [hv] at h
    exact h.move fun hover => hover.not_watches hw
  | expire hv =>
    rw [hv] at h
    exact h.move id
  | pass hp log => exact hp.watched h
  | hireWatchdog hc hf =>
    rw [hc] at h
    exact h.1.symm
  | announce hc log =>
    rw [hc] at h
    exact h
  | hireConsumer hc hi hf =>
    rw [hc] at h
    exact h
  | disarm hc =>
    rw [hc] at h
    exact h
  | hireProducer hc hi hf =>
    rw [hc] at h
    exact h
  | cancelRest hc =>
    rw [hc] at h
    exact h
  | uncountRest hc =>
    rw [hc] at h
    exact h
  | tell hc ht ho =>
    rw [hc] at h
    exact ⟨ht, h.trans ht⟩
  | _ => exact h

/-! ### Whole runs -/

theorem caller_of_outcome? {o : Outcome} (h : r.outcome? = some o) : r.caller = .ended o := by
  rw [outcome?] at h
  split at h
  · rename_i hc
    rw [hc, Option.some.inj h]
  · cases h

structure Orderly (s : Setup) (initial : List Item) (r : Race) : Prop extends r.Sound s initial where
  cleared : r.caller.Cleared r.allGone
  watched : r.caller.Watched s.timeout r.watchdog

theorem start_orderly (s : Setup) {queue : Chain Item} (hq : queue.Sound) (stop : StopToken) :
    (start s queue stop).Orderly s queue.toList where
  toSound := start_sound s hq stop
  cleared := by
    simp only [start]
    split <;> trivial
  watched := by
    simp only [start]
    split
    · exact ⟨‹_›, rfl⟩
    · exact (Bool.eq_false_iff.mpr ‹_›).symm

theorem Orderly.turn {initial : List Item} (h : r.Orderly s initial) (ht : Turn s r l r') :
    r'.Orderly s initial where
  toSound := h.toSound.turn ht
  cleared := ht.cleared h.queue h.counted h.cleared
  watched := ht.watched h.watched

theorem run_orderly (s : Setup) {queue : Chain Item} (hq : queue.Sound) (stop : StopToken)
    (schedule : List Label) : ((start s queue stop).run s schedule).Orderly s queue.toList :=
  run_induction (fun h ht => h.turn ht) (start_orderly s hq stop) schedule

end Race

end QueueRace
