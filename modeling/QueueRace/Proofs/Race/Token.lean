import QueueRace.Proofs.Race.Clock

/-! Who cancels the token of a run: somebody else, the watchdog when its time has run out, or the
caller when it cannot create a producer. The workers only read it. -/

namespace QueueRace

namespace Race

variable {s : Setup} {r r' : Race} {l : Label}

theorem run_append (s : Setup) (r : Race) (earlier later : List Label) :
    r.run s (earlier ++ later) = (r.run s earlier).run s later :=
  List.foldl_append

/-- The clock does not go back. -/
theorem run_now_le {initial : List Item} (h : r.Sound s initial) (schedule : List Label) :
    r.arena.now ≤ (r.run s schedule).arena.now :=
  (run_induction (P := fun r' => r'.Sound s initial ∧ r.arena.now ≤ r'.arena.now)
    (fun ⟨hsound, hle⟩ ht => ⟨hsound.turn ht, hle.trans (ht.now_le hsound.queue)⟩)
    ⟨h, le_rfl⟩ schedule).2

/-! ### Single steps -/

/-- What a step does to the token: nothing, or somebody cancels it. -/
theorem Turn.stop_cases (ht : Turn s r l r') (hq : r.arena.queue.Sound) :
    r'.arena.stop = r.arena.stop ∨ r'.arena.stop = { r.arena.stop with cancelled := true } ∧
      (l = .cancel ∨ l = .watchdog ∧ r.watchdog = some .cancel ∨
        ∃ i e, r.caller = .cancelRest i e) := by
  cases ht with
  | cancel => exact .inr ⟨rfl, .inl rfl⟩
  | expire hv => exact .inr ⟨rfl, .inr (.inl ⟨rfl, hv⟩)⟩
  | cancelRest hc => exact .inr ⟨rfl, .inr (.inr ⟨_, _, hc⟩)⟩
  | consumer hc word => exact .inl (Consumer.advance_outcome hq _ _ word _).stop
  | producer hp hne word => exact .inl (Producer.step_outcome hq _ _ word _).stop
  | _ => exact .inl rfl

/-- A token that is cancelled stays so. -/
theorem Turn.keeps_cancelled (ht : Turn s r l r') (hq : r.arena.queue.Sound)
    (h : r.arena.stop.cancelled) : r'.arena.stop.cancelled := by
  rcases ht.stop_cases hq with hsame | ⟨hcancel, -⟩
  · rwa [hsame]
  · rw [hcancel]

/-- The four ways to find the token cancelled after a step. -/
theorem Turn.cancelled_cases (ht : Turn s r l r') (hq : r.arena.queue.Sound)
    (h : r'.arena.stop.cancelled) :
    r.arena.stop.cancelled ∨ l = .cancel ∨ r.watchdog = some .cancel ∨
      ∃ i e, r.caller = .cancelRest i e := by
  rcases ht.stop_cases hq with hsame | ⟨-, hwho⟩
  · rw [hsame] at h
    exact .inl h
  · exact .inr (hwho.imp_right (.imp_left And.right))

theorem Turn.poisoned (ht : Turn s r l r') (hq : r.arena.queue.Sound) :
    r'.arena.stop.poisoned = r.arena.stop.poisoned := by
  rcases ht.stop_cases hq with hsame | ⟨hcancel, -⟩
  · rw [hsame]
  · rw [hcancel]

/-! ### The watchdog -/

/-- The watchdog's time runs out before it is told that the run is over. -/
def Elapses (s : Setup) (r : Race) (schedule : List Label) : Prop :=
  ∃ earlier, earlier <+: schedule ∧ (r.run s earlier).watchdog = some .check

theorem Elapses.append {schedule : List Label} (h : Elapses s r schedule) (l : Label) :
    Elapses s r (schedule ++ [l]) := by
  obtain ⟨earlier, hearlier, hw⟩ := h
  exact ⟨earlier, hearlier.trans (List.prefix_append _ _), hw⟩

/-- A watchdog that warns or cancels has been at the point at which its time is over. -/
theorem Turn.watchdog_late (ht : Turn s r l r')
    (h : r'.watchdog = some .warn ∨ r'.watchdog = some .cancel) :
    r.watchdog = some .check ∨ r.watchdog = some .warn ∨ r.watchdog = some .cancel := by
  cases ht with
  | watch hv hw log =>
    cases hw with
    | warns => exact .inl hv
    | goes => exact .inr (.inl hv)
    | _ => rcases h with h | h <;> cases h
  | expire hv => exact .inr (.inr hv)
  | hireWatchdog => rcases h with h | h <;> cases h
  | _ => exact .inr h

theorem elapses_of_late (s : Setup) (queue : Chain Item) (stop : StopToken) (schedule : List Label)
    (h : ((start s queue stop).run s schedule).watchdog = some .warn ∨
      ((start s queue stop).run s schedule).watchdog = some .cancel) :
    Elapses s (start s queue stop) schedule := by
  induction schedule using List.reverseRecOn with
  | nil => rcases h with h | h <;> cases h
  | append_singleton schedule l ih =>
    rw [run_append] at h
    rcases (step_turn s _ l).watchdog_late h with hcheck | hlate
    · exact ⟨schedule, List.prefix_append _ _, hcheck⟩
    · exact (ih hlate).append l

/-! ### Whole runs -/

theorem run_poisoned {initial : List Item} (h : r.Sound s initial) (schedule : List Label) :
    (r.run s schedule).arena.stop.poisoned = r.arena.stop.poisoned :=
  (run_induction
    (P := fun r' => r'.Sound s initial ∧ r'.arena.stop.poisoned = r.arena.stop.poisoned)
    (fun ⟨hsound, hp⟩ ht => ⟨hsound.turn ht, (ht.poisoned hsound.queue).trans hp⟩)
    ⟨h, rfl⟩ schedule).2

theorem run_keeps_cancelled {initial : List Item} (h : r.Sound s initial)
    (hc : r.arena.stop.cancelled) (schedule : List Label) :
    (r.run s schedule).arena.stop.cancelled :=
  (run_induction (P := fun r => r.Sound s initial ∧ r.arena.stop.cancelled)
    (fun ⟨hsound, hc⟩ ht => ⟨hsound.turn ht, ht.keeps_cancelled hsound.queue hc⟩)
    ⟨h, hc⟩ schedule).2

theorem run_cancelled_of_mem {queue : Chain Item} (hq : queue.Sound) (stop : StopToken)
    {schedule : List Label} (h : .cancel ∈ schedule) :
    ((start s queue stop).run s schedule).arena.stop.cancelled := by
  obtain ⟨earlier, later, rfl⟩ := List.append_of_mem h
  rw [run_append]
  exact run_keeps_cancelled ((run_sound s hq stop earlier).turn .cancel) rfl later

/-- Where the token is cancelled at the end, one of the four has done it. -/
theorem run_cancelled_cases {queue : Chain Item} (hq : queue.Sound) (stop : StopToken)
    {schedule : List Label} (h : ((start s queue stop).run s schedule).arena.stop.cancelled) :
    stop.cancelled ∨ .cancel ∈ schedule ∨ Elapses s (start s queue stop) schedule ∨
      ∃ earlier, earlier <+: schedule ∧
        ∃ i e, ((start s queue stop).run s earlier).caller = .cancelRest i e := by
  induction schedule using List.reverseRecOn with
  | nil => exact .inl h
  | append_singleton schedule l ih =>
    rw [run_append] at h
    have hsound := run_sound s hq stop schedule
    rcases (step_turn s _ l).cancelled_cases hsound.queue h with hc | rfl | hw | hc
    · rcases ih hc with hstop | hmem | helapses | ⟨earlier, hearlier, hcaller⟩
      · exact .inl hstop
      · exact .inr (.inl (List.mem_append_left _ hmem))
      · exact .inr (.inr (.inl (helapses.append l)))
      · exact .inr (.inr (.inr ⟨earlier, hearlier.trans (List.prefix_append _ _), hcaller⟩))
    · exact .inr (.inl (List.mem_append_right _ (List.mem_singleton_self _)))
    · exact .inr (.inr (.inl ((elapses_of_late s queue stop schedule (.inr hw)).append l)))
    · exact .inr (.inr (.inr ⟨schedule, List.prefix_append _ _, hc⟩))

end Race

end QueueRace
