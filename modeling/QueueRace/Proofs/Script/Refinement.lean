import QueueRace.Proofs.Chain.Alone
import QueueRace.Proofs.Script.Ledger
import QueueRace.Proofs.Slots

/-! Scripts answer on queues what they answer on plain lists. The induction over scripts carries
that every queue lies in a layout, and that a queue which an enclosing step holds is still there
afterwards and has grown. The latter is what each suspended enqueuer waits for: with it, its last
step is as harmless as if it had been made at once. -/

namespace QueueRace

namespace Script

variable {α : Type}

/-- Inside an action that holds slot `q`. -/
def Scope.hold (scope : Scope) (q : Slot) : Scope := { scope with busy := q :: scope.busy }

namespace State

/-- The items of all queues. -/
def ledger (s : State α) : Ledger α := ⟨s.queues.map fun e => (e.1, e.2.toList), s.dropped⟩

/-- Where the body of a suspended enqueue begins. -/
def linked (s : State α) (q : Slot) (v : α) : State α := (s.update q fun c => c.link v).1

structure Sound (s : State α) : Prop where
  sorted : s.queues.Sorted
  queues : ∀ {q : Slot} {c : Chain α}, s.get? q = some c → c.Sound

theorem start_sound : (start : State α).Sound where
  sorted := List.pairwise_singleton _ _
  queues := by
    intro q c h
    rw [get?, start, Slots.get?_cons] at h
    split at h
    · obtain rfl := Option.some.inj h
      exact Chain.empty_sound
    · cases h

theorem ledger_get? (s : State α) (q : Slot) : s.ledger.get? q = (s.get? q).map Chain.toList :=
  Slots.get?_map _ _ _

theorem get?_set (s : State α) (q p : Slot) (c : Chain α) :
    (s.set q c).get? p = if p = q then some c else s.get? p :=
  Slots.get?_put _ _ _ _

theorem get?_set_self (s : State α) (q : Slot) (c : Chain α) : (s.set q c).get? q = some c := by
  rw [get?_set, if_pos rfl]

theorem ledger_set (s : State α) (q : Slot) (c : Chain α) :
    (s.set q c).ledger = s.ledger.set q c.toList := by
  simp only [ledger, set, Ledger.set, Slots.map_put]

section
variable {s s' s'' : State α} {l l' : Ledger α} {busy : List Slot} {q : Slot} {c c' : Chain α}

theorem Sound.set (h : s.Sound) (hc : c.Sound) : (s.set q c).Sound where
  sorted := h.sorted.put q c
  queues := by
    intro p b hb
    rw [get?_set] at hb
    split at hb
    · obtain rfl := Option.some.inj hb
      exact hc
    · exact h.queues hb

theorem update_none {β : Type} {f : Chain α → Chain α × β} (hq : s.get? q = none) :
    s.update q f = (s, none) := by
  simp only [update, hq]

theorem Sound.update_some {β : Type} (h : s.Sound) {f : Chain α → Chain α × β}
    (hq : s.get? q = some c) : s.update q f = (s.set q (f c).1, some (f c).2) := by
  simp only [update, hq, State.set, Slots.put_remove h.sorted]

theorem Sound.set_self (h : s.Sound) (hq : s.get? q = some c) : s.set q c = s := by
  rw [State.set, Slots.put_get? h.sorted hq]

theorem Sound.ledger_set_self (h : s.Sound) (hq : s.get? q = some c) :
    s.ledger.set q c.toList = s.ledger := by
  rw [← ledger_set, h.set_self hq]

theorem Sound.linked_eq (h : s.Sound) (hq : s.get? q = some c) (v : α) :
    s.linked q v = s.set q (c.link v).1 := by
  rw [linked, h.update_some hq]

theorem Sound.close (h : s.Sound) : s.close = s.ledger.lists := by
  refine List.map_congr_left fun e he => ?_
  have hc := h.queues (h.sorted.get?_of_mem he)
  exact congrArg (Prod.mk e.1) hc.drain

/-! ### What a step may do to the queues -/

/-- From `s` a step has come to `s'`, where the queues hold the lists of `l`. A queue that is busy
has only grown. -/
structure Leads (busy : List Slot) (s s' : State α) (l : Ledger α) : Prop where
  sound : s'.Sound
  grew : ∀ {p : Slot} {b : Chain α}, p ∈ busy → s.get? p = some b →
    ∃ b', s'.get? p = some b' ∧ b.Grew b'
  ledger : s'.ledger = l

namespace Leads

theorem refl (h : s.Sound) : Leads busy s s s.ledger :=
  ⟨h, fun _ hb => ⟨_, hb, .refl _⟩, rfl⟩

theorem trans (h : Leads busy s s' l) (h' : Leads busy s' s'' l') : Leads busy s s'' l' where
  sound := h'.sound
  grew hp hb := by
    obtain ⟨b', hb', g⟩ := h.grew hp hb
    obtain ⟨b'', hb'', g'⟩ := h'.grew hp hb'
    exact ⟨b'', hb'', g.trans g'⟩
  ledger := h'.ledger

theorem outer (h : Leads (q :: busy) s s' l) : Leads busy s s' l :=
  ⟨h.sound, fun hp hb => h.grew (List.mem_cons_of_mem _ hp) hb, h.ledger⟩

/-- Writes slot `q`. If it is busy, the queue written has to be grown from the one it began with. -/
theorem set (h : Leads busy s s' l) (hc : c'.Sound)
    (hg : q ∈ busy → ∀ {c}, s.get? q = some c → c.Grew c') :
    Leads busy s (s'.set q c') (l.set q c'.toList) where
  sound := h.sound.set hc
  grew := by
    intro p b hp hb
    rw [get?_set]
    split
    · subst p
      exact ⟨c', rfl, hg hp hb⟩
    · exact h.grew hp hb
  ledger := by rw [ledger_set, h.ledger]

/-- An operation on the queue of slot `q`. -/
theorem operate (h : s.Sound) (hq : s.get? q = some c) (hg : c.Grew c') :
    Leads busy s (s.set q c') (s.ledger.set q c'.toList) := by
  refine (refl h).set ((h.queues hq).grew hg) fun _ b hb => ?_
  obtain rfl := Option.some.inj (hq.symm.trans hb)
  exact hg

/-- An operation that changes no item. -/
theorem quiet (h : s.Sound) (hq : s.get? q = some c) (hg : c.Grew c')
    (hlist : c'.toList = c.toList) : Leads busy s (s.set q c') s.ledger := by
  rw [← h.ledger_set_self hq, ← hlist]
  exact operate h hq hg

/-- When its body has ended, a suspended enqueuer still finds its queue, and can make its last
step. -/
theorem exists_settle {v : α} (h : s.Sound) (hq : s.get? q = some c)
    (hbody : Leads (q :: busy) (s.linked q v) s' l) :
    ∃ c', s'.get? q = some c' ∧ (c.link v).1.Grew c' ∧
      (s'.update q fun b => (b.settle (c.link v).2, ())).1 = s'.set q (c'.settle (c.link v).2) := by
  rw [h.linked_eq hq] at hbody
  obtain ⟨c', hc', g⟩ := hbody.grew List.mem_cons_self (get?_set_self s q (c.link v).1)
  exact ⟨c', hc', g, by rw [hbody.sound.update_some hc']⟩

theorem destroy (h : Leads busy s s' l) (vs : List α) :
    Leads busy s (s'.destroy vs) (l.destroy vs) where
  sound := ⟨h.sound.sorted, h.sound.queues⟩
  grew := h.grew
  ledger := by rw [← h.ledger]; rfl

theorem drop (h : Leads busy s s' l) (hq : q ∉ busy) : Leads busy s (s'.drop q) (l.drop q) := by
  have hl : l.get? q = (s'.get? q).map Chain.toList := by rw [← h.ledger, ledger_get?]
  cases hc : s'.get? q with
  | none =>
    simp only [State.drop, Ledger.drop, hl, hc, Option.map_none]
    exact h
  | some c =>
    simp only [State.drop, Ledger.drop, hl, hc, Option.map_some, (h.sound.queues hc).drain]
    refine destroy ⟨⟨h.sound.sorted.remove q, ?_⟩, ?_, ?_⟩ _
    · intro p b hb
      rw [get?, Slots.get?_remove] at hb
      split at hb
      · cases hb
      · exact h.sound.queues hb
    · intro p b hp hb
      rw [get?, Slots.get?_remove, if_neg (fun hpq : p = q => hq (hpq ▸ hp))]
      exact h.grew hp hb
    · rw [← h.ledger]
      simp only [State.ledger, Slots.map_remove]

theorem replace (h : Leads busy s s' l) (hq : q ∉ busy) (hc : c.Sound) :
    Leads busy s (s'.replace q c) (l.replace q c.toList) :=
  (h.drop hq).set hc fun hb => absurd hb hq

/-- What is observed after a step is what the lists show. -/
theorem observe (h : Leads busy s s' l) (q : Slot) (reply : Reply α) :
    Leads busy s (s'.observe q reply).1 (l.observe q reply.forgetLag).1 ∧
      (s'.observe q reply).2.forgetLag = (l.observe q reply.forgetLag).2 := by
  obtain ⟨hs, hg, rfl⟩ := h
  refine ⟨⟨⟨hs.sorted, hs.queues⟩, hg, rfl⟩, ?_⟩
  simp only [State.observe, Ledger.observe, Observation.forgetLag, ledger_get?, Option.map_map]
  congr 1
  cases hq : s'.get? q with
  | none => rfl
  | some c => simp [(hs.queues hq).length]

end Leads

/-- A state and a reply stand for what plain lists make of the same step. -/
def Matches (busy : List Slot) (s : State α) (r : State α × Reply α) (r' : Ledger α × Reply α) :
    Prop :=
  Leads busy s r.1 r'.1 ∧ r.2.forgetLag = r'.2

end

end State

/-! ### Actions -/

section
variable {s : State α} {busy : List Slot} {q : Slot} {c : Chain α}

open State (Leads Matches)

/-- The dequeue of a script comes to its answer. -/
theorem popFrom_eq (h : s.Sound) (hq : s.get? q = some c) :
    popFrom s q = (s.set q c.dequeue.1, .popped c.toList.head?) := by
  obtain ⟨-, ha, -⟩ := (h.queues hq).dequeue
  simp only [popFrom, h.update_some hq, ha]

theorem popFrom_matches (h : s.Sound) (q : Slot) :
    Matches busy s (popFrom s q) (Ledger.popFrom s.ledger q) := by
  simp only [Ledger.popFrom, State.ledger_get?]
  cases hq : s.get? q with
  | none =>
    rw [popFrom, State.update_none hq]
    exact ⟨.refl h, rfl⟩
  | some c =>
    obtain ⟨g, -, hlist⟩ := (h.queues hq).dequeue
    rw [popFrom_eq h hq]
    simp only [Option.map_some, ← hlist]
    exact ⟨.operate h hq g, rfl⟩

/-- A queue made of what another one gives up. -/
theorem collectFrom_matches (h : s.Sound) (scope : Scope) (q origin : Slot) (limit : Option ℕ) :
    Matches scope.busy s (runAction scope q (.collectFrom origin limit) s)
      (Ledger.runAction scope q (.collectFrom origin limit) s.ledger) := by
  simp only [runAction, Ledger.runAction, State.ledger_get?]
  cases ho : s.get? origin with
  | none => exact ⟨.refl h, rfl⟩
  | some b =>
    by_cases hb : q ∈ scope.busy ∨ q = origin
    · simp only [Option.map_some, if_pos hb]
      exact ⟨.refl h, rfl⟩
    · have hs := h.queues ho
      obtain ⟨⟨g, g'⟩, hfrom, hto⟩ := hs.pour Chain.empty_sound (limit.getD b.bound)
      obtain ⟨htake, hdrop⟩ := hs.getD_bound limit
      have hnil : (Chain.empty : Chain α).toList = [] := rfl
      rw [hdrop] at hfrom
      rw [htake, hnil, List.nil_append] at hto
      simp only [Option.map_some, if_neg hb, ← hfrom, ← hto]
      exact ⟨(Leads.operate h ho g).replace (fun hq => hb (.inl hq)) (Chain.empty_sound.grew g'), rfl⟩

/-- Values go from one queue to another, or round in one queue. -/
theorem transfer_matches (h : s.Sound) (scope : Scope) (q origin : Slot) (limit : Option ℕ)
    (borrow : Borrow) :
    Matches scope.busy s (runAction scope q (.transfer origin limit borrow) s)
      (Ledger.runAction scope q (.transfer origin limit borrow) s.ledger) := by
  simp only [runAction, Ledger.runAction, State.ledger_get?]
  cases hq : s.get? q with
  | none => exact ⟨.refl h, rfl⟩
  | some c =>
    cases ho : s.get? origin with
    | none => exact ⟨.refl h, rfl⟩
    | some b =>
      have hc := h.queues hq
      have hs := h.queues ho
      simp only [Option.map_some]
      split
      · exact ⟨.refl h, rfl⟩
      · split
        · obtain ⟨g, hlist⟩ := hc.rotate (limit.getD c.length)
          rw [← hc.length, ← hlist]
          exact ⟨.operate h hq g, rfl⟩
        · rename_i hne
          obtain ⟨⟨g, g'⟩, hfrom, hto⟩ := hs.pour hc (limit.getD b.bound)
          obtain ⟨htake, hdrop⟩ := hs.getD_bound limit
          rw [hdrop] at hfrom
          rw [htake] at hto
          rw [← hfrom, ← hto]
          refine ⟨(Leads.operate h ho g).set (hc.grew g') fun _ c₀ hc₀ => ?_, rfl⟩
          obtain rfl := Option.some.inj (hq.symm.trans hc₀)
          exact g'

theorem runAction_suspend (h : s.Sound) (hq : s.get? q = some c) {scope : Scope} {v : α}
    {body : Script α} {abandon : Bool} :
    runAction scope q (.suspend v body abandon) s =
      (if abandon then (run (scope.hold q) body (s.linked q v)).1
        else ((run (scope.hold q) body (s.linked q v)).1.update q
          fun b => (b.settle (c.link v).2, ())).1,
        .suspended (run (scope.hold q) body (s.linked q v)).2 abandon) := by
  rw [runAction, h.linked_eq hq, h.update_some hq]
  cases abandon <;> rfl

/-- A suspended enqueuer: what ran in the meantime, and its last step if it is made. -/
theorem suspend_matches (h : s.Sound) {scope : Scope} {q : Slot} {v : α} {body : Script α}
    {abandon : Bool}
    (ih : ∀ {s : State α}, s.Sound →
      Leads (q :: scope.busy) s (run (scope.hold q) body s).1
          (Ledger.run (scope.hold q) body s.ledger).1 ∧
        Observation.forgetLags (run (scope.hold q) body s).2 =
          (Ledger.run (scope.hold q) body s.ledger).2) :
    Matches scope.busy s (runAction scope q (.suspend v body abandon) s)
      (Ledger.runAction scope q (.suspend v body abandon) s.ledger) := by
  rw [Ledger.runAction, State.ledger_get?]
  cases hq : s.get? q with
  | none =>
    rw [runAction, State.update_none hq]
    exact ⟨.refl h, rfl⟩
  | some c =>
    obtain ⟨g, hlist⟩ := (h.queues hq).link v
    have hlinked : Leads scope.busy s (s.linked q v) (s.ledger.set q (c.toList ++ [v])) := by
      rw [h.linked_eq hq, ← hlist]
      exact .operate h hq g
    obtain ⟨hbody, hinner⟩ := ih hlinked.sound
    rw [hlinked.ledger] at hbody hinner
    obtain ⟨c', hc', g', hlast⟩ := hbody.exists_settle h hq
    have hboth := hlinked.trans hbody.outer
    rw [runAction_suspend h hq, hlast]
    refine ⟨?_, (Reply.forgetLag.eq_def _).trans (congrArg (Reply.suspended · abandon) hinner)⟩
    cases abandon with
    | true => exact hboth
    | false =>
      obtain ⟨hsettle, hsame⟩ := (h.queues hq).settle v g'
      have hquiet := hboth.trans (.quiet hboth.sound hc' hsettle hsame)
      rw [hboth.ledger] at hquiet
      exact hquiet

end

mutual

/-- Every step does to queues, and answers, what it does on lists. -/
theorem runAction_matches :
    ∀ (action : Action α) (scope : Scope) (q : Slot) {s : State α}, s.Sound →
      State.Matches scope.busy s (runAction scope q action s)
        (Ledger.runAction scope q action s.ledger)
  | .renew, scope, q, s, h => by
    simp only [runAction, Ledger.runAction]
    split
    · exact ⟨.refl h, rfl⟩
    · rename_i hq
      exact ⟨State.Leads.replace (.refl h) hq Chain.empty_sound, rfl⟩
  | .collect source, scope, q, s, h => by
    obtain ⟨hs, hlist⟩ := Chain.ofList_sound source.yielded
    simp only [runAction, Ledger.runAction]
    split
    · exact ⟨.refl h, rfl⟩
    · rename_i hq
      split
      · rw [hs.drain, hlist]
        exact ⟨State.Leads.destroy (.refl h) _, rfl⟩
      · have := State.Leads.replace (.refl h) hq hs
        rw [hlist] at this
        exact ⟨this, rfl⟩
  | .collectFrom origin limit, scope, q, s, h => collectFrom_matches h scope q origin limit
  | .next, scope, q, s, h => by
    simp only [runAction, Ledger.runAction]
    cases scope.iterated with
    | nil => exact ⟨.refl h, rfl⟩
    | cons p ps => exact popFrom_matches h p
  | .sizeHint, scope, q, s, h => by
    simp only [runAction, Ledger.runAction]
    split <;> exact ⟨.refl h, rfl⟩
  | .enqueue v, scope, q, s, h => by
    simp only [runAction, Ledger.runAction, State.ledger_get?]
    cases hq : s.get? q with
    | none =>
      rw [State.update_none hq]
      exact ⟨.refl h, rfl⟩
    | some c =>
      obtain ⟨g, hlist⟩ := (h.queues hq).enqueue v
      rw [h.update_some hq]
      simp only [Option.map_some, ← hlist]
      exact ⟨.operate h hq g, rfl⟩
  | .suspend v body abandon, scope, q, s, h =>
    suspend_matches h fun hs => run_matches body (scope.hold q) hs
  | .dequeue, scope, q, s, h => by
    rw [runAction, Ledger.runAction]
    exact popFrom_matches h q
  | .discard, scope, q, s, h => by
    simp only [runAction, Ledger.runAction, State.ledger_get?]
    cases hq : s.get? q with
    | none =>
      rw [State.update_none hq]
      exact ⟨.refl h, rfl⟩
    | some c =>
      rcases (h.queues hq).dequeue_cases with ⟨c', hd, g, hnil, hnil'⟩ | ⟨c', v, hd, g, hlist⟩
      · simp only [h.update_some hq, hd, Option.map_some, hnil]
        exact ⟨.quiet h hq g (hnil'.trans hnil.symm), rfl⟩
      · simp only [h.update_some hq, hd, Option.map_some, hlist]
        exact ⟨(State.Leads.operate h hq g).destroy [v], rfl⟩
  | .isEmpty, scope, q, s, h => by
    simp only [runAction, Ledger.runAction, State.ledger_get?]
    cases hq : s.get? q with
    | none => exact ⟨.refl h, rfl⟩
    | some c =>
      simp only [Option.map_some, (h.queues hq).isEmpty]
      exact ⟨.refl h, rfl⟩
  | .extend source borrow, scope, q, s, h => by
    simp only [runAction, Ledger.runAction, State.ledger_get?]
    cases hq : s.get? q with
    | none => exact ⟨.refl h, rfl⟩
    | some c =>
      obtain ⟨g, hlist⟩ := (h.queues hq).extend source.yielded
      simp only [Option.map_some]
      split
      · exact ⟨.refl h, rfl⟩
      · rw [h.update_some hq, ← hlist]
        refine ⟨.operate h hq g, ?_⟩
        split <;> rfl
  | .transfer origin limit borrow, scope, q, s, h => transfer_matches h scope q origin limit borrow
  | .takeUpTo limit, scope, q, s, h => by
    simp only [runAction, Ledger.runAction, State.ledger_get?]
    cases hq : s.get? q with
    | none =>
      rw [State.update_none hq]
      exact ⟨.refl h, rfl⟩
    | some c =>
      have hc := h.queues hq
      obtain ⟨g, hrest, htaken⟩ := hc.takeUpTo (limit.getD c.bound)
      obtain ⟨htake, hdrop⟩ := hc.getD_bound limit
      rw [hdrop] at hrest
      rw [htake] at htaken
      rw [h.update_some hq, htaken]
      simp only [Option.map_some, ← hrest]
      exact ⟨.operate h hq g, rfl⟩
  | .iterate body, scope, q, s, h => by
    simp only [runAction, Ledger.runAction, State.ledger_get?]
    cases hq : s.get? q with
    | none => exact ⟨.refl h, rfl⟩
    | some c =>
      obtain ⟨hbody, hinner⟩ := run_matches body ⟨q :: scope.busy, q :: scope.iterated⟩ h
      refine ⟨hbody.outer, ?_⟩
      simp only [Reply.forgetLag, hinner]
      rfl
  | .debug, scope, q, s, h => by
    simp only [runAction, Ledger.runAction, State.ledger_get?, Option.isNone_map]
    split <;> exact ⟨.refl h, rfl⟩
  | .drop, scope, q, s, h => by
    simp only [runAction, Ledger.runAction, State.ledger_get?]
    cases hq : s.get? q with
    | none => exact ⟨.refl h, rfl⟩
    | some c =>
      simp only [Option.map_some]
      split
      · exact ⟨.refl h, rfl⟩
      · exact ⟨State.Leads.drop (.refl h) ‹_›, rfl⟩
  | .unknown, scope, q, s, h => by
    simp only [runAction, Ledger.runAction, State.ledger_get?, Option.isNone_map]
    exact ⟨.refl h, rfl⟩

theorem run_matches :
    ∀ (script : Script α) (scope : Scope) {s : State α}, s.Sound →
      State.Leads scope.busy s (run scope script s).1 (Ledger.run scope script s.ledger).1 ∧
        Observation.forgetLags (run scope script s).2 = (Ledger.run scope script s.ledger).2
  | .done, scope, s, h => ⟨.refl h, rfl⟩
  | .step q action rest, scope, s, h => by
    obtain ⟨hact, hreply⟩ := runAction_matches action scope q h
    obtain ⟨hobs, hshown⟩ := hact.observe q (runAction scope q action s).2
    obtain ⟨hrest, hothers⟩ := run_matches rest scope hobs.sound
    rw [hreply] at hobs hshown
    rw [hobs.ledger] at hrest hothers
    rw [run, Ledger.run]
    exact ⟨hobs.trans hrest, congrArg₂ List.cons hshown hothers⟩

end

theorem runAlone_eq_ledger (script : Script α) :
    Observation.forgetLags (runAlone script).1 = (Ledger.runAlone script).1 ∧
      (runAlone script).2 = (Ledger.runAlone script).2 := by
  obtain ⟨hleads, hshown⟩ := run_matches script ⟨[], []⟩ (State.start_sound (α := α))
  have hstart : (State.start : State α).ledger = .start := rfl
  rw [hstart] at hleads hshown
  exact ⟨hshown, hleads.sound.close.trans (congrArg Ledger.lists hleads.ledger)⟩

/-- A script on a new queue answers what it answers on an empty list, sizes and destroyed values
included, and the queues hold at the end what the lists hold. How far `tail` lags is left out.
Whether its suspended enqueuers make their last steps or are abandoned shows in nothing but the
answers that say so. -/
theorem runAlone_refines (script : Script α) :
    (Observation.forgetLags (runAlone script).1 = (Ledger.runAlone script).1 ∧
      (runAlone script).2 = (Ledger.runAlone script).2) ∧
    Observation.forgetFates (Observation.forgetLags (runAlone script.resume).1) =
      Observation.forgetFates (Observation.forgetLags (runAlone script).1) ∧
    (runAlone script.resume).2 = (runAlone script).2 := by
  obtain ⟨hshown, hleft⟩ := runAlone_eq_ledger script
  obtain ⟨hshown', hleft'⟩ := runAlone_eq_ledger script.resume
  obtain ⟨hsame, hfates⟩ := Ledger.run_resume script ⟨[], []⟩ (Ledger.start : Ledger α)
  refine ⟨⟨hshown, hleft⟩, ?_, ?_⟩
  · rw [hshown', hshown]
    exact hfates
  · rw [hleft', hleft]
    exact congrArg Ledger.lists hsame

end Script

end QueueRace
