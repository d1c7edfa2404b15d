import QueueRace.Proofs.Chain.Lag
import QueueRace.Proofs.Script.Refinement

/-! The lag of `tail` in every state that a nested script passes through. What the last step of a
suspended enqueuer does depends on all that has run in the meantime: it moves `tail` unless somebody
else has, and if somebody else has, it does not look where `tail` is now. So a lag can outlive an
enqueue that was carried to its end, but only one that a nested, abandoned enqueuer has left. -/

namespace QueueRace

variable {α : Type}

open Script (Scope State run runAction)

namespace Script.State

/-- What is shown of the queue in slot `q`. -/
def size? (s : State α) (q : Slot) : Option Size := (s.get? q).map fun c => ⟨c.length, c.lag⟩

end Script.State

/-! ### The states inside a run -/

mutual

/-- The states between the nested steps of a step, with the scope of each. -/
def Action.passes (scope : Scope) (q : Slot) : Action α → State α → List (Scope × State α)
  | .suspend v body _, s =>
    match s.get? q with
    | none => []
    | some _ => body.passes { scope with busy := q :: scope.busy } (s.linked q v)
  | .iterate body, s =>
    match s.get? q with
    | none => []
    | some _ => body.passes ⟨q :: scope.busy, q :: scope.iterated⟩ s
  | _, _ => []

/-- The states between all steps of a script, nested ones included, from the first to the last. -/
def Script.passes (scope : Scope) : Script α → State α → List (Scope × State α)
  | .done, s => [(scope, s)]
  | .step q action rest, s =>
    let (s', reply) := runAction scope q action s
    (scope, s) :: (action.passes scope q s ++ rest.passes scope (s'.observe q reply).1)

end

/-- No step of a script moves the `tail` of the queue in slot `q`. -/
def Script.Unmoved (scope : Scope) (q : Slot) (script : Script α) (s : State α) : Prop :=
  ∀ e ∈ script.passes scope s, (e.2.get? q).map Chain.tail = (s.get? q).map Chain.tail

mutual

/-- Whether an enqueuer in slot `p` has been abandoned, according to the answers. -/
def Action.abandons (p q : Slot) : Action α → Reply α → Bool
  | .suspend _ body _, .suspended inner abandoned =>
    (abandoned && p == q) || body.abandons p inner
  | .iterate body, .iterated inner => body.abandons p inner
  | _, _ => false

def Script.abandons (p : Slot) : Script α → List (Observation α) → Bool
  | .step q action rest, .mk reply _ _ :: os => action.abandons p q reply || rest.abandons p os
  | _, _ => false

end

/-- The steps that are one dequeue from slot `q`. -/
inductive Action.Dequeues (scope : Scope) (q : Slot) : Slot → Action α → Prop
  | dequeue : Dequeues scope q q .dequeue
  | discard : Dequeues scope q q .discard
  | next {r : Slot} (h : scope.iterated.head? = some q) : Dequeues scope q r .next

namespace Script

namespace State

variable {s s' s'' : State α} {l : Ledger α} {busy : List Slot} {p q : Slot} {c c' : Chain α} {v : α}

theorem size?_eq_some {n k : ℕ} :
    s.size? q = some ⟨n, k⟩ ↔ ∃ c, s.get? q = some c ∧ c.length = n ∧ c.lag = k := by
  simp [size?]

theorem size?_of_get? (h : s.get? q = some c) : s.size? q = some ⟨c.length, c.lag⟩ := by
  rw [size?, h, Option.map_some]

theorem Leads.self (h : Leads busy s s' l) : Leads busy s s' s'.ledger := ⟨h.sound, h.grew, rfl⟩

theorem Leads.linked (busy : List Slot) (h : s.Sound) (hq : s.get? q = some c) (v : α) :
    Leads busy s (s.linked q v) (s.linked q v).ledger := by
  rw [h.linked_eq hq]
  exact (Leads.operate h hq ((h.queues hq).link v).1).self

/-! ### States that leave no lag of their own -/

/-- A lag that the queue in slot `p` has in `s'` is the one it had in `s`. -/
def Tidies (p : Slot) (s s' : State α) : Prop :=
  ∀ b, s.get? p = some b → ∃ b', s'.get? p = some b' ∧ b.Tidies b'

namespace Tidies

theorem refl (p : Slot) (s : State α) : Tidies p s s := fun b hb => ⟨b, hb, .refl b⟩

theorem trans (h : Tidies p s s') (h' : Tidies p s' s'') : Tidies p s s'' := by
  intro b hb
  obtain ⟨b', hb', ht⟩ := h b hb
  obtain ⟨b'', hb'', ht'⟩ := h' b' hb'
  exact ⟨b'', hb'', ht.trans ht'⟩

/-- Writes slot `q`. -/
theorem set (h : Tidies p s s') (hc : p = q → ∀ {b}, s.get? p = some b → b.Tidies c') :
    Tidies p s (s'.set q c') := by
  intro b hb
  rw [get?_set]
  split
  · exact ⟨c', rfl, hc ‹_› hb⟩
  · exact h b hb

theorem operate (hq : s.get? q = some c) (hc : c.Tidies c') : Tidies p s (s.set q c') := by
  refine (refl p s).set fun hpq b hb => ?_
  obtain rfl := Option.some.inj ((hpq ▸ hq).symm.trans hb)
  exact hc

theorem drop (h : Tidies p s s') (hpq : p ≠ q) : Tidies p s (s'.drop q) := by
  intro b hb
  obtain ⟨b', hb', ht⟩ := h b hb
  refine ⟨b', ?_, ht⟩
  rw [State.drop]
  split
  · exact hb'
  · exact (Slots.get?_remove _ _ _).trans ((if_neg hpq).trans hb')

theorem replace (h : Tidies p s s') (hpq : p ≠ q) (c : Chain α) : Tidies p s (s'.replace q c) :=
  (h.drop hpq).set fun he => absurd he hpq

theorem destroy (h : Tidies p s s') (vs : List α) : Tidies p s (s'.destroy vs) := h

theorem observe (h : Tidies p s s') (q : Slot) (reply : Reply α) :
    Tidies p s (s'.observe q reply).1 := h

end Tidies

end State

open State (Leads)

section
variable {s : State α} {scope : Scope} {p q r : Slot} {c : Chain α} {v : α} {body : Script α}
  {abandon : Bool} {action : Action α}

/-! ### Single steps -/

/-- A dequeue writes its queue, and may destroy the value it has found. -/
theorem runAction_of_dequeues (hd : action.Dequeues scope q r) (hs : s.Sound)
    (hq : s.get? q = some c) :
    ∃ vs, (runAction scope r action s).1 = (s.set q c.dequeue.1).destroy vs ∧
      (c.dequeue.2 = .done none → vs = []) := by
  have hpop : (popFrom s q).1 = (s.set q c.dequeue.1).destroy [] := by
    rw [popFrom_eq hs hq, State.destroy, List.append_nil]
  cases hd with
  | dequeue => exact ⟨[], by rw [runAction, hpop], fun _ => rfl⟩
  | next hit =>
    obtain ⟨ps, hps⟩ := List.head?_eq_some_iff.mp hit
    exact ⟨[], by rw [runAction, hps, hpop], fun _ => rfl⟩
  | discard =>
    rw [runAction, hs.update_some hq]
    rcases (hs.queues hq).dequeue_cases with ⟨c', hc, -⟩ | ⟨c', w, hc, -⟩
    · rw [hc]
      exact ⟨[], by rw [State.destroy, List.append_nil], fun _ => rfl⟩
    · rw [hc]
      exact ⟨[w], rfl, nofun⟩

theorem popFrom_tidies (hs : s.Sound) (p q : Slot) : State.Tidies p s (popFrom s q).1 := by
  cases hq : s.get? q with
  | none =>
    rw [popFrom, State.update_none hq]
    exact .refl p s
  | some c =>
    rw [popFrom_eq hs hq]
    exact .operate hq (hs.queues hq).tidies_dequeue

/-- The lag of an enqueuer in slot `p` is gone in the end, unless it is abandoned. -/
theorem suspend_tidies (hs : s.Sound) (hq : s.get? q = some c)
    (hbody : State.Tidies p (s.linked q v)
      (run (scope.hold q) body (s.linked q v)).1)
    (ha : (abandon && p == q) = false) :
    State.Tidies p s (runAction scope q (.suspend v body abandon) s).1 := by
  have hlinked : p ≠ q → State.Tidies p s (s.linked q v) := by
    intro hpq
    rw [hs.linked_eq hq]
    exact (State.Tidies.refl p s).set fun he => absurd he hpq
  have hlead := (run_matches body (scope.hold q) (Leads.linked scope.busy hs hq v).sound).1
  obtain ⟨c', hc', g, hsettle⟩ := hlead.exists_settle hs hq
  rw [runAction_suspend hs hq, hsettle]
  cases abandon with
  | true =>
    have hpq : p ≠ q := by simpa using ha
    exact (hlinked hpq).trans hbody
  | false =>
    by_cases hpq : p = q
    · subst p
      have hbegin : (s.linked q v).get? q = some (c.link v).1 := by
        rw [hs.linked_eq hq, State.get?_set_self]
      obtain ⟨b', hb', ht⟩ := hbody _ hbegin
      obtain rfl := Option.some.inj (hb'.symm.trans hc')
      intro b hb
      exact ⟨_, State.get?_set_self _ _ _, .inl ((hs.queues hq).settle_tidies g ht)⟩
    · exact ((hlinked hpq).trans hbody).set fun he => absurd he hpq

end

/-! ### Whole runs -/

mutual

/-- Every state inside a step comes after its beginning and before its end. -/
theorem action_passes :
    ∀ (action : Action α) (scope : Scope) (q : Slot) {s : State α}, s.Sound →
      ∀ e ∈ action.passes scope q s, Leads scope.busy s e.2 e.2.ledger ∧
        Leads scope.busy e.2 (runAction scope q action s).1 (runAction scope q action s).1.ledger
  | .suspend v body abandon, scope, q, s, hs => by
    intro e he
    rw [Action.passes] at he
    cases hq : s.get? q with
    | none =>
      rw [hq] at he
      cases he
    | some c =>
      rw [hq] at he
      have hlinked := Leads.linked scope.busy hs hq v
      obtain ⟨hto, hfrom⟩ := script_passes body (scope.hold q) hlinked.sound e he
      obtain ⟨c', hc', g, hsettle⟩ := (hto.trans hfrom).exists_settle hs hq
      refine ⟨hlinked.trans hto.outer, ?_⟩
      rw [runAction_suspend hs hq, hsettle]
      cases abandon with
      | true => exact hfrom.outer
      | false =>
        obtain ⟨gsettle, hsame⟩ := (hs.queues hq).settle v g
        exact (hfrom.outer.trans (.quiet hfrom.sound hc' gsettle hsame)).self
  | .iterate body, scope, q, s, hs => by
    intro e he
    rw [Action.passes] at he
    cases hq : s.get? q with
    | none =>
      rw [hq] at he
      cases he
    | some c =>
      rw [hq] at he
      obtain ⟨hto, hfrom⟩ := script_passes body ⟨q :: scope.busy, q :: scope.iterated⟩ hs e he
      rw [runAction, hq]
      exact ⟨hto.outer, hfrom.outer⟩
  | .renew, _, _, _, _ | .collect _, _, _, _, _ | .collectFrom _ _, _, _, _, _
  | .next, _, _, _, _ | .sizeHint, _, _, _, _ | .enqueue _, _, _, _, _ | .dequeue, _, _, _, _
  | .discard, _, _, _, _ | .isEmpty, _, _, _, _ | .extend _ _, _, _, _, _
  | .transfer _ _ _, _, _, _, _ | .takeUpTo _, _, _, _, _ | .debug, _, _, _, _
  | .drop, _, _, _, _ | .unknown, _, _, _, _ => List.forall_mem_nil _

theorem script_passes :
    ∀ (script : Script α) (scope : Scope) {s : State α}, s.Sound →
      ∀ e ∈ script.passes scope s, Leads scope.busy s e.2 e.2.ledger ∧
        Leads scope.busy e.2 (run scope script s).1 (run scope script s).1.ledger
  | .done, scope, s, hs => List.forall_mem_singleton.mpr ⟨.refl hs, .refl hs⟩
  | .step q action rest, scope, s, hs => by
    intro e he
    have hobs := ((runAction_matches action scope q hs).1.observe q
      (runAction scope q action s).2).1.self
    have hrest := (run_matches rest scope hobs.sound).1.self
    rw [run]
    rcases List.mem_cons.mp he with rfl | he
    · exact ⟨.refl hs, hobs.trans hrest⟩
    rcases List.mem_append.mp he with he | he
    · obtain ⟨hto, hfrom⟩ := action_passes action scope q hs e he
      exact ⟨hto, (hfrom.observe q (runAction scope q action s).2).1.trans hrest⟩
    · obtain ⟨hto, hfrom⟩ := script_passes rest scope hobs.sound e he
      exact ⟨hobs.trans hto, hfrom⟩

end

mutual

/-- A step that abandons no enqueuer in slot `p` leaves no lag of its own there. -/
theorem action_tidies {p : Slot} :
    ∀ (action : Action α) (scope : Scope) (q : Slot) {s : State α}, s.Sound → p ∈ scope.busy →
      action.abandons p q (runAction scope q action s).2 = false →
      State.Tidies p s (runAction scope q action s).1
  | .renew, scope, q, s, hs, hp, _ => by
    rw [runAction]
    split
    · exact .refl p s
    · exact (State.Tidies.refl p s).replace (ne_of_mem_of_not_mem hp ‹_›) _
  | .collect source, scope, q, s, hs, hp, _ => by
    rw [runAction]
    split
    · exact .refl p s
    · dsimp only
      split
      · exact (State.Tidies.refl p s).destroy _
      · exact (State.Tidies.refl p s).replace (ne_of_mem_of_not_mem hp ‹_›) _
  | .collectFrom origin limit, scope, q, s, hs, hp, _ => by
    rw [runAction]
    cases ho : s.get? origin with
    | none => exact .refl p s
    | some b =>
      dsimp only
      split
      · exact .refl p s
      · rename_i hbusy
        have htidy := (hs.queues ho).tidies_pour Chain.empty_sound (limit.getD b.bound)
        exact (State.Tidies.operate ho htidy.1).replace
          (ne_of_mem_of_not_mem hp fun hq => hbusy (.inl hq)) _
  | .next, scope, q, s, hs, _, _ => by
    rw [runAction]
    cases scope.iterated with
    | nil => exact .refl p s
    | cons r rs => exact popFrom_tidies hs p r
  | .sizeHint, _, _, s, _, _, _ => .refl p s
  | .enqueue v, scope, q, s, hs, _, _ => by
    rw [runAction]
    cases hq : s.get? q with
    | none =>
      rw [State.update_none hq]
      exact .refl p s
    | some c =>
      rw [hs.update_some hq]
      exact .operate hq ((hs.queues hq).tidies_enqueue v)
  | .suspend v body abandon, scope, q, s, hs, hp, ha => by
    cases hq : s.get? q with
    | none =>
      rw [runAction, State.update_none hq]
      exact .refl p s
    | some c =>
      rw [runAction_suspend hs hq, Action.abandons, Bool.or_eq_false_iff] at ha
      have hlinked := Leads.linked scope.busy hs hq v
      exact suspend_tidies hs hq
        (script_tidies body (scope.hold q) hlinked.sound (List.mem_cons_of_mem _ hp) ha.2) ha.1
  | .dequeue, scope, q, s, hs, _, _ => popFrom_tidies hs p q
  | .discard, scope, q, s, hs, _, _ => by
    rw [runAction]
    cases hq : s.get? q with
    | none =>
      rw [State.update_none hq]
      exact .refl p s
    | some c =>
      rw [hs.update_some hq]
      have htidy := State.Tidies.operate (p := p) hq (hs.queues hq).tidies_dequeue
      rcases (hs.queues hq).dequeue_cases with ⟨c', hd, -⟩ | ⟨c', w, hd, -⟩
      · rw [hd] at htidy ⊢
        exact htidy
      · rw [hd] at htidy ⊢
        exact htidy.destroy [w]
  | .isEmpty, scope, q, s, _, _, _ => by
    rw [runAction]
    cases s.get? q <;> exact .refl p s
  | .extend source borrow, scope, q, s, hs, _, _ => by
    rw [runAction]
    cases hq : s.get? q with
    | none => exact .refl p s
    | some c =>
      dsimp only
      rw [hs.update_some hq]
      split
      · exact .refl p s
      · exact .operate hq ((hs.queues hq).tidies_extend source.yielded)
  | .transfer origin limit borrow, scope, q, s, hs, _, _ => by
    rw [runAction]
    cases hq : s.get? q with
    | none => exact .refl p s
    | some c =>
      cases ho : s.get? origin with
      | none => exact .refl p s
      | some b =>
        dsimp only
        split
        · exact .refl p s
        · split
          · exact .operate hq ((hs.queues hq).tidies_rotate _)
          · obtain ⟨hfrom, hto⟩ := (hs.queues ho).tidies_pour (hs.queues hq) (limit.getD b.bound)
            refine (State.Tidies.operate ho hfrom).set fun hpq d hd => ?_
            obtain rfl := Option.some.inj ((hpq ▸ hq).symm.trans hd)
            exact hto
  | .takeUpTo limit, scope, q, s, hs, _, _ => by
    rw [runAction]
    cases hq : s.get? q with
    | none =>
      rw [State.update_none hq]
      exact .refl p s
    | some c =>
      rw [hs.update_some hq]
      exact .operate hq ((hs.queues hq).tidies_takeUpTo _)
  | .iterate body, scope, q, s, hs, hp, ha => by
    rw [runAction] at ha ⊢
    cases hq : s.get? q with
    | none => exact .refl p s
    | some c =>
      rw [hq] at ha
      exact script_tidies body ⟨q :: scope.busy, q :: scope.iterated⟩ hs
        (List.mem_cons_of_mem _ hp) ha
  | .debug, _, _, s, _, _, _ => .refl p s
  | .drop, scope, q, s, hs, hp, _ => by
    rw [runAction]
    cases hq : s.get? q with
    | none => exact .refl p s
    | some c =>
      dsimp only
      split
      · exact .refl p s
      · exact (State.Tidies.refl p s).drop (ne_of_mem_of_not_mem hp ‹_›)
  | .unknown, _, _, s, _, _, _ => .refl p s

theorem script_tidies {p : Slot} :
    ∀ (script : Script α) (scope : Scope) {s : State α}, s.Sound → p ∈ scope.busy →
      script.abandons p (run scope script s).2 = false →
      State.Tidies p s (run scope script s).1
  | .done, _, s, _, _, _ => .refl p s
  | .step q action rest, scope, s, hs, hp, ha => by
    have hobs := ((runAction_matches action scope q hs).1.observe q
      (runAction scope q action s).2).1
    rw [run] at ha ⊢
    obtain ⟨hact, hrest⟩ := Bool.or_eq_false_iff.mp ha
    exact ((action_tidies action scope q hs hp hact).observe q _).trans
      (script_tidies rest scope hobs.sound hp hrest)

end

theorem end_mem_passes : ∀ (script : Script α) (scope : Scope) (s : State α),
    (scope, (run scope script s).1) ∈ script.passes scope s
  | .done, _, _ => List.mem_singleton_self _
  | .step _ _ rest, scope, _ =>
    List.mem_cons_of_mem _ (List.mem_append_right _ (end_mem_passes rest scope _))

/-- If a script moves `tail`, it is seen at its end, for `tail` never comes back. -/
theorem unmoved_iff {script : Script α} {scope : Scope} {s : State α} {q : Slot} {c c' : Chain α}
    (hs : s.Sound) (hbusy : q ∈ scope.busy) (hq : s.get? q = some c)
    (hend : (run scope script s).1.get? q = some c') :
    script.Unmoved scope q s ↔ c'.tail = c.tail := by
  constructor
  · intro h
    have := h _ (end_mem_passes script scope s)
    rw [hend, hq] at this
    exact Option.some.inj this
  · intro ht e he
    obtain ⟨hto, hfrom⟩ := script_passes script scope hs e he
    obtain ⟨b, hb, g⟩ := hto.grew hbusy hq
    obtain ⟨c₁, hc₁, g'⟩ := hfrom.grew hbusy hb
    obtain rfl := Option.some.inj (hend.symm.trans hc₁)
    rw [hb, hq, Option.map_some, Option.map_some, (hs.queues hq).tail_eq_of_grew g g' ht]

/-! ### The law -/

/-- How an enqueue of `v` in slot `q` goes on that is suspended in the state `s`, where `r` is what
its body comes to. -/
structure SuspendLaw (scope : Scope) (s : State α) (q : Slot) (v : α) (body : Script α)
    (r : State α × List (Observation α)) : Prop where
  abandoned : runAction scope q (.suspend v body true) s = (r.1, .suspended r.2 true)
  answer : (runAction scope q (.suspend v body false) s).2 = .suspended r.2 false
  returned : ∃ m k, r.1.size? q = some ⟨m, k⟩ ∧
    (body.Unmoved (scope.hold q) q (s.linked q v) →
      k = 1 ∧ (runAction scope q (.suspend v body false) s).1.size? q = some ⟨m, 0⟩) ∧
    (¬body.Unmoved (scope.hold q) q (s.linked q v) →
      (runAction scope q (.suspend v body false) s).1 = r.1)
  lagging : ∀ m, (runAction scope q (.suspend v body false) s).1.size? q = some ⟨m, 1⟩ →
    body.abandons q r.2 = true

/-- What the operations in the state `s` do to the queue in slot `q`, which has `n` items and the
lag `l`. -/
structure LagLaw (scope : Scope) (s : State α) (q : Slot) (n l : ℕ) : Prop where
  lag_le_one : l ≤ 1
  lag_le_length : l ≤ n
  enqueue : ∀ v, (runAction scope q (.enqueue v) s).1.size? q = some ⟨n + 1, 0⟩
  linked : ∀ v, (s.linked q v).size? q = some ⟨n + 1, 1⟩
  suspend : ∀ v body,
    SuspendLaw scope s q v body (run (scope.hold q) body (s.linked q v))
  dequeue_empty : n = 0 → ∀ {r : Slot} {action : Action α}, action.Dequeues scope q r →
    (runAction scope r action s).1 = s
  dequeue_lagging : n = 1 → l = 1 → ∀ {r : Slot} {action : Action α}, action.Dequeues scope q r →
    (runAction scope r action s).1.size? q = some ⟨0, 0⟩
  dequeue : n ≠ 0 → ¬(n = 1 ∧ l = 1) → ∀ {r : Slot} {action : Action α},
    action.Dequeues scope q r → (runAction scope r action s).1.size? q = some ⟨n - 1, l⟩
  isEmpty : (runAction scope q .isEmpty s).1 = s

section
variable {s : State α} {q : Slot} {c : Chain α}

theorem suspendLaw (hs : s.Sound) (hq : s.get? q = some c) (scope : Scope) (v : α)
    (body : Script α) :
    SuspendLaw scope s q v body (run (scope.hold q) body (s.linked q v)) := by
  have hlinked := Leads.linked scope.busy hs hq v
  have hlead := (run_matches body (scope.hold q) hlinked.sound).1
  obtain ⟨c', hc', g, hsettle⟩ := hlead.exists_settle hs hq
  have hbegin : (s.linked q v).get? q = some (c.link v).1 := by
    rw [hs.linked_eq hq, State.get?_set_self]
  have hiff : body.Unmoved (scope.hold q) q (s.linked q v) ↔ c'.tail = (c.link v).1.tail :=
    unmoved_iff hlinked.sound List.mem_cons_self hbegin hc'
  have hrun : runAction scope q (.suspend v body false) s = _ := runAction_suspend hs hq
  rw [if_neg Bool.false_ne_true, hsettle] at hrun
  refine ⟨runAction_suspend hs hq, by rw [hrun], ⟨c'.length, c'.lag, State.size?_of_get? hc', ?_, ?_⟩,
    fun m hm => ?_⟩
  · intro h
    obtain ⟨hlag, hlength, hlag'⟩ := (hs.queues hq).settle_lag g (hiff.mp h)
    rw [hrun, State.size?_of_get? (State.get?_set_self _ _ _), hlength, hlag']
    exact ⟨hlag, rfl⟩
  · intro h
    rw [hrun, (hs.queues hq).settle_of_tail_ne fun ht => h (hiff.mpr ht)]
    exact hlead.sound.set_self hc'
  · by_contra ha
    -- without an abandoned enqueuer the last step leaves no lag
    obtain ⟨b, hb, ht⟩ := script_tidies body (scope.hold q) hlinked.sound List.mem_cons_self
      (Bool.eq_false_iff.mpr ha) _ hbegin
    obtain rfl := Option.some.inj (hb.symm.trans hc')
    have hzero := (hs.queues hq).settle_tidies g ht
    rw [hrun, State.size?_of_get? (State.get?_set_self _ _ _), hzero] at hm
    cases hm

theorem lagLaw (hs : s.Sound) (hq : s.get? q = some c) (scope : Scope) :
    LagLaw scope s q c.length c.lag := by
  have hc := hs.queues hq
  have hdequeue : ∀ {r : Slot} {action : Action α}, action.Dequeues scope q r →
      (runAction scope r action s).1.size? q = some ⟨c.dequeue.1.length, c.dequeue.1.lag⟩ := by
    intro r action hd
    obtain ⟨vs, hrun, -⟩ := runAction_of_dequeues hd hs hq
    rw [hrun]
    exact State.size?_of_get? (State.get?_set_self _ _ _)
  constructor
  case lag_le_one => exact hc.lag_le.1
  case lag_le_length => exact hc.lag_le.2
  case enqueue =>
    intro v
    obtain ⟨hlength, hlag⟩ := hc.enqueue_lag v
    rw [runAction, hs.update_some hq, ← hlength, ← hlag]
    exact State.size?_of_get? (State.get?_set_self _ _ _)
  case linked =>
    intro v
    obtain ⟨hlength, hlag⟩ := hc.link_lag v
    rw [hs.linked_eq hq, State.size?_of_get? (State.get?_set_self _ _ _), hlength, hlag]
  case suspend => exact suspendLaw hs hq scope
  case dequeue_empty =>
    intro hn r action hd
    obtain ⟨vs, hrun, hnone⟩ := runAction_of_dequeues hd hs hq
    have hfound := hc.dequeue_of_length_eq_zero hn
    rw [hrun, hnone (congrArg Prod.snd hfound), hfound, hs.set_self hq, State.destroy,
      List.append_nil]
  case dequeue_lagging =>
    intro hn _ r action hd
    obtain ⟨hlength, hlag⟩ := hc.dequeue_lag_of_length_eq_one hn
    rw [hdequeue hd, hlength, hlag]
  case dequeue =>
    intro hn hl r action hd
    obtain ⟨hlength, hlag, -⟩ := hc.dequeue_lag hn hl
    rw [hdequeue hd, hlength, hlag]
  case isEmpty => rw [runAction, hq]

end

/-- The law of the lag, in every state inside a run of any script. -/
theorem runAlone_lag (script : Script α) {scope : Scope} {s : State α} {q : Slot} {n l : ℕ}
    (hs : (scope, s) ∈ script.passes ⟨[], []⟩ .start) (hq : s.size? q = some ⟨n, l⟩) :
    LagLaw scope s q n l := by
  obtain ⟨c, hc, rfl, rfl⟩ := State.size?_eq_some.mp hq
  exact lagLaw (script_passes script ⟨[], []⟩ State.start_sound _ hs).1.sound hc scope

/-- An enqueuer inside that moves `tail` over the node of the one outside, links its own node and
is abandoned. -/
def overtaken : Script ℕ := .step 0 (.suspend 2 .done true) .done

/-- The last step of the enqueuer outside finds `tail` moved, and the lag stays. -/
theorem overtaken_lag :
    LagLaw ⟨[0], []⟩ (run ⟨[0], []⟩ overtaken ((State.start : State ℕ).linked 0 1)).1 0 2 1 ∧
      (runAction ⟨[], []⟩ 0 (.suspend 1 overtaken false) .start).1.size? 0 = some ⟨2, 1⟩ := by
  refine ⟨runAlone_lag (.step 0 (.suspend 1 overtaken false) .done) ?_ (by decide), by decide⟩
  exact List.mem_cons_of_mem _ (List.mem_append_left _ (end_mem_passes overtaken ⟨[0], []⟩ _))

end Script

end QueueRace
