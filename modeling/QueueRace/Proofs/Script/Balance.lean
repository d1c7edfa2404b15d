import Mathlib.Algebra.Order.Group.Multiset
import Mathlib.Tactic.Abel
import QueueRace.Proofs.Script.Refinement

/-! Where the values of a script stay. What its steps put into queues from outside, what they hand
out and what they destroy can be read off their answers, those of nested steps included. The
account is kept on plain lists: each step leaves the values that the lists hold, together with
what has gone out so far, equal to what has come in. -/

namespace QueueRace

variable {α : Type}

/-! ### Reading answers -/

mutual

/-- The answers of the steps that ran inside a step, those nested deeper included. -/
def Reply.nested : Reply α → List (Observation α)
  | .suspended inner _ => Observation.flatten inner
  | .iterated inner => Observation.flatten inner
  | _ => []

/-- All answers in the order in which they were given. -/
def Observation.flatten : List (Observation α) → List (Observation α)
  | [] => []
  | .mk reply size dropped :: os => reply.nested ++ .mk reply size dropped :: Observation.flatten os

end

/-- The values that a step itself handed out. -/
def Reply.handed : Reply α → List α
  | .popped v => v.toList
  | .values vs => vs
  | _ => []

def Observation.handed : Observation α → List α
  | .mk reply _ _ => reply.handed

def Observation.destroyed : Observation α → List α
  | .mk _ _ dropped => dropped

/-- All values handed out, those of nested steps included. -/
def Observation.handedAll (os : List (Observation α)) : List α := (flatten os).flatMap handed

def Observation.destroyedAll (os : List (Observation α)) : List α := (flatten os).flatMap destroyed

/-- The values `vs`, unless the step was refused. -/
def Reply.admitted (vs : List α) : Reply α → List α
  | .refused _ => []
  | _ => vs

mutual

/-- The values that a step put into queues from outside. Of a source that panics these are the
values that it had yielded before. -/
def Action.entered : Action α → Reply α → List α
  | .enqueue v, reply => reply.admitted [v]
  | .collect source, reply => reply.admitted source.yielded
  | .extend source _, reply => reply.admitted source.yielded
  | .suspend v body _, .suspended inner _ => v :: body.entered inner
  | .iterate body, .iterated inner => body.entered inner
  | _, _ => []

def Script.entered : Script α → List (Observation α) → List α
  | .step _ action rest, .mk reply _ _ :: os => action.entered reply ++ rest.entered os
  | _, _ => []

end

/-! ### The lag does not matter -/

mutual

theorem Reply.nested_forgetLag :
    ∀ reply : Reply α, reply.forgetLag.nested = reply.nested.map Observation.forgetLag
  | .suspended inner _ => by
    simp only [Reply.forgetLag, Reply.nested, Observation.flatten_forgetLags inner]
  | .iterated inner => by
    simp only [Reply.forgetLag, Reply.nested, Observation.flatten_forgetLags inner]
  | .done | .popped _ | .unfinished | .flag _ | .values _ | .bounds _ _ | .texts _ | .refused _
  | .panicked _ => rfl

theorem Observation.flatten_forgetLags :
    ∀ os : List (Observation α),
      Observation.flatten (Observation.forgetLags os) =
        (Observation.flatten os).map Observation.forgetLag
  | [] => rfl
  | .mk reply size dropped :: os => by
    simp only [Observation.forgetLags, Observation.forgetLag, Observation.flatten, List.map_append,
      List.map_cons, Reply.nested_forgetLag reply, Observation.flatten_forgetLags os]

end

theorem Observation.handed_forgetLag (o : Observation α) : o.forgetLag.handed = o.handed := by
  obtain ⟨reply, size, dropped⟩ := o
  cases reply <;> rfl

theorem Observation.destroyed_forgetLag (o : Observation α) :
    o.forgetLag.destroyed = o.destroyed := by
  obtain ⟨reply, size, dropped⟩ := o
  rfl

theorem Observation.handedAll_forgetLags (os : List (Observation α)) :
    handedAll (forgetLags os) = handedAll os := by
  simp only [handedAll, flatten_forgetLags, List.flatMap_map, handed_forgetLag]

theorem Observation.destroyedAll_forgetLags (os : List (Observation α)) :
    destroyedAll (forgetLags os) = destroyedAll os := by
  simp only [destroyedAll, flatten_forgetLags, List.flatMap_map, destroyed_forgetLag]

mutual

theorem Action.entered_forgetLag :
    ∀ (action : Action α) (reply : Reply α),
      action.entered reply.forgetLag = action.entered reply := by
  intro action reply
  cases action with
  | suspend v body abandon =>
    cases reply with
    | suspended inner abandoned =>
      simp only [Reply.forgetLag, Action.entered, Script.entered_forgetLags body inner]
    | _ => rfl
  | iterate body =>
    cases reply with
    | iterated inner =>
      simp only [Reply.forgetLag, Action.entered, Script.entered_forgetLags body inner]
    | _ => rfl
  | _ => cases reply <;> rfl

theorem Script.entered_forgetLags :
    ∀ (script : Script α) (os : List (Observation α)),
      script.entered (Observation.forgetLags os) = script.entered os
  | .done, os => by cases os <;> rfl
  | .step _ _ _, [] => rfl
  | .step q action rest, .mk reply size dropped :: os => by
    simp only [Observation.forgetLags, Observation.forgetLag, Script.entered,
      Action.entered_forgetLag action reply, Script.entered_forgetLags rest os]

end

/-! ### What comes in and what goes out -/

/-- All values handed out during a step. -/
def Reply.handedAll (reply : Reply α) : List α :=
  reply.nested.flatMap Observation.handed ++ reply.handed

/-- The values destroyed during a step that the steps inside it have reported. -/
def Reply.destroyedAll (reply : Reply α) : List α := reply.nested.flatMap Observation.destroyed

theorem Observation.handedAll_cons (reply : Reply α) (size : Option Size) (dropped : List α)
    (os : List (Observation α)) :
    handedAll (.mk reply size dropped :: os) = reply.handedAll ++ handedAll os := by
  simp only [handedAll, Reply.handedAll, flatten, List.flatMap_append, List.flatMap_cons, handed,
    List.append_assoc]

theorem Observation.destroyedAll_cons (reply : Reply α) (size : Option Size) (dropped : List α)
    (os : List (Observation α)) :
    destroyedAll (.mk reply size dropped :: os) =
      reply.destroyedAll ++ dropped ++ destroyedAll os := by
  simp only [destroyedAll, Reply.destroyedAll, flatten, List.flatMap_append, List.flatMap_cons,
    destroyed, List.append_assoc]

theorem Reply.handedAll_suspended (inner : List (Observation α)) (abandoned : Bool) :
    (Reply.suspended inner abandoned).handedAll = Observation.handedAll inner :=
  List.append_nil _

theorem Reply.handedAll_iterated (inner : List (Observation α)) :
    (Reply.iterated inner).handedAll = Observation.handedAll inner :=
  List.append_nil _

/-- The values that have left the queues, by the answers. -/
def Observation.out (os : List (Observation α)) : Multiset α := ↑(handedAll os) + ↑(destroyedAll os)

def Reply.out (reply : Reply α) : Multiset α := ↑reply.handedAll + ↑reply.destroyedAll

theorem Observation.out_cons (reply : Reply α) (size : Option Size) (dropped : List α)
    (os : List (Observation α)) :
    out (.mk reply size dropped :: os) = reply.out + ↑dropped + out os := by
  simp only [out, Reply.out, handedAll_cons, destroyedAll_cons, ← Multiset.coe_add]
  abel

theorem Reply.out_suspended (inner : List (Observation α)) (abandoned : Bool) :
    (Reply.suspended inner abandoned).out = Observation.out inner := by
  rw [out, handedAll_suspended]
  rfl

theorem Reply.out_iterated (inner : List (Observation α)) :
    (Reply.iterated inner).out = Observation.out inner := by
  rw [out, handedAll_iterated]
  rfl

theorem Reply.out_of_flat (reply : Reply α) (h : reply.nested = []) :
    reply.out = ↑reply.handed := by
  rw [out, handedAll, destroyedAll, h, List.flatMap_nil, List.nil_append, List.flatMap_nil,
    Multiset.coe_nil, add_zero]

namespace Ledger

open Script (Scope)

/-- The values in the lists, and those destroyed that no answer has shown yet. -/
def stock (s : Ledger α) : Multiset α := ↑(s.lists.flatMap Prod.snd) + ↑s.dropped

theorem flatMap_get? {s : Ledger α} (h : s.lists.Sorted) (q : Slot) :
    (↑(s.lists.flatMap Prod.snd) : Multiset α) =
      ↑((s.get? q).getD []) + ↑((s.lists.remove q).flatMap Prod.snd) := by
  rw [Multiset.coe_add]
  cases hq : s.get? q with
  | none => rw [Slots.remove_of_get?_none hq, Option.getD_none, List.nil_append]
  | some b => exact Multiset.coe_eq_coe.mpr ((Slots.perm_get? h hq).flatMap_right Prod.snd)

theorem get?_drop (s : Ledger α) (q : Slot) : (s.drop q).get? q = none := by
  rw [drop]
  cases hq : s.get? q with
  | none => exact hq
  | some b => exact (Slots.get?_remove q q s.lists).trans (if_pos rfl)

/-- From `s` to `s'`, what has come in is in stock or has gone out. -/
structure Balances (s s' : Ledger α) (entered out : Multiset α) : Prop where
  sorted : s'.lists.Sorted
  stock : s.stock + entered = s'.stock + out

namespace Balances

variable {s s' s'' : Ledger α} {q : Slot} {b b' : List α} {e e' o o' m : Multiset α}

theorem refl (h : s.lists.Sorted) : Balances s s 0 0 := ⟨h, rfl⟩

theorem trans (h : Balances s s' e o) (h' : Balances s' s'' e' o') :
    Balances s s'' (e + e') (o + o') where
  sorted := h'.sorted
  stock := calc
    s.stock + (e + e') = s'.stock + o + e' := by rw [← add_assoc, h.stock]
    _ = s''.stock + o' + o := by rw [add_right_comm, h'.stock]
    _ = s''.stock + (o + o') := by rw [add_assoc, add_comm o' o]

/-- What goes out and comes in again does not count. -/
theorem cancel (h : Balances s s' (e + m) (m + o)) : Balances s s' e o where
  sorted := h.sorted
  stock := add_right_cancel (b := m) (by rw [add_assoc, h.stock, add_comm m, add_assoc])

theorem set (h : s.lists.Sorted) (hb : ↑((s.get? q).getD []) + e = ↑b + o) :
    Balances s (s.set q b) e o where
  sorted := h.put q b
  stock := by
    have hput := Multiset.coe_eq_coe.mpr ((Slots.perm_put h q b).flatMap_right Prod.snd)
    rw [List.flatMap_cons, ← Multiset.coe_add] at hput
    calc s.stock + e = ↑((s.get? q).getD []) + e +
          (↑((s.lists.remove q).flatMap Prod.snd) + ↑s.dropped) := by
          rw [Ledger.stock, flatMap_get? h q]
          abel
      _ = (s.set q b).stock + o := by
          rw [hb, Ledger.stock, Ledger.set, hput]
          abel

theorem destroy (h : s.lists.Sorted) (vs : List α) : Balances s (s.destroy vs) ↑vs 0 where
  sorted := h
  stock := by
    rw [Ledger.stock, Ledger.stock, Ledger.destroy, ← Multiset.coe_add, add_zero, add_assoc]

/-- The values of a list that is dropped wait to be reported. -/
theorem drop (h : s.lists.Sorted) (q : Slot) : Balances s (s.drop q) 0 0 := by
  rw [Ledger.drop]
  cases hq : s.get? q with
  | none => exact refl h
  | some b =>
    refine ⟨h.remove q, ?_⟩
    simp only [Ledger.stock, Ledger.destroy, flatMap_get? h q, hq, Option.getD_some,
      ← Multiset.coe_add]
    abel

theorem replace (h : s.lists.Sorted) (q : Slot) (b : List α) :
    Balances s (s.replace q b) ↑b 0 := by
  have hd := drop h q
  have hs := set (q := q) (b := b) (e := ↑b) (o := 0) hd.sorted (by
    rw [get?_drop, Option.getD_none, Multiset.coe_nil, zero_add, add_zero])
  have := hd.trans hs
  rwa [zero_add, zero_add] at this

theorem observe (h : s.lists.Sorted) (q : Slot) (reply : Reply α) :
    Balances s (s.observe q reply).1 0 ↑s.dropped :=
  ⟨h, by simp [Ledger.stock, Ledger.observe]⟩

end Balances

/-! ### Actions -/

section
variable {s : Ledger α}

/-- Changing the list of slot `q`, where values come in from outside or go out. -/
theorem Balances.list {q : Slot} {b b' e o : List α} (h : s.lists.Sorted) (hq : s.get? q = some b)
    (hb : (b ++ e).Perm (b' ++ o)) : Balances s (s.set q b') ↑e ↑o := by
  refine .set h ?_
  rw [hq, Option.getD_some, Multiset.coe_add, Multiset.coe_add, Multiset.coe_eq_coe.mpr hb]

theorem append_balances (h : s.lists.Sorted) {q : Slot} {b : List α} (hq : s.get? q = some b)
    (vs : List α) : Balances s (s.set q (b ++ vs)) ↑vs 0 :=
  .list (o := []) h hq (.of_eq (List.append_nil _).symm)

/-- A list gives up values at its front. -/
theorem take_balances (h : s.lists.Sorted) {q : Slot} {b : List α} (hq : s.get? q = some b)
    (n : ℕ) : Balances s (s.set q (b.drop n)) 0 ↑(b.take n) := by
  refine .list (e := []) h hq ?_
  rw [List.append_nil, List.perm_comm]
  exact List.perm_append_comm.trans (.of_eq (List.take_append_drop n b))

theorem popFrom_balances (h : s.lists.Sorted) (q : Slot) :
    Balances s (popFrom s q).1 0 (popFrom s q).2.out := by
  rw [popFrom]
  cases hq : s.get? q with
  | none => exact .refl h
  | some b =>
    dsimp only
    rw [Reply.out_of_flat _ rfl, Reply.handed, ← List.drop_one, ← List.take_one]
    exact take_balances h hq 1

theorem collectFrom_balances (h : s.lists.Sorted) (scope : Scope) (q origin : Slot)
    (limit : Option ℕ) :
    Balances s (runAction scope q (.collectFrom origin limit) s).1 0
      (runAction scope q (.collectFrom origin limit) s).2.out := by
  rw [runAction]
  cases ho : s.get? origin with
  | none => exact .refl h
  | some b =>
    dsimp only
    split
    · exact .refl h
    · have hout := take_balances h ho (limit.getD b.length)
      exact (hout.trans (.replace hout.sorted q _)).cancel

theorem transfer_balances (h : s.lists.Sorted) (scope : Scope) (q origin : Slot) (limit : Option ℕ)
    (borrow : Borrow) :
    Balances s (runAction scope q (.transfer origin limit borrow) s).1 0
      (runAction scope q (.transfer origin limit borrow) s).2.out := by
  rw [runAction]
  cases hq : s.get? q with
  | none => exact .refl h
  | some c =>
    cases ho : s.get? origin with
    | none => exact .refl h
    | some b =>
      dsimp only
      split
      · exact .refl h
      · split
        · exact .list (e := []) (o := []) h hq (by simpa using (List.rotate_perm c _).symm)
        · rename_i hne
          have hout := take_balances h ho (limit.getD b.length)
          have hq' : (s.set origin (b.drop (limit.getD b.length))).get? q = some c := by
            rw [get?, set, Slots.get?_put, if_neg hne]
            exact hq
          exact (hout.trans (append_balances hout.sorted hq' _)).cancel

end

mutual

/-- Whatever a step does, nothing appears and nothing is lost. -/
theorem runAction_balances :
    ∀ (action : Action α) (scope : Scope) (q : Slot) {s : Ledger α}, s.lists.Sorted →
      Balances s (runAction scope q action s).1 ↑(action.entered (runAction scope q action s).2)
        (runAction scope q action s).2.out
  | .renew, scope, q, s, h => by
    rw [runAction]
    split
    · exact .refl h
    · exact .replace h q []
  | .collect source, scope, q, s, h => by
    rw [runAction]
    split
    · exact .refl h
    · split
      · exact .destroy h source.yielded
      · exact .replace h q source.yielded
  | .collectFrom origin limit, scope, q, s, h => collectFrom_balances h scope q origin limit
  | .next, scope, q, s, h => by
    rw [runAction]
    cases scope.iterated with
    | nil => exact .refl h
    | cons p ps => exact popFrom_balances h p
  | .sizeHint, scope, q, s, h => by
    rw [runAction]
    split <;> exact .refl h
  | .enqueue v, scope, q, s, h => by
    rw [runAction]
    cases hq : s.get? q with
    | none => exact .refl h
    | some b => exact append_balances h hq [v]
  | .suspend v body abandon, scope, q, s, h => by
    rw [runAction]
    cases hq : s.get? q with
    | none => exact .refl h
    | some b =>
      have hin := append_balances h hq [v]
      have hbody := hin.trans (run_balances body { scope with busy := q :: scope.busy } hin.sorted)
      rw [zero_add, Multiset.coe_add, ← Reply.out_suspended _ abandon] at hbody
      exact hbody
  | .dequeue, scope, q, s, h => by
    rw [runAction]
    exact popFrom_balances h q
  | .discard, scope, q, s, h => by
    rw [runAction]
    cases hq : s.get? q with
    | none => exact .refl h
    | some b =>
      cases b with
      | nil => exact .refl h
      | cons v b =>
        have hout := take_balances h hq 1
        exact (hout.trans (.destroy hout.sorted [v])).cancel
  | .isEmpty, scope, q, s, h => by
    rw [runAction]
    cases s.get? q <;> exact .refl h
  | .extend source borrow, scope, q, s, h => by
    rw [runAction]
    cases hq : s.get? q with
    | none => exact .refl h
    | some b =>
      have hin := append_balances h hq source.yielded
      dsimp only
      split
      · exact .refl h
      · split <;> exact hin
  | .transfer origin limit borrow, scope, q, s, h => transfer_balances h scope q origin limit borrow
  | .takeUpTo limit, scope, q, s, h => by
    rw [runAction]
    cases hq : s.get? q with
    | none => exact .refl h
    | some b =>
      dsimp only
      rw [Reply.out_of_flat _ rfl]
      exact take_balances h hq (limit.getD b.length)
  | .iterate body, scope, q, s, h => by
    rw [runAction]
    cases hq : s.get? q with
    | none => exact .refl h
    | some b =>
      have hbody := run_balances body ⟨q :: scope.busy, q :: scope.iterated⟩ h
      rw [← Reply.out_iterated] at hbody
      exact hbody
  | .debug, scope, q, s, h => by
    rw [runAction]
    split <;> exact .refl h
  | .drop, scope, q, s, h => by
    rw [runAction]
    cases s.get? q with
    | none => exact .refl h
    | some b =>
      dsimp only
      split
      · exact .refl h
      · exact .drop h q
  | .unknown, scope, q, s, h => .refl h

theorem run_balances :
    ∀ (script : Script α) (scope : Scope) {s : Ledger α}, s.lists.Sorted →
      Balances s (run scope script s).1 ↑(script.entered (run scope script s).2)
        (Observation.out (run scope script s).2)
  | .done, scope, s, h => .refl h
  | .step q action rest, scope, s, h => by
    have hact := runAction_balances action scope q h
    have hobs := hact.trans (.observe hact.sorted q (runAction scope q action s).2)
    have hrest := hobs.trans (run_balances rest scope hobs.sorted)
    rw [add_zero, Multiset.coe_add] at hrest
    change Balances s _ ↑(action.entered _ ++ rest.entered _) (Observation.out (.mk _ _ _ :: _))
    rw [Observation.out_cons]
    exact hrest

end

/-- Each step reports what is left to be reported. -/
theorem run_dropped :
    ∀ (script : Script α) (scope : Scope) {s : Ledger α}, s.dropped = [] →
      (run scope script s).1.dropped = []
  | .done, _, _, h => h
  | .step q action rest, scope, s, _ => by
    have hobs : ((runAction scope q action s).1.observe q
      (runAction scope q action s).2).1.dropped = [] := rfl
    exact run_dropped rest scope hobs

end Ledger

/-- A script's values: those it put in are those it handed out, those it destroyed and those that
are left in the end. -/
theorem Script.runAlone_balances (script : Script α) :
    (↑(script.entered (runAlone script).1) : Multiset α) =
      Observation.out (runAlone script).1 + ↑((runAlone script).2.flatMap Prod.snd) := by
  obtain ⟨hshown, hleft⟩ := runAlone_eq_ledger script
  have hstart : (Ledger.start : Ledger α).lists.Sorted := List.pairwise_singleton _ _
  have hrun := (Ledger.run_balances script ⟨[], []⟩ hstart).stock
  have hdropped := Ledger.run_dropped script ⟨[], []⟩ (s := (Ledger.start : Ledger α)) rfl
  have hnone : (Ledger.start : Ledger α).stock = 0 := rfl
  rw [← Script.entered_forgetLags, Observation.out, ← Observation.handedAll_forgetLags,
    ← Observation.destroyedAll_forgetLags, hshown, hleft]
  rw [hnone, zero_add, Ledger.stock, hdropped, Multiset.coe_nil, add_zero, add_comm] at hrun
  exact hrun

end QueueRace
