import QueueRace.Proofs.Chain.Takes
import QueueRace.Proofs.Script.Balance

/-! The dequeues of a script, one by one, each with the queue as it was found, and what became of
the value. Every queue that a script dequeues from lies in a layout, however its `tail` lags, so no
value is taken twice and a queue that is dropped gives up all it holds. -/

namespace QueueRace

variable {α : Type}

/-- What a queue is dequeued for. -/
inductive Deed.Kind where
  | pop
  | move
  | discard
  | drop
  deriving DecidableEq

/-- A dequeue, or the drop of a queue, with the queue as it was found. -/
structure Deed (α : Type) where
  kind : Deed.Kind
  chain : Chain α

namespace Deed

def dequeues (d : Deed α) : List (Chain α) :=
  match d.kind with
  | .drop => Chain.visits Chain.keep d.chain.bound d.chain
  | _ => [d.chain]

def handed (d : Deed α) : List α :=
  match d.kind with
  | .pop => d.chain.dequeue.2.found?.toList
  | _ => []

/-- A drop destroys all items, front first. -/
def destroyed (d : Deed α) : List α :=
  match d.kind with
  | .discard => d.chain.dequeue.2.found?.toList
  | .drop => d.chain.toList
  | _ => []

/-- Each dequeue takes what is still there. If the queue is dropped, its loop finds all items in
their order, and leaves a lone sentinel. -/
structure Clean (d : Deed α) : Prop where
  careful : ∀ c ∈ d.dequeues, c.Careful
  drained : d.kind = .drop → d.chain.drain = d.chain.toList
  ended : d.kind = .drop → (d.chain.takeUpTo d.chain.bound).1.Ended
  /-- It is not the bound that ends the loop. -/
  stopped : d.kind = .drop → (d.chain.takeUpTo d.chain.bound).1.dequeue.2 = .done none

theorem clean_of_sound {d : Deed α} (h : d.chain.Sound) : d.Clean where
  careful := by
    obtain ⟨kind, c⟩ := d
    have hloop : ∀ b ∈ Chain.visits Chain.keep c.bound c, b.Sound :=
      h.visits (fun _ hb => hb) c.bound
    intro b hb
    cases kind with
    | drop => exact (hloop b hb).careful
    | _ =>
      obtain rfl := List.mem_singleton.mp hb
      exact h.careful
  drained _ := h.drain
  ended _ := h.drain_ended
  stopped _ := congrArg Prod.snd h.drain_ended.dequeue

end Deed

namespace Script

namespace State

/-- What is done to the queue of slot `q`, if there is one. -/
def deed (s : State α) (kind : Deed.Kind) (q : Slot) : List (Deed α) :=
  ((s.get? q).map (Deed.mk kind)).toList

end State

def loopDeeds (kind : Deed.Kind) (back : Chain α → α → Chain α) (n : ℕ) (c : Chain α) :
    List (Deed α) :=
  (Chain.visits back n c).map (Deed.mk kind)

end Script

open Script (Scope State loopDeeds)

mutual

/-- The dequeues and drops of a step, in the order in which they are made. -/
def Action.deeds (scope : Scope) (q : Slot) : Action α → State α → List (Deed α)
  | .renew, s => if q ∈ scope.busy then [] else s.deed .drop q
  | .collect source, s =>
    if q ∈ scope.busy then []
    else if source.panics then [⟨.drop, Chain.ofList source.yielded⟩]
    else s.deed .drop q
  | .collectFrom origin limit, s =>
    match s.get? origin with
    | none => []
    | some b =>
      if q ∈ scope.busy ∨ q = origin then []
      else loopDeeds .move Chain.keep (limit.getD b.bound) b ++ s.deed .drop q
  | .next, s =>
    match scope.iterated with
    | [] => []
    | p :: _ => s.deed .pop p
  | .suspend v body _, s =>
    match s.get? q with
    | none => []
    | some c => body.deeds { scope with busy := q :: scope.busy } (s.set q (c.link v).1)
  | .dequeue, s => s.deed .pop q
  | .discard, s => s.deed .discard q
  | .transfer origin limit borrow, s =>
    match s.get? q, s.get? origin with
    | some c, some b =>
      if borrow = .exclusive ∧ (q ∈ scope.busy ∨ q = origin) then []
      else if q = origin then loopDeeds .move Chain.enqueue (limit.getD c.length) c
      else loopDeeds .move Chain.keep (limit.getD b.bound) b
    | _, _ => []
  | .takeUpTo limit, s =>
    match s.get? q with
    | none => []
    | some c => loopDeeds .pop Chain.keep (limit.getD c.bound) c
  | .iterate body, s =>
    match s.get? q with
    | none => []
    | some _ => body.deeds ⟨q :: scope.busy, q :: scope.iterated⟩ s
  | .drop, s => if q ∈ scope.busy then [] else s.deed .drop q
  | .sizeHint, _ | .enqueue _, _ | .isEmpty, _ | .extend _ _, _ | .debug, _ | .unknown, _ => []

def Script.deeds (scope : Scope) : Script α → State α → List (Deed α)
  | .done, _ => []
  | .step q action rest, s =>
    let (s', reply) := Script.runAction scope q action s
    action.deeds scope q s ++ rest.deeds scope (s'.observe q reply).1

end

namespace Script

/-- The dequeues and drops of a script on a new queue, those at its end included. -/
def allDeeds (script : Script α) : List (Deed α) :=
  script.deeds ⟨[], []⟩ .start ++
    (run ⟨[], []⟩ script .start).1.queues.map fun e => ⟨.drop, e.2⟩

/-- From `s` to `s'` the deeds `ds` were done. The values handed out and the values reported as
destroyed are theirs, in their order. -/
structure Records (s s' : State α) (handed destroyed : List α) (ds : List (Deed α)) : Prop where
  sound : ∀ d ∈ ds, d.chain.Sound
  handed : handed = ds.flatMap Deed.handed
  destroyed : s.dropped ++ ds.flatMap Deed.destroyed = destroyed ++ s'.dropped

namespace Records

variable {s s' s'' : State α} {vs vs' ws ws' : List α} {ds ds' : List (Deed α)} {q : Slot}
  {c : Chain α}

theorem nothing (h : s'.dropped = s.dropped) : Records s s' [] [] [] where
  sound := List.forall_mem_nil _
  handed := rfl
  destroyed := by rw [h, List.flatMap_nil, List.append_nil, List.nil_append]

theorem trans (h : Records s s' vs ws ds) (h' : Records s' s'' vs' ws' ds') :
    Records s s'' (vs ++ vs') (ws ++ ws') (ds ++ ds') where
  sound d hd := (List.mem_append.mp hd).elim (h.sound d) (h'.sound d)
  handed := by rw [List.flatMap_append, ← h.handed, ← h'.handed]
  destroyed := by
    rw [List.flatMap_append, ← List.append_assoc, h.destroyed, List.append_assoc, h'.destroyed,
      List.append_assoc]

theorem of_dropped {r r' : State α} (h : Records s s' vs ws ds) (hr : r.dropped = s.dropped)
    (hr' : r'.dropped = s'.dropped) : Records r r' vs ws ds where
  sound := h.sound
  handed := h.handed
  destroyed := by rw [hr, hr', h.destroyed]

theorem observe (s : State α) (q : Slot) (reply : Reply α) :
    Records s (s.observe q reply).1 [] s.dropped [] where
  sound := List.forall_mem_nil _
  handed := rfl
  destroyed := rfl

theorem pop (hc : c.Sound) (h : s'.dropped = s.dropped) :
    Records s s' c.dequeue.2.found?.toList [] [⟨.pop, c⟩] where
  sound := List.forall_mem_singleton.mpr hc
  handed := (List.append_nil _).symm
  destroyed := by rw [h]; exact List.append_nil _

theorem discard (hc : c.Sound) (h : s'.dropped = s.dropped ++ c.dequeue.2.found?.toList) :
    Records s s' [] [] [⟨.discard, c⟩] where
  sound := List.forall_mem_singleton.mpr hc
  handed := rfl
  destroyed := by rw [h]; exact congrArg _ (List.append_nil _)

theorem destroy (hc : c.Sound) (h : s'.dropped = s.dropped ++ c.drain) :
    Records s s' [] [] [⟨.drop, c⟩] where
  sound := List.forall_mem_singleton.mpr hc
  handed := rfl
  destroyed := by rw [h, hc.drain]; exact congrArg _ (List.append_nil _)

theorem drop (h : s.Sound) (q : Slot) : Records s (s.drop q) [] [] (s.deed .drop q) := by
  rw [State.drop, State.deed]
  cases hq : s.get? q with
  | none => exact nothing rfl
  | some c => exact destroy (h.queues hq) rfl

theorem replace (h : s.Sound) (q : Slot) (c : Chain α) :
    Records s (s.replace q c) [] [] (s.deed .drop q) :=
  (drop h q).of_dropped rfl rfl

theorem flatMap_loopDeeds {f : Deed α → List α} {kind : Deed.Kind} (hf : ∀ c, f ⟨kind, c⟩ = [])
    (back : Chain α → α → Chain α) (n : ℕ) (c : Chain α) :
    (loopDeeds kind back n c).flatMap f = [] := by
  rw [loopDeeds, List.flatMap_map, List.flatMap_eq_nil_iff]
  exact fun d _ => hf d

theorem moves {back : Chain α → α → Chain α}
    (hback : ∀ {c : Chain α} (v : α), c.Sound → (back c v).Sound) (hc : c.Sound) (n : ℕ)
    (h : s'.dropped = s.dropped) : Records s s' [] [] (loopDeeds .move back n c) where
  sound := List.forall_mem_map.mpr (hc.visits hback n)
  handed := (flatMap_loopDeeds (fun _ => rfl) _ _ _).symm
  destroyed := by
    rw [flatMap_loopDeeds (fun _ => rfl), h, List.append_nil, List.nil_append]

theorem pops (hc : c.Sound) (n : ℕ) (h : s'.dropped = s.dropped) :
    Records s s' (c.takeUpTo n).2 [] (loopDeeds .pop Chain.keep n c) where
  sound := List.forall_mem_map.mpr (hc.visits (fun _ h => h) n)
  handed := by
    rw [loopDeeds, List.flatMap_map]
    exact (Chain.visits_keep n c).symm
  destroyed := by
    rw [flatMap_loopDeeds (fun _ => rfl), h, List.append_nil, List.nil_append]

end Records

theorem State.update_dropped {β : Type} (s : State α) (q : Slot) (f : Chain α → Chain α × β) :
    (s.update q f).1.dropped = s.dropped := by
  rw [update]
  cases s.get? q <;> rfl

section
variable {s : State α} {q : Slot} {scope : Scope}

theorem popFrom_records (h : s.Sound) (q : Slot) :
    Records s (popFrom s q).1 (popFrom s q).2.handedAll (popFrom s q).2.destroyedAll
      (s.deed .pop q) := by
  rw [State.deed]
  cases hq : s.get? q with
  | none =>
    rw [popFrom, State.update_none hq]
    exact .nothing rfl
  | some c =>
    obtain ⟨-, ha, -⟩ := (h.queues hq).dequeue
    have hpop : Records s (s.set q c.dequeue.1) c.dequeue.2.found?.toList [] [⟨.pop, c⟩] :=
      .pop (h.queues hq) rfl
    rw [ha] at hpop
    rw [popFrom_eq h hq]
    exact hpop

theorem discard_records (h : s.Sound) (q : Slot) :
    Records s (runAction scope q .discard s).1 (runAction scope q .discard s).2.handedAll
      (runAction scope q .discard s).2.destroyedAll (s.deed .discard q) := by
  rw [runAction, State.deed]
  cases hq : s.get? q with
  | none =>
    rw [State.update_none hq]
    exact .nothing rfl
  | some c =>
    rw [h.update_some hq]
    rcases (h.queues hq).dequeue_cases with ⟨c', hd, -⟩ | ⟨c', v, hd, -⟩
    · rw [hd]
      exact .discard (h.queues hq) (by rw [hd]; exact (List.append_nil _).symm)
    · rw [hd]
      exact .discard (h.queues hq) (by rw [hd]; rfl)

theorem collectFrom_records (h : s.Sound) (q origin : Slot) (limit : Option ℕ) :
    Records s (runAction scope q (.collectFrom origin limit) s).1
      (runAction scope q (.collectFrom origin limit) s).2.handedAll
      (runAction scope q (.collectFrom origin limit) s).2.destroyedAll
      (Action.deeds scope q (.collectFrom origin limit) s) := by
  rw [runAction, Action.deeds]
  cases ho : s.get? origin with
  | none => exact .nothing rfl
  | some b =>
    dsimp only
    split
    · exact .nothing rfl
    · rename_i hb
      have hs := h.queues ho
      have hne : q ≠ origin := fun hqo => hb (.inr hqo)
      generalize hpour : b.pour .empty (limit.getD b.bound) = r
      have hr : r.1.Sound := by
        rw [← hpour]
        exact hs.grew (hs.pour Chain.empty_sound _).1.1
      have hsame : (s.set origin r.1).deed .drop q = s.deed .drop q := by
        rw [State.deed, State.get?_set, if_neg hne, State.deed]
      have hmoves : Records s (s.set origin r.1) [] []
          (loopDeeds .move Chain.keep (limit.getD b.bound) b) :=
        .moves (fun _ h => h) hs _ rfl
      have hdrop := Records.replace (h.set (q := origin) hr) q r.2
      rw [hsame] at hdrop
      exact hmoves.trans hdrop

theorem transfer_records (h : s.Sound) (q origin : Slot) (limit : Option ℕ) (borrow : Borrow) :
    Records s (runAction scope q (.transfer origin limit borrow) s).1
      (runAction scope q (.transfer origin limit borrow) s).2.handedAll
      (runAction scope q (.transfer origin limit borrow) s).2.destroyedAll
      (Action.deeds scope q (.transfer origin limit borrow) s) := by
  rw [runAction, Action.deeds]
  cases hq : s.get? q with
  | none => exact .nothing rfl
  | some c =>
    cases ho : s.get? origin with
    | none => exact .nothing rfl
    | some b =>
      dsimp only
      split
      · exact .nothing rfl
      · split
        · exact .moves (fun v hc => hc.grew (hc.enqueue v).1) (h.queues hq) _ rfl
        · exact .moves (fun _ h => h) (h.queues ho) _ rfl

end

mutual

theorem runAction_records :
    ∀ (action : Action α) (scope : Scope) (q : Slot) {s : State α}, s.Sound →
      Records s (runAction scope q action s).1 (runAction scope q action s).2.handedAll
        (runAction scope q action s).2.destroyedAll (action.deeds scope q s)
  | .renew, scope, q, s, h => by
    rw [runAction, Action.deeds]
    split
    · exact .nothing rfl
    · exact .replace h q _
  | .collect source, scope, q, s, h => by
    rw [runAction, Action.deeds]
    split
    · exact .nothing rfl
    · split
      · exact .destroy (Chain.ofList_sound source.yielded).1 rfl
      · exact .replace h q _
  | .collectFrom origin limit, scope, q, s, h => collectFrom_records h q origin limit
  | .next, scope, q, s, h => by
    rw [runAction, Action.deeds]
    cases scope.iterated with
    | nil => exact .nothing rfl
    | cons p ps => exact popFrom_records h p
  | .sizeHint, scope, q, s, h => by
    rw [runAction, Action.deeds]
    split <;> exact .nothing rfl
  | .enqueue v, scope, q, s, h => by
    rw [runAction, Action.deeds]
    cases hq : s.get? q with
    | none =>
      rw [State.update_none hq]
      exact .nothing rfl
    | some c =>
      rw [h.update_some hq]
      exact .nothing rfl
  | .suspend v body abandon, scope, q, s, h => by
    rw [runAction, Action.deeds]
    cases hq : s.get? q with
    | none =>
      rw [State.update_none hq]
      exact .nothing rfl
    | some c =>
      have hc := h.queues hq
      have hbody := run_records body { scope with busy := q :: scope.busy }
        (h.set (q := q) (hc.grew (hc.link v).1))
      rw [← Reply.handedAll_suspended _ abandon] at hbody
      rw [h.update_some hq]
      -- the last step of the enqueuer, if it is made, destroys nothing
      cases abandon with
      | true => exact hbody.of_dropped rfl rfl
      | false => exact hbody.of_dropped rfl (State.update_dropped _ _ _)
  | .dequeue, scope, q, s, h => by
    rw [runAction, Action.deeds]
    exact popFrom_records h q
  | .discard, scope, q, s, h => discard_records h q
  | .isEmpty, scope, q, s, h => by
    rw [runAction, Action.deeds]
    cases s.get? q <;> exact .nothing rfl
  | .extend source borrow, scope, q, s, h => by
    rw [runAction, Action.deeds]
    cases hq : s.get? q with
    | none => exact .nothing rfl
    | some c =>
      dsimp only
      rw [h.update_some hq]
      split
      · exact .nothing rfl
      · split <;> exact .nothing rfl
  | .transfer origin limit borrow, scope, q, s, h => transfer_records h q origin limit borrow
  | .takeUpTo limit, scope, q, s, h => by
    rw [runAction, Action.deeds]
    cases hq : s.get? q with
    | none =>
      rw [State.update_none hq]
      exact .nothing rfl
    | some c =>
      rw [h.update_some hq]
      exact .pops (h.queues hq) _ rfl
  | .iterate body, scope, q, s, h => by
    rw [runAction, Action.deeds]
    cases hq : s.get? q with
    | none => exact .nothing rfl
    | some c =>
      have hbody := run_records body ⟨q :: scope.busy, q :: scope.iterated⟩ h
      rw [← Reply.handedAll_iterated] at hbody
      exact hbody
  | .debug, scope, q, s, h => by
    rw [runAction, Action.deeds]
    split <;> exact .nothing rfl
  | .drop, scope, q, s, h => by
    rw [runAction, Action.deeds]
    cases hq : s.get? q with
    | none =>
      have hnone : s.deed .drop q = [] := by rw [State.deed, hq]; rfl
      rw [hnone, ite_self]
      exact .nothing rfl
    | some c =>
      dsimp only
      split
      · exact .nothing rfl
      · exact .drop h q
  | .unknown, scope, q, s, h => .nothing rfl

theorem run_records :
    ∀ (script : Script α) (scope : Scope) {s : State α}, s.Sound →
      Records s (run scope script s).1 (Observation.handedAll (run scope script s).2)
        (Observation.destroyedAll (run scope script s).2) (script.deeds scope s)
  | .done, scope, s, h => .nothing rfl
  | .step q action rest, scope, s, h => by
    have hact := runAction_records action scope q h
    have hobs := hact.trans (.observe _ q (runAction scope q action s).2)
    have hsound := (runAction_matches action scope q h).1.observe q (runAction scope q action s).2
    have hrest := hobs.trans (run_records rest scope hsound.1.sound)
    rw [List.append_nil, List.append_nil] at hrest
    change Records s _ (Observation.handedAll (.mk _ _ _ :: _))
      (Observation.destroyedAll (.mk _ _ _ :: _)) _
    rw [Observation.handedAll_cons, Observation.destroyedAll_cons]
    exact hrest

end

/-- What is destroyed when all queues are dropped in the end. -/
theorem State.Sound.close_records {s : State α} (h : s.Sound) :
    Records s { s with dropped := [] } [] (s.dropped ++ s.close.flatMap Prod.snd)
      (s.queues.map fun e => ⟨.drop, e.2⟩) where
  sound := List.forall_mem_map.mpr fun e he => h.queues (h.sorted.get?_of_mem he)
  handed := by
    rw [List.flatMap_map]
    exact (List.flatMap_eq_nil_iff.mpr fun _ _ => rfl).symm
  destroyed := by
    rw [h.close, List.append_nil, State.ledger, List.flatMap_map, List.flatMap_map]
    rfl

/-- What a script has handed out and destroyed at its end comes from its deeds. -/
theorem runAlone_records (script : Script α) :
    Observation.handedAll (runAlone script).1 = script.allDeeds.flatMap Deed.handed ∧
      Observation.destroyedAll (runAlone script).1 ++ (runAlone script).2.flatMap Prod.snd =
        script.allDeeds.flatMap Deed.destroyed ∧
      ∀ d ∈ script.allDeeds, d.chain.Sound := by
  have hstart : (State.start : State α).Sound := State.start_sound
  have hend := (run_matches script ⟨[], []⟩ hstart).1
  have hdropped : (run ⟨[], []⟩ script (.start : State α)).1.dropped = [] :=
    (congrArg Ledger.dropped hend.ledger).trans (Ledger.run_dropped script _ rfl)
  have hall := (run_records script ⟨[], []⟩ hstart).trans hend.sound.close_records
  rw [List.append_nil, hdropped, List.nil_append] at hall
  exact ⟨hall.handed, (hall.destroyed.trans (List.append_nil _)).symm, hall.sound⟩

/-- Whatever a script does, each value that it puts into a queue from outside is handed out once or
destroyed once. Both come from its deeds in their order, a drop with all that the queue still holds,
and every deed is clean. -/
theorem runAlone_accounts (script : Script α) :
    (↑(script.entered (runAlone script).1) : Multiset α) =
        ↑(Observation.handedAll (runAlone script).1) +
          ↑(Observation.destroyedAll (runAlone script).1 ++ (runAlone script).2.flatMap Prod.snd) ∧
      Observation.handedAll (runAlone script).1 = script.allDeeds.flatMap Deed.handed ∧
      Observation.destroyedAll (runAlone script).1 ++ (runAlone script).2.flatMap Prod.snd =
        script.allDeeds.flatMap Deed.destroyed ∧
      ∀ d ∈ script.allDeeds, d.Clean := by
  obtain ⟨hhanded, hdestroyed, hsound⟩ := runAlone_records script
  refine ⟨?_, hhanded, hdestroyed, fun d hd => Deed.clean_of_sound (hsound d hd)⟩
  rw [runAlone_balances, Observation.out, add_assoc, Multiset.coe_add]

-- `tail` lags when the queue is dropped
example : Observation.destroyedAll (runAlone (.step 0 (.enqueue 1)
    (.step 0 (.suspend 2 .done true) (.step 0 .drop .done)))).1 = [1, 2] := by decide

end Script

end QueueRace
