import QueueRace.Proofs.Script.Deeds
import QueueRace.Proofs.Script.Lag

/-! Values that go from one queue into another, or round in one queue. A limit stops the loop before
it dequeues another value, so what is not moved stays where it is. In one queue a value that was
put back can come to the front again, any number of times, and the queue is rotated. -/

namespace QueueRace

variable {α : Type}

namespace Chain

/-- A loop has moved values out of `a`, one by one and with a limit if there is one, behind the items
in `old`. The queue has become `a'`, and the list `new`. -/
structure Pours (limit : Option ℕ) (a a' : Chain α) (old new : List α)
    (found : List (Dequeue.Phase α)) : Prop where
  rest : a'.toList = a.toList.drop (limit.getD a.toList.length)
  moved : new = old ++ a.toList.take (limit.getD a.toList.length)
  /-- All its dequeues have answered; a limit that is reached ends the loop before another one. -/
  finds : found = ((a.toList.map some ++ [none]).take (limit.getD (a.toList.length + 1))).map .done

/-- A loop has enqueued again what it has dequeued, `n` times. -/
structure Rotates (n : ℕ) (a a' : Chain α) (found : List (Dequeue.Phase α)) : Prop where
  items : a'.toList = a.toList.drop (n % a.toList.length) ++ a.toList.take (n % a.toList.length)
  once : n = a.toList.length → a'.toList = a.toList
  finds : a.toList ≠ [] → found = (List.range n).map fun i => .done a.toList[i % a.toList.length]?
  finds_none : a.toList = [] → found = ([none].take n).map .done

variable {a b c : Chain α}

theorem Sound.visits_enqueue_answers (h : c.Sound) (hne : c.toList ≠ []) (n : ℕ) :
    (Chain.visits Chain.enqueue n c).map (fun d => d.dequeue.2) =
      (List.range n).map fun i => .done c.toList[i % c.toList.length]? := by
  induction n generalizing c with
  | zero => rfl
  | succ n ih =>
    rw [Chain.visits, List.map_cons, List.range_succ_eq_map, List.map_cons, List.map_map]
    rcases h.dequeue_cases with ⟨c', hd, -, hnil, -⟩ | ⟨c', v, hd, g, hlist⟩
    · exact absurd hnil hne
    · obtain ⟨g', hback⟩ := (h.grew g).enqueue v
      have hturned : (c'.enqueue v).toList = c.toList.rotate 1 := by
        rw [hback, hlist, List.rotate_cons_succ, List.rotate_zero]
      have hlen : 0 < c.toList.length := List.length_pos_iff.mpr hne
      rw [hd]
      refine congrArg₂ List.cons ?_ ?_
      · rw [Nat.zero_mod, hlist, List.getElem?_cons_zero]
      · refine (ih ((h.grew g).grew g') (by rw [hback]; exact List.concat_ne_nil v _)).trans ?_
        refine List.map_congr_left fun i _ => ?_
        rw [hturned, List.length_rotate, List.getElem?_rotate (Nat.mod_lt i hlen), Nat.mod_add_mod]
        rfl

/-- Without a limit the loop goes on until it finds nothing. -/
theorem Sound.take_bound (h : c.Sound) (limit : Option ℕ) :
    (c.toList.map some ++ [none]).take (limit.getD c.bound) =
      (c.toList.map some ++ [none]).take (limit.getD (c.toList.length + 1)) := by
  cases limit with
  | none =>
    have hlen : (c.toList.map some ++ [none]).length = c.toList.length + 1 := by simp
    have hlt := h.length_lt_bound
    rw [Option.getD_none, Option.getD_none, List.take_of_length_le (hlen.le.trans hlt),
      List.take_of_length_le hlen.le]
  | some n => rfl

theorem Sound.pours (ha : a.Sound) (hb : b.Sound) (limit : Option ℕ) :
    Pours limit a (a.pour b (limit.getD a.bound)).1 b.toList (a.pour b (limit.getD a.bound)).2.toList
      ((Chain.visits keep (limit.getD a.bound) a).map fun d => d.dequeue.2) := by
  obtain ⟨-, hrest, hmoved⟩ := ha.pour hb (limit.getD a.bound)
  obtain ⟨htake, hdrop⟩ := ha.getD_bound limit
  refine ⟨hrest.trans hdrop, hmoved.trans (congrArg _ htake), ?_⟩
  rw [ha.visits_answers, ha.take_bound]

theorem Sound.rotates (ha : a.Sound) (n : ℕ) :
    Rotates n a (a.rotate n) ((Chain.visits Chain.enqueue n a).map fun d => d.dequeue.2) := by
  have hlist := (ha.rotate n).2
  refine ⟨hlist.trans List.rotate_eq_drop_append_take_mod, ?_,
    fun hne => ha.visits_enqueue_answers hne n, ?_⟩
  · rintro rfl
    rw [hlist, List.rotate_length]
  · intro hnil
    rw [ha.visits_of_empty hnil]

end Chain

open Chain (Pours Rotates)

namespace Script

def finds (scope : Scope) (q : Slot) (action : Action α) (s : State α) : List (Dequeue.Phase α) :=
  ((action.deeds scope q s).filter fun d => d.kind == .move).map fun d => d.chain.dequeue.2

structure MoveLaw (scope : Scope) (s : State α) : Prop where
  transfer : ∀ {p q a b} (limit : Option ℕ) (borrow : Borrow), p ≠ q → s.get? p = some a →
    s.get? q = some b → (borrow = .exclusive → q ∉ scope.busy) → ∃ a' b',
      runAction scope q (.transfer p limit borrow) s = ((s.set p a').set q b', .done) ∧
      Pours limit a a' b.toList b'.toList (finds scope q (.transfer p limit borrow) s)
  collect : ∀ {p q a} (limit : Option ℕ), p ≠ q → s.get? p = some a → q ∉ scope.busy → ∃ a' c,
    runAction scope q (.collectFrom p limit) s = ((s.set p a').replace q c, .done) ∧
      Pours limit a a' [] c.toList (finds scope q (.collectFrom p limit) s)
  rotate : ∀ {p a} (n : ℕ), s.get? p = some a → ∃ a',
    runAction scope p (.transfer p (some n) .shared) s = (s.set p a', .done) ∧
      Rotates n a a' (finds scope p (.transfer p (some n) .shared) s)

section
variable {s : State α} {scope : Scope} {p q : Slot} {a b : Chain α}

theorem finds_loop (back : Chain α → α → Chain α) (n : ℕ) (c : Chain α) :
    ((loopDeeds .move back n c).filter fun d => d.kind == .move).map (fun d => d.chain.dequeue.2) =
      (Chain.visits back n c).map fun d => d.dequeue.2 := by
  rw [List.filter_eq_self.mpr, loopDeeds, List.map_map]
  · rfl
  · exact List.forall_mem_map.mpr fun _ _ => rfl

theorem transfers (hs : s.Sound) (hne : p ≠ q) (hp : s.get? p = some a) (hq : s.get? q = some b)
    (limit : Option ℕ) {borrow : Borrow} (hb : borrow = .exclusive → q ∉ scope.busy) :
    ∃ a' b', runAction scope q (.transfer p limit borrow) s = ((s.set p a').set q b', .done) ∧
      Pours limit a a' b.toList b'.toList (finds scope q (.transfer p limit borrow) s) := by
  have hfree : ¬(borrow = .exclusive ∧ (q ∈ scope.busy ∨ q = p)) := by
    rintro ⟨he, hbusy | rfl⟩
    · exact hb he hbusy
    · exact hne rfl
  have hfinds : finds scope q (.transfer p limit borrow) s =
      (Chain.visits Chain.keep (limit.getD a.bound) a).map fun d => d.dequeue.2 := by
    simp only [finds, Action.deeds, hp, hq]
    rw [if_neg hfree, if_neg (Ne.symm hne), finds_loop]
  rw [hfinds]
  refine ⟨_, _, ?_, (hs.queues hp).pours (hs.queues hq) limit⟩
  simp only [runAction, hp, hq]
  rw [if_neg hfree, if_neg (Ne.symm hne)]

theorem collects (hs : s.Sound) (hne : p ≠ q) (hp : s.get? p = some a) (hq : q ∉ scope.busy)
    (limit : Option ℕ) :
    ∃ a' c, runAction scope q (.collectFrom p limit) s = ((s.set p a').replace q c, .done) ∧
      Pours limit a a' [] c.toList (finds scope q (.collectFrom p limit) s) := by
  have hfree : ¬(q ∈ scope.busy ∨ q = p) := fun hbusy => hbusy.elim hq (Ne.symm hne)
  have hfinds : finds scope q (.collectFrom p limit) s =
      (Chain.visits Chain.keep (limit.getD a.bound) a).map fun d => d.dequeue.2 := by
    -- the queue that was in the slot is dropped, and its values go nowhere
    have hdrops : (s.deed .drop q).filter (fun d => d.kind == .move) = [] := by
      rw [State.deed]
      cases s.get? q <;> rfl
    simp only [finds, Action.deeds, hp]
    rw [if_neg hfree, List.filter_append, hdrops, List.append_nil, finds_loop]
  rw [hfinds]
  refine ⟨_, _, ?_, (hs.queues hp).pours Chain.empty_sound limit⟩
  simp only [runAction, hp]
  rw [if_neg hfree]

theorem rotates (hs : s.Sound) (hp : s.get? p = some a) (n : ℕ) :
    ∃ a', runAction scope p (.transfer p (some n) .shared) s = (s.set p a', .done) ∧
      Rotates n a a' (finds scope p (.transfer p (some n) .shared) s) := by
  have hfinds : finds scope p (.transfer p (some n) .shared) s =
      (Chain.visits Chain.enqueue n a).map fun d => d.dequeue.2 := by
    simp [finds, Action.deeds, hp, finds_loop]
  rw [hfinds]
  exact ⟨_, by simp [runAction, hp], (hs.queues hp).rotates n⟩

end

/-- What is moved from one queue to another comes in its order behind what was there, and no value
beyond the limit is dequeued. A queue that is moved into itself is rotated, however often its values
come round. This holds in every state inside a run of any script, however the two `tail`s lag. -/
theorem runAlone_moves (script : Script α) {scope : Scope} {s : State α}
    (hs : (scope, s) ∈ script.passes ⟨[], []⟩ .start) : MoveLaw scope s := by
  have hsound := (script_passes script ⟨[], []⟩ State.start_sound _ hs).1.sound
  exact ⟨fun limit _ hne hp hq hb => transfers hsound hne hp hq limit hb,
    fun limit hne hp hq => collects hsound hne hp hq limit,
    fun n hp => rotates hsound hp n⟩

def lagging : Script ℕ :=
  .step 0 (.extend ⟨[1, 2], none⟩ .shared) <| .step 0 (.suspend 3 .done true) <|
    .step 1 .renew <| .step 1 (.suspend 7 .done true) .done

/-- Two items are moved, or three go round two times and the first of them once more. -/
theorem runAlone_moves_lagging :
    MoveLaw ⟨[], []⟩ (run ⟨[], []⟩ lagging .start).1 ∧
      (run ⟨[], []⟩ lagging .start).1.size? 0 = some ⟨3, 1⟩ ∧
      (run ⟨[], []⟩ lagging .start).1.size? 1 = some ⟨1, 1⟩ ∧
      (runAction ⟨[], []⟩ 1 (.transfer 0 (some 2) .exclusive)
        (run ⟨[], []⟩ lagging .start).1).1.ledger.lists = [(0, [3]), (1, [7, 1, 2])] ∧
      (runAction ⟨[], []⟩ 0 (.transfer 0 (some 7) .shared)
        (run ⟨[], []⟩ lagging .start).1).1.ledger.lists = [(0, [2, 3, 1]), (1, [7])] := by
  refine ⟨runAlone_moves lagging ?_, by decide, by decide, by decide, by decide⟩
  exact end_mem_passes lagging ⟨[], []⟩ .start

end Script

end QueueRace
