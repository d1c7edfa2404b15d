import QueueRace.Proofs.Chain.Layout

/-! What the machines of the queue operations know. A machine keeps the pointers that it has
loaded while other machines go on changing the chain. Its knowledge is put in terms of positions
in the layout, and so it stays true when the layout grows. Each step of a machine that knows what
it should keeps the chain in a layout, and its effect says how the layout has grown. -/

namespace QueueRace

variable {α : Type}

/-- A node that holds a value and is not linked to anything. -/
structure Chain.Fresh (c : Chain α) (y : Layout) (a : Addr) : Prop where
  outside : a ∉ y.order
  inside : a < c.nodes.size
  filled : (c.value a).isSome

theorem Chain.Fits.fresh_alloc {c : Chain α} {y : Layout} (h : c.Fits y) (v : α) :
    (c.alloc v).Fresh y c.nodes.size where
  outside hm := Nat.lt_irrefl _ (h.inside _ hm)
  inside := by rw [Chain.size_alloc]; exact Nat.lt_succ_self _
  filled := by simp [Chain.value_alloc]

/-! ### Compare-and-swap on `tail` -/

theorem Chain.casTail_of_eq {c : Chain α} {old new : Addr} (h : c.tail = old) :
    c.casTail old new = ({ c with tail := new }, true) := if_pos h

theorem Chain.casTail_of_ne {c : Chain α} {old new : Addr} (h : c.tail ≠ old) :
    c.casTail old new = (c, false) := if_neg h

/-! ### Enqueue -/

namespace Enqueue

namespace Phase

/-- Whether the node is in the chain. -/
def linked : Phase → Bool
  | .swing _ => true
  | .done => true
  | _ => false

/-- What an enqueuer of the node `new` knows. -/
def Sound (y : Layout) (new : Addr) : Phase → Prop
  | .readTail => True
  | .readNext tail => ∃ i ≤ y.tail, y.order[i]? = some tail
  | .recheck tail next => ∃ i ≤ y.tail, y.order[i]? = some tail ∧
      ∀ b, next = some b → y.order[i + 1]? = some b
  | .link tail => ∃ i ≤ y.tail, y.order[i]? = some tail
  | .help tail next => ∃ i, y.order[i]? = some tail ∧ y.order[i + 1]? = some next
  | .swing tail => ∃ i ≤ y.tail, y.order[i]? = some tail ∧ y.order[i + 1]? = some new
  | .done => ∃ i ≤ y.tail, y.order[i]? = some new

theorem Sound.grows {y z : Layout} (g : y.Grows z) {new : Addr} {p : Phase} (h : p.Sound y new) :
    p.Sound z new := by
  cases p with
  | readTail => trivial
  | readNext tail =>
    obtain ⟨i, hi, ha⟩ := h
    exact ⟨i, hi.trans g.tail, g.getElem? ha⟩
  | recheck tail next =>
    obtain ⟨i, hi, ha, hb⟩ := h
    exact ⟨i, hi.trans g.tail, g.getElem? ha, fun b e => g.getElem? (hb b e)⟩
  | link tail =>
    obtain ⟨i, hi, ha⟩ := h
    exact ⟨i, hi.trans g.tail, g.getElem? ha⟩
  | help tail next =>
    obtain ⟨i, ha, hb⟩ := h
    exact ⟨i, g.getElem? ha, g.getElem? hb⟩
  | swing tail =>
    obtain ⟨i, hi, ha, hb⟩ := h
    exact ⟨i, hi.trans g.tail, g.getElem? ha, g.getElem? hb⟩
  | done =>
    obtain ⟨i, hi, ha⟩ := h
    exact ⟨i, hi.trans g.tail, g.getElem? ha⟩

end Phase

/-- What a step of an enqueuer of `new` can do: it links its node, or it leaves all links as
they are and at most moves `tail`. -/
structure Outcome (c : Chain α) (y : Layout) (new : Addr) (p : Phase) (r : Chain α × Phase × Effect) :
    Prop where
  fits : r.1.Fits (y.after r.2.2)
  sound : r.2.1.Sound (y.after r.2.2) new
  value_eq : r.1.value = c.value
  size_eq : r.1.nodes.size = c.nodes.size
  effect : (∃ a, p = .link a ∧ r.2.1 = .swing a ∧ r.2.2 = .linked new) ∨
    r.2.1.linked = p.linked ∧ (r.2.2 = .none ∨ ∃ b, r.2.2 = .movedTail b)

section
variable {c : Chain α} {y : Layout} {new : Addr} {p p' : Phase}

/-- A step that changes nothing. -/
theorem Outcome.quiet (h : c.Fits y) (hp : p'.Sound y new) (hl : p'.linked = p.linked) :
    Outcome c y new p (c, p', .none) :=
  ⟨h, hp, rfl, rfl, .inr ⟨hl, .inl rfl⟩⟩

theorem Outcome.moved (h : c.Fits y) {b : Addr} (hb : y.order[y.tail + 1]? = some b)
    (hp : p'.Sound (y.after (.movedTail b)) new) (hl : p'.linked = p.linked) :
    Outcome c y new p ({ c with tail := b }, p', .movedTail b) :=
  ⟨h.moveTail hb, hp, rfl, rfl, .inr ⟨hl, .inr ⟨b, rfl⟩⟩⟩

theorem step_outcome (h : c.Fits y) (hp : p.Sound y new) (hf : p.linked = false → c.Fresh y new) :
    Outcome c y new p (step new c p) := by
  cases p with
  | readTail => exact .quiet h ⟨y.tail, le_rfl, h.tail_eq⟩ rfl
  | readNext tail =>
    obtain ⟨i, hi, ha⟩ := hp
    exact .quiet h ⟨i, hi, ha, fun b hb => (h.next_eq ha).symm.trans hb⟩ rfl
  | recheck tail next =>
    obtain ⟨i, hi, ha, hb⟩ := hp
    simp only [step]
    split
    · cases next with
      | none => exact .quiet h ⟨i, hi, ha⟩ rfl
      | some b => exact .quiet h ⟨i, ha, hb b rfl⟩ rfl
    · exact .quiet h trivial rfl
  | link tail =>
    obtain ⟨i, hi, ha⟩ := hp
    obtain ⟨ho, hs, hv⟩ := hf rfl
    simp only [step, Chain.casNext_eq]
    by_cases hn : c.next tail = none
    · -- a node without a successor is the last one, so `tail` does not lag
      have hl := (h.next_eq_none_iff ha).mp hn
      have ht := h.tail_lt
      obtain rfl : i = y.tail := by omega
      rw [if_pos ⟨h.getElem?_lt ha, hn⟩]
      refine ⟨h.setNext ha hl ho hs hv, ⟨y.tail, le_rfl, ?_, ?_⟩, Chain.value_setNext _ _ _,
        Chain.size_setNext _ _ _, .inl ⟨tail, rfl, rfl, rfl⟩⟩
      · exact (y.grows_after (.linked new)).getElem? ha
      · simp [Layout.after, hl]
    · rw [if_neg (fun hc => hn hc.2)]
      exact .quiet h trivial rfl
  | help tail next =>
    obtain ⟨i, ha, hb⟩ := hp
    simp only [step]
    by_cases ht : c.tail = tail
    · subst ht
      obtain rfl := h.index_eq ha h.tail_eq
      rw [Chain.casTail_of_eq rfl]
      exact .moved h hb trivial rfl
    · rw [Chain.casTail_of_ne ht]
      exact .quiet h trivial rfl
  | swing tail =>
    obtain ⟨i, hi, ha, hb⟩ := hp
    simp only [step]
    by_cases ht : c.tail = tail
    · subst ht
      obtain rfl := h.index_eq ha h.tail_eq
      rw [Chain.casTail_of_eq rfl]
      exact .moved h hb ⟨y.tail + 1, le_rfl, hb⟩ rfl
    · have hne : i ≠ y.tail := by
        rintro rfl
        exact ht (Option.some.inj (h.tail_eq.symm.trans ha))
      rw [Chain.casTail_of_ne ht]
      exact .quiet h ⟨i + 1, by omega, hb⟩ rfl
  | done => exact .quiet h hp rfl

/-- While `tail` is right before its node, an enqueuer does not lose the race for it. -/
theorem step_swing_of_lag (h : c.Fits y) {tail : Addr} (hp : (Phase.swing tail).Sound y new)
    (hn : y.order[y.tail + 1]? = some new) :
    step new c (.swing tail) = ({ c with tail := new }, .done, .movedTail new) := by
  obtain ⟨i, hi, ha, hb⟩ := hp
  have hit : i + 1 = y.tail + 1 := h.index_eq hb hn
  obtain rfl : i = y.tail := by omega
  have ht : c.tail = tail := Option.some.inj (h.tail_eq.symm.trans ha)
  simp only [step, Chain.casTail_of_eq ht]

end

end Enqueue

/-! ### Dequeue -/

namespace Dequeue

/-- What a dequeuer knows. -/
def Phase.Sound (y : Layout) : Phase α → Prop
  | .readHead => True
  | .readTail head => ∃ i ≤ y.head, y.order[i]? = some head
  | .readNext head tail => ∃ i j, i ≤ y.head ∧ i ≤ j ∧ j ≤ y.tail ∧
      y.order[i]? = some head ∧ y.order[j]? = some tail
  | .recheck head tail next => ∃ i j, i ≤ y.head ∧ i ≤ j ∧ j ≤ y.tail ∧
      y.order[i]? = some head ∧ y.order[j]? = some tail ∧
      (∀ b, next = some b → y.order[i + 1]? = some b) ∧ (next = none → head = tail)
  | .help tail next => ∃ i, y.order[i]? = some tail ∧ y.order[i + 1]? = some next
  | .unlink head next => ∃ i < y.tail, y.order[i]? = some head ∧ y.order[i + 1]? = some next
  | .take next => ∃ i ≤ y.head, y.order[i]? = some next
  | .done _ => True

theorem Phase.Sound.grows {y z : Layout} (g : y.Grows z) {p : Phase α} (h : p.Sound y) :
    p.Sound z := by
  cases p with
  | readHead => trivial
  | readTail head =>
    obtain ⟨i, hi, ha⟩ := h
    exact ⟨i, hi.trans g.head, g.getElem? ha⟩
  | readNext head tail =>
    obtain ⟨i, j, hi, hij, hj, ha, hb⟩ := h
    exact ⟨i, j, hi.trans g.head, hij, hj.trans g.tail, g.getElem? ha, g.getElem? hb⟩
  | recheck head tail next =>
    obtain ⟨i, j, hi, hij, hj, ha, hb, hn, he⟩ := h
    exact ⟨i, j, hi.trans g.head, hij, hj.trans g.tail, g.getElem? ha, g.getElem? hb,
      fun b e => g.getElem? (hn b e), he⟩
  | help tail next =>
    obtain ⟨i, ha, hb⟩ := h
    exact ⟨i, g.getElem? ha, g.getElem? hb⟩
  | unlink head next =>
    obtain ⟨i, hi, ha, hb⟩ := h
    exact ⟨i, hi.trans_le g.tail, g.getElem? ha, g.getElem? hb⟩
  | take next =>
    obtain ⟨i, hi, ha⟩ := h
    exact ⟨i, hi.trans g.head, g.getElem? ha⟩
  | done answer => trivial

/-- What a step of a dequeuer can do: it takes its value, or it moves `head` over the first item
and owns that item's value from then on, or it at most moves `tail`. -/
structure Outcome (c : Chain α) (y : Layout) (p : Phase α) (r : Chain α × Phase α × Effect) :
    Prop where
  fits : r.1.Fits (y.after r.2.2)
  sound : r.2.1.Sound (y.after r.2.2)
  size_eq : r.1.nodes.size = c.nodes.size
  effect : (∃ a, p = .take a ∧ r.1 = (c.take a).1 ∧ r.2.1 = .done (c.value a) ∧ r.2.2 = .none) ∨
    r.1.value = c.value ∧ (∀ a, p ≠ .take a) ∧
      ((∃ b, r.2.1 = .take b ∧ y.order[y.head + 1]? = some b ∧ r.2.2 = .movedHead c.head b) ∨
        (∀ a, r.2.1 ≠ .take a) ∧ (r.2.2 = .none ∨ ∃ b, r.2.2 = .movedTail b))

section
variable {c : Chain α} {y : Layout} {p p' : Phase α}

theorem Outcome.quiet (h : c.Fits y) (hp : p'.Sound y) (hn : ∀ a, p ≠ .take a)
    (hn' : ∀ a, p' ≠ .take a) : Outcome c y p (c, p', .none) :=
  ⟨h, hp, rfl, .inr ⟨rfl, hn, .inr ⟨hn', .inl rfl⟩⟩⟩

theorem step_outcome (h : c.Fits y) (hp : p.Sound y) : Outcome c y p (step c p) := by
  cases p with
  | readHead => exact .quiet h ⟨y.head, le_rfl, h.head_eq⟩ nofun nofun
  | readTail head =>
    obtain ⟨i, hi, ha⟩ := hp
    exact .quiet h ⟨i, y.tail, hi, hi.trans h.head_le_tail, le_rfl, ha, h.tail_eq⟩ nofun nofun
  | readNext head tail =>
    obtain ⟨i, j, hi, hij, hj, ha, hb⟩ := hp
    refine .quiet h ⟨i, j, hi, hij, hj, ha, hb, fun b e => (h.next_eq ha).symm.trans e, ?_⟩
      nofun nofun
    -- without a successor `head` is the last node, and `tail` is not before it
    intro hn
    have hl := (h.next_eq_none_iff ha).mp hn
    have ht := h.tail_lt
    obtain rfl : i = j := by omega
    exact Option.some.inj (ha.symm.trans hb)
  | recheck head tail next =>
    obtain ⟨i, j, hi, hij, hj, ha, hb, hn, he⟩ := hp
    simp only [step]
    split
    · cases next with
      | none =>
        rw [if_pos (he rfl)]
        exact .quiet h trivial nofun nofun
      | some b =>
        by_cases ht : head = tail
        · subst ht
          simp only [↓reduceIte]
          exact .quiet h ⟨i, ha, hn b rfl⟩ nofun nofun
        · have hne : i ≠ j := by
            rintro rfl
            exact ht (Option.some.inj (ha.symm.trans hb))
          simp only [if_neg ht]
          exact .quiet h ⟨i, by omega, ha, hn b rfl⟩ nofun nofun
    · exact .quiet h trivial nofun nofun
  | help tail next =>
    obtain ⟨i, ha, hb⟩ := hp
    simp only [step]
    by_cases ht : c.tail = tail
    · subst ht
      obtain rfl := h.index_eq ha h.tail_eq
      rw [Chain.casTail_of_eq rfl]
      exact ⟨h.moveTail hb, trivial, rfl, .inr ⟨rfl, nofun, .inr ⟨nofun, .inr ⟨next, rfl⟩⟩⟩⟩
    · rw [Chain.casTail_of_ne ht]
      exact .quiet h trivial nofun nofun
  | unlink head next =>
    obtain ⟨i, hi, ha, hb⟩ := hp
    simp only [step, Chain.casHead]
    by_cases hh : c.head = head
    · subst hh
      obtain rfl := h.index_eq ha h.head_eq
      simp only [↓reduceIte]
      exact ⟨h.moveHead hb hi, ⟨y.head + 1, le_rfl, hb⟩, rfl,
        .inr ⟨rfl, nofun, .inl ⟨next, rfl, hb, rfl⟩⟩⟩
    · rw [if_neg hh]
      exact .quiet h trivial nofun nofun
  | take next =>
    obtain ⟨i, hi, ha⟩ := hp
    exact ⟨h.take ha hi, trivial, Chain.size_take _ _, .inl ⟨next, rfl, rfl, rfl, rfl⟩⟩
  | done answer => exact .quiet h trivial nofun nofun

end

end Dequeue

/-! ### Emptiness -/

/-- What a test for emptiness knows. -/
def IsEmpty.Phase.Sound (y : Layout) : IsEmpty.Phase → Prop
  | .readHead => True
  | .readNext head => ∃ i ≤ y.head, y.order[i]? = some head
  | .done _ => True

theorem IsEmpty.Phase.Sound.grows {y z : Layout} (g : y.Grows z) {p : IsEmpty.Phase}
    (h : p.Sound y) : p.Sound z := by
  cases p with
  | readHead => trivial
  | readNext head =>
    obtain ⟨i, hi, ha⟩ := h
    exact ⟨i, hi.trans g.head, g.getElem? ha⟩
  | done answer => trivial

theorem IsEmpty.step_sound {c : Chain α} {y : Layout} (h : c.Fits y) {p : IsEmpty.Phase} :
    (IsEmpty.step c p).Sound y := by
  cases p with
  | readHead => exact ⟨y.head, le_rfl, h.head_eq⟩
  | readNext head => trivial
  | done answer => trivial

end QueueRace
