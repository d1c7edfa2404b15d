import Mathlib.Data.List.Perm.Subperm
import Mathlib.Order.Nat
import QueueRace.Chain.Operation

/-! Where the nodes of a chain lie. A layout lists the addresses of all nodes that were ever
linked, retired ones included, in the order of their links, and says at which positions of this
list `head` and `tail` are. A chain fits a layout if its links run along the list, `tail` is not
before `head` and at most one link before the last node, and the nodes behind `head` hold values.
Proved: the views of a chain that fits, and what each single change of a chain does to its
layout. Which changes are made, and by whom, is left open here. -/

namespace QueueRace

variable {α : Type}

structure Layout where
  order : List Addr
  head : ℕ
  tail : ℕ

namespace Layout

/-- The layout of a lone sentinel. -/
def start : Layout := ⟨[0], 0, 0⟩

/-- The layout after a step that had the given effect. -/
def after (y : Layout) : Effect → Layout
  | .none => y
  | .linked new => { y with order := y.order ++ [new] }
  | .movedTail _ => { y with tail := y.tail + 1 }
  | .movedHead _ _ => { y with head := y.head + 1 }

/-- Nodes come only at the end, and `head` and `tail` move only forward. -/
structure Grows (y z : Layout) : Prop where
  order : y.order <+: z.order
  head : y.head ≤ z.head
  tail : y.tail ≤ z.tail

namespace Grows

variable {y z : Layout}

theorem refl (y : Layout) : y.Grows y := ⟨List.prefix_rfl, le_rfl, le_rfl⟩

theorem trans {x : Layout} (h : x.Grows y) (h' : y.Grows z) : x.Grows z :=
  ⟨h.order.trans h'.order, h.head.trans h'.head, h.tail.trans h'.tail⟩

/-- Positions keep their nodes. -/
theorem getElem? (h : y.Grows z) {i : ℕ} {a : Addr} (ha : y.order[i]? = some a) :
    z.order[i]? = some a := by
  obtain ⟨rest, hr⟩ := h.order
  have hi : i < y.order.length := (List.getElem?_eq_some_iff.mp ha).1
  rw [← hr, List.getElem?_append_left hi, ha]

end Grows

theorem grows_after (y : Layout) (e : Effect) : y.Grows (y.after e) := by
  cases e with
  | none => exact .refl y
  | linked new => exact ⟨List.prefix_append _ _, le_rfl, le_rfl⟩
  | movedTail target => exact ⟨List.prefix_rfl, le_rfl, Nat.le_succ _⟩
  | movedHead retired target => exact ⟨List.prefix_rfl, Nat.le_succ _, le_rfl⟩

/-- At most one node more, at the end, and `head` and `tail` at most one link further. -/
structure Advances (y z : Layout) : Prop where
  order : z.order = y.order ∨ ∃ a, z.order = y.order ++ [a]
  head : z.head = y.head ∨ z.head = y.head + 1
  tail : z.tail = y.tail ∨ z.tail = y.tail + 1

theorem advances_after (y : Layout) (e : Effect) : y.Advances (y.after e) := by
  cases e with
  | none => exact ⟨.inl rfl, .inl rfl, .inl rfl⟩
  | linked new => exact ⟨.inr ⟨new, rfl⟩, .inl rfl, .inl rfl⟩
  | movedTail target => exact ⟨.inl rfl, .inl rfl, .inr rfl⟩
  | movedHead retired target => exact ⟨.inl rfl, .inr rfl, .inl rfl⟩

end Layout

namespace Chain

/-! ### Reading after writing -/

/-- The chain with `new` linked behind `a`. -/
def setNext (c : Chain α) (a new : Addr) : Chain α :=
  { c with nodes := c.nodes.modify a fun n => { n with next := some new } }

theorem casNext_eq (c : Chain α) (a new : Addr) :
    c.casNext a new = if a < c.nodes.size ∧ c.next a = none then (c.setNext a new, true) else (c, false) :=
  rfl

@[simp] theorem next_alloc (c : Chain α) (v : α) (a : Addr) : (c.alloc v).next a = c.next a := by
  by_cases ha : a = c.nodes.size <;> simp [next, alloc, Array.getElem?_push, ha]

theorem value_alloc (c : Chain α) (v : α) (a : Addr) :
    (c.alloc v).value a = if a = c.nodes.size then some v else c.value a := by
  by_cases ha : a = c.nodes.size <;> simp [value, alloc, Array.getElem?_push, ha]

theorem next_setNext (c : Chain α) {a new : Addr} (ha : a < c.nodes.size) (b : Addr) :
    (c.setNext a new).next b = if a = b then some new else c.next b := by
  by_cases hb : a = b
  · subst hb
    simp [next, setNext, Array.getElem?_modify, Array.getElem?_eq_getElem ha]
  · simp [next, setNext, Array.getElem?_modify, hb]

@[simp] theorem value_setNext (c : Chain α) (a new : Addr) : (c.setNext a new).value = c.value := by
  funext b
  by_cases hb : a = b
  · cases hn : c.nodes[b]? <;> simp [value, setNext, Array.getElem?_modify, hb, hn]
  · simp [value, setNext, Array.getElem?_modify, hb]

@[simp] theorem next_take (c : Chain α) (a : Addr) : (c.take a).1.next = c.next := by
  funext b
  by_cases hb : a = b
  · cases hn : c.nodes[b]? <;> simp [next, take, Array.getElem?_modify, hb, hn]
  · simp [next, take, Array.getElem?_modify, hb]

theorem value_take (c : Chain α) (a b : Addr) :
    (c.take a).1.value b = if a = b then none else c.value b := by
  by_cases hb : a = b
  · cases hn : c.nodes[b]? <;> simp [value, take, Array.getElem?_modify, hb, hn]
  · simp [value, take, Array.getElem?_modify, hb]

@[simp] theorem size_alloc (c : Chain α) (v : α) : (c.alloc v).nodes.size = c.nodes.size + 1 := by
  simp [alloc]

@[simp] theorem size_setNext (c : Chain α) (a new : Addr) :
    (c.setNext a new).nodes.size = c.nodes.size := by
  simp [setNext]

@[simp] theorem size_take (c : Chain α) (a : Addr) : (c.take a).1.nodes.size = c.nodes.size := by
  simp [take]

/-! ### Fitting a layout -/

structure Fits (c : Chain α) (y : Layout) : Prop where
  nodup : y.order.Nodup
  inside : ∀ a ∈ y.order, a < c.nodes.size
  next_eq : ∀ {i a}, y.order[i]? = some a → c.next a = y.order[i + 1]?
  unlinked : ∀ {a}, a ∉ y.order → c.next a = none
  head_eq : y.order[y.head]? = some c.head
  tail_eq : y.order[y.tail]? = some c.tail
  head_le_tail : y.head ≤ y.tail
  length_le : y.order.length ≤ y.tail + 2
  filled : ∀ {i a}, y.head < i → y.order[i]? = some a → (c.value a).isSome

theorem empty_fits : (empty : Chain α).Fits .start where
  nodup := by simp [Layout.start]
  inside := by simp [Layout.start, empty]
  next_eq := by
    intro i a h
    have hi : i < 1 := by simpa [Layout.start] using (List.getElem?_eq_some_iff.mp h).1
    obtain rfl : i = 0 := by omega
    obtain rfl : 0 = a := by simpa [Layout.start] using h
    rfl
  unlinked := by
    intro a h
    have ha : a ≠ 0 := by simpa [Layout.start] using h
    simp [next, empty, ha]
  head_eq := rfl
  tail_eq := rfl
  head_le_tail := le_rfl
  length_le := by simp [Layout.start]
  filled := by
    intro i a hi h
    have : i < 1 := by simpa [Layout.start] using (List.getElem?_eq_some_iff.mp h).1
    simp only [Layout.start] at hi
    omega

namespace Fits

variable {c : Chain α} {y : Layout}

theorem index_eq (h : c.Fits y) {i j : ℕ} {a : Addr} (hi : y.order[i]? = some a)
    (hj : y.order[j]? = some a) : i = j := by
  have hl : i < y.order.length := (List.getElem?_eq_some_iff.mp hi).1
  exact (List.getElem?_inj hl h.nodup).mp (hi.trans hj.symm)

theorem tail_lt (h : c.Fits y) : y.tail < y.order.length :=
  (List.getElem?_eq_some_iff.mp h.tail_eq).1

theorem head_lt (h : c.Fits y) : y.head < y.order.length :=
  (List.getElem?_eq_some_iff.mp h.head_eq).1

theorem getElem?_lt (h : c.Fits y) {i : ℕ} {a : Addr} (ha : y.order[i]? = some a) :
    a < c.nodes.size :=
  h.inside a (List.mem_of_getElem? ha)

theorem order_length_le (h : c.Fits y) : y.order.length ≤ c.nodes.size := by
  have hs : y.order ⊆ List.range c.nodes.size := fun a ha => List.mem_range.mpr (h.inside a ha)
  simpa using (h.nodup.subperm hs).length_le

/-- The last node is the only one of the chain that has no successor. -/
theorem next_eq_none_iff (h : c.Fits y) {i : ℕ} {a : Addr} (ha : y.order[i]? = some a) :
    c.next a = none ↔ i + 1 = y.order.length := by
  have hi : i < y.order.length := (List.getElem?_eq_some_iff.mp ha).1
  rw [h.next_eq ha, List.getElem?_eq_none_iff]
  omega

/-- The layout determines the ends of the chain and its links. -/
theorem determined (h : c.Fits y) {c' : Chain α} (h' : c'.Fits y) :
    c'.head = c.head ∧ c'.tail = c.tail ∧ c'.next = c.next := by
  refine ⟨Option.some.inj (h'.head_eq.symm.trans h.head_eq),
    Option.some.inj (h'.tail_eq.symm.trans h.tail_eq), funext fun a => ?_⟩
  by_cases ha : a ∈ y.order
  · obtain ⟨i, hi⟩ := List.mem_iff_getElem?.mp ha
    rw [h'.next_eq hi, h.next_eq hi]
  · rw [h'.unlinked ha, h.unlinked ha]

theorem order_eq (h : c.Fits y) {z : Layout} (h' : c.Fits z)
    (h₀ : y.order[0]? = z.order[0]?) : y.order = z.order := by
  refine List.ext_getElem? fun i => ?_
  induction i with
  | zero => exact h₀
  | succ i ih =>
    cases ha : y.order[i]? with
    | some a => rw [← h.next_eq ha, ← h'.next_eq (ih.symm.trans ha)]
    | none =>
      have hy := List.getElem?_eq_none_iff.mp ha
      have hz := List.getElem?_eq_none_iff.mp (ih.symm.trans ha)
      rw [List.getElem?_eq_none (by omega), List.getElem?_eq_none (by omega)]

/-- The first node is the one that is linked and that no link leads to. -/
theorem first_eq (h : c.Fits y) {z : Layout} (h' : c.Fits z) (hl : 2 ≤ y.order.length) :
    y.order[0]? = z.order[0]? := by
  have ha : y.order[0]? = some y.order[0] := List.getElem?_eq_getElem (by omega)
  have hnext : c.next y.order[0] ≠ none := by
    rw [h.next_eq ha, List.getElem?_eq_getElem (by omega)]
    exact Option.some_ne_none _
  have hm : y.order[0] ∈ z.order := by_contra fun hn => hnext (h'.unlinked hn)
  obtain ⟨j, hj⟩ := List.mem_iff_getElem?.mp hm
  cases j with
  | zero => rw [ha, hj]
  | succ j =>
    -- the node before it in `z` would be before it in `y` too
    have hlt := (List.getElem?_eq_some_iff.mp hj).1
    have hb : z.order[j]? = some z.order[j] := List.getElem?_eq_getElem (by omega)
    have hlink : c.next z.order[j] = some y.order[0] := (h'.next_eq hb).trans hj
    have hm' : z.order[j] ∈ y.order := by
      by_contra hn
      rw [h.unlinked hn] at hlink
      cases hlink
    obtain ⟨i, hi⟩ := List.mem_iff_getElem?.mp hm'
    have := h.index_eq ((h.next_eq hi).symm.trans hlink) ha
    omega

/-- No chain lies in two layouts. -/
theorem unique (h : c.Fits y) {z : Layout} (h' : c.Fits z) : y = z := by
  have ho : y.order = z.order := by
    refine h.order_eq h' ?_
    by_cases hy : 2 ≤ y.order.length
    · exact h.first_eq h' hy
    by_cases hz : 2 ≤ z.order.length
    · exact (h'.first_eq h hz).symm
    -- the sentinel is all there is
    have hly := h.head_lt
    have hlz := h'.head_lt
    have hy₀ : y.head = 0 := by omega
    have hz₀ : z.head = 0 := by omega
    rw [← hy₀, h.head_eq, hy₀, ← hz₀, h'.head_eq]
  have hh : y.head = z.head := h.index_eq h.head_eq (ho ▸ h'.head_eq)
  have ht : y.tail = z.tail := h.index_eq h.tail_eq (ho ▸ h'.tail_eq)
  cases y
  cases z
  simp only at ho hh ht
  rw [ho, hh, ht]

/-! ### Views -/

theorem follow_eq (h : c.Fits y) :
    ∀ (n : ℕ) {i : ℕ} {a : Addr}, y.order[i]? = some a →
      c.follow n a = (y.order.drop (i + 1)).take n
  | 0, _, _, _ => by simp [follow]
  | n + 1, i, a, ha => by
    rw [follow, h.next_eq ha]
    cases hb : y.order[i + 1]? with
    | none => simp [List.drop_eq_nil_of_le (List.getElem?_eq_none_iff.mp hb)]
    | some b =>
      obtain ⟨hl, rfl⟩ := List.getElem?_eq_some_iff.mp hb
      simp only [h.follow_eq n hb]
      rw [List.drop_eq_getElem_cons hl, List.take_succ_cons]

theorem behind_eq (h : c.Fits y) {i : ℕ} {a : Addr} (ha : y.order[i]? = some a) :
    c.behind a = y.order.drop (i + 1) := by
  rw [behind, h.follow_eq _ ha, List.take_of_length_le]
  have := h.order_length_le
  rw [List.length_drop]
  omega

theorem length_eq (h : c.Fits y) : c.length = y.order.length - (y.head + 1) := by
  rw [length, h.behind_eq h.head_eq, List.length_drop]

theorem lag_eq (h : c.Fits y) : c.lag = y.order.length - (y.tail + 1) := by
  rw [lag, h.behind_eq h.tail_eq, List.length_drop]

theorem toList_eq (h : c.Fits y) : c.toList = (y.order.drop (y.head + 1)).filterMap c.value := by
  rw [toList, h.behind_eq h.head_eq]

theorem length_toList (h : c.Fits y) : c.toList.length = c.length := by
  rw [h.toList_eq, h.length_eq, ← List.length_drop, List.filterMap_length_eq_length]
  intro a ha
  obtain ⟨i, hi⟩ := List.mem_iff_getElem?.mp ha
  rw [List.getElem?_drop] at hi
  exact h.filled (by omega) hi

theorem toList_eq_nil_iff (h : c.Fits y) : c.toList = [] ↔ y.head + 1 = y.order.length := by
  rw [← List.length_eq_zero_iff, h.length_toList, h.length_eq]
  have := h.head_lt
  omega

/-! ### Changes -/

theorem alloc (h : c.Fits y) (v : α) : (c.alloc v).Fits y where
  nodup := h.nodup
  inside a ha := by rw [size_alloc]; exact Nat.lt_succ_of_lt (h.inside a ha)
  next_eq ha := by rw [next_alloc, h.next_eq ha]
  unlinked ha := by rw [next_alloc, h.unlinked ha]
  head_eq := h.head_eq
  tail_eq := h.tail_eq
  head_le_tail := h.head_le_tail
  length_le := h.length_le
  filled hi ha := by
    rw [value_alloc, if_neg (Nat.ne_of_lt (h.getElem?_lt ha))]
    exact h.filled hi ha

theorem toList_alloc (h : c.Fits y) (v : α) : (c.alloc v).toList = c.toList := by
  rw [(h.alloc v).toList_eq, h.toList_eq]
  apply List.filterMap_congr
  intro a ha
  rw [value_alloc, if_neg (Nat.ne_of_lt (h.inside a (List.mem_of_mem_drop ha)))]

/-- Linking a fresh node behind the last one, when `tail` does not lag. -/
theorem setNext (h : c.Fits y) {a new : Addr} (ha : y.order[y.tail]? = some a)
    (hl : y.tail + 1 = y.order.length) (hn : new ∉ y.order) (hs : new < c.nodes.size)
    (hv : (c.value new).isSome) : (c.setNext a new).Fits (y.after (.linked new)) where
  nodup := by
    simp only [Layout.after, List.nodup_append, List.mem_singleton]
    refine ⟨h.nodup, by simp, ?_⟩
    rintro b hb _ rfl rfl
    exact hn hb
  inside b hb := by
    simp only [Layout.after, List.mem_append, List.mem_singleton] at hb
    rw [size_setNext]
    rcases hb with hb | rfl
    · exact h.inside b hb
    · exact hs
  next_eq := by
    intro i b hb
    rw [next_setNext c (h.getElem?_lt ha)]
    simp only [Layout.after] at hb ⊢
    by_cases hi : i < y.order.length
    · rw [List.getElem?_append_left hi] at hb
      by_cases hab : a = b
      · subst hab
        obtain rfl := h.index_eq hb ha
        simp [hl]
      · have hne : i ≠ y.tail := by
          rintro rfl
          exact hab (Option.some.inj (ha.symm.trans hb))
        rw [if_neg hab, h.next_eq hb, List.getElem?_append_left (by omega)]
    · -- the new node is the last one
      obtain ⟨hlt, hbn⟩ := List.getElem?_eq_some_iff.mp hb
      simp only [List.length_append, List.length_singleton] at hlt
      obtain rfl : i = y.order.length := by omega
      obtain rfl : new = b := by simpa using hbn
      have hab : a ≠ new := fun hab => hn (hab ▸ List.mem_of_getElem? ha)
      rw [if_neg hab, h.unlinked hn]
      simp
  unlinked := by
    intro b hb
    simp only [Layout.after, List.mem_append, List.mem_singleton, not_or] at hb
    have hab : a ≠ b := fun hab => hb.1 (hab ▸ List.mem_of_getElem? ha)
    rw [next_setNext c (h.getElem?_lt ha), if_neg hab, h.unlinked hb.1]
  head_eq := (y.grows_after (.linked new)).getElem? h.head_eq
  tail_eq := (y.grows_after (.linked new)).getElem? h.tail_eq
  head_le_tail := h.head_le_tail
  length_le := by
    simp only [Layout.after, List.length_append, List.length_singleton]
    omega
  filled := by
    intro i b hi hb
    rw [value_setNext]
    simp only [Layout.after] at hi hb
    by_cases hlt : i < y.order.length
    · rw [List.getElem?_append_left hlt] at hb
      exact h.filled hi hb
    · rw [List.getElem?_append_right (by omega)] at hb
      obtain rfl : b = new := List.mem_singleton.mp (List.mem_of_getElem? hb)
      exact hv

theorem moveTail (h : c.Fits y) {b : Addr} (hb : y.order[y.tail + 1]? = some b) :
    Fits { c with tail := b } (y.after (.movedTail b)) where
  nodup := h.nodup
  inside := h.inside
  next_eq := h.next_eq
  unlinked := h.unlinked
  head_eq := h.head_eq
  tail_eq := hb
  head_le_tail := Nat.le_succ_of_le h.head_le_tail
  length_le := Nat.le_succ_of_le h.length_le
  filled := h.filled

theorem moveHead (h : c.Fits y) {b : Addr} (hb : y.order[y.head + 1]? = some b)
    (ht : y.head < y.tail) : Fits { c with head := b } (y.after (.movedHead c.head b)) where
  nodup := h.nodup
  inside := h.inside
  next_eq := h.next_eq
  unlinked := h.unlinked
  head_eq := hb
  tail_eq := h.tail_eq
  head_le_tail := ht
  length_le := h.length_le
  filled hi ha := h.filled (Nat.lt_of_succ_lt hi) ha

/-- Taking the value of a node that is not behind `head`. -/
theorem take (h : c.Fits y) {i : ℕ} {a : Addr} (ha : y.order[i]? = some a) (hi : i ≤ y.head) :
    (c.take a).1.Fits y where
  nodup := h.nodup
  inside b hb := by rw [size_take]; exact h.inside b hb
  next_eq hb := by rw [next_take, h.next_eq hb]
  unlinked hb := by rw [next_take, h.unlinked hb]
  head_eq := h.head_eq
  tail_eq := h.tail_eq
  head_le_tail := h.head_le_tail
  length_le := h.length_le
  filled := by
    intro j b hj hb
    have hab : a ≠ b := by
      rintro rfl
      have := h.index_eq ha hb
      omega
    rw [value_take, if_neg hab]
    exact h.filled hj hb

theorem toList_take (h : c.Fits y) {i : ℕ} {a : Addr} (ha : y.order[i]? = some a)
    (hi : i ≤ y.head) : (c.take a).1.toList = c.toList := by
  rw [(h.take ha hi).toList_eq, h.toList_eq]
  apply List.filterMap_congr
  intro b hb
  obtain ⟨j, hj⟩ := List.mem_iff_getElem?.mp hb
  rw [List.getElem?_drop] at hj
  have hab : a ≠ b := by
    rintro rfl
    have := h.index_eq ha hj
    omega
  rw [value_take, if_neg hab]

/-- What a step does to the items, if it moves no value. -/
theorem toList_after (h : c.Fits y) {c' : Chain α} {e : Effect} (h' : c'.Fits (y.after e))
    (hv : c'.value = c.value) :
    match e with
    | .none => c'.toList = c.toList
    | .linked new => c'.toList = c.toList ++ (c.value new).toList
    | .movedTail _ => c'.toList = c.toList
    | .movedHead _ _ => ∃ a v, y.order[y.head + 1]? = some a ∧ c.value a = some v ∧
        c.toList = v :: c'.toList := by
  rw [h'.toList_eq, h.toList_eq, hv]
  cases e with
  | none => rfl
  | linked new =>
    have := h.head_lt
    simp only [Layout.after]
    rw [List.drop_append_of_le_length (by omega), List.filterMap_append]
    congr 1
  | movedTail target => rfl
  | movedHead retired target =>
    have hl : y.head + 1 < y.order.length := h'.head_lt
    have ha := List.getElem?_eq_getElem hl
    obtain ⟨v, hv⟩ := Option.isSome_iff_exists.mp (h.filled (Nat.lt_succ_self _) ha)
    refine ⟨_, v, ha, hv, ?_⟩
    rw [List.drop_eq_getElem_cons hl, List.filterMap_cons_some hv]
    simp [Layout.after]

/-- A step that at most moves `tail` leaves the items as they are. -/
theorem toList_quiet (h : c.Fits y) {c' : Chain α} {e : Effect} (h' : c'.Fits (y.after e))
    (hv : c'.value = c.value) (he : e = .none ∨ ∃ b, e = .movedTail b) : c'.toList = c.toList := by
  rcases he with rfl | ⟨b, rfl⟩
  · exact h.toList_after h' hv
  · exact h.toList_after h' hv

end Fits

end Chain

end QueueRace
