import Mathlib.Data.List.Rotate
import QueueRace.Chain.Alone
import QueueRace.Proofs.Chain.Stale

/-! The queue operations without interference, on a chain that may have been left with a lagging
`tail`. Each of them acts on the items as the operation of its name acts on a list, and lets the
layout grow, so that an enqueuer which was suspended before can still make its last step. -/

namespace QueueRace

variable {α : Type}

namespace Layout

/-- The layout when an enqueuer has linked the node `new` and has not yet moved `tail` over it. -/
def linked (y : Layout) (new : Addr) : Layout := ⟨y.order ++ [new], y.head, y.order.length - 1⟩

def enqueued (y : Layout) (new : Addr) : Layout := ⟨y.order ++ [new], y.head, y.order.length⟩

/-- The layout after a dequeue, which moves `tail` only where `head` would pass it. -/
def dequeued (y : Layout) : Layout :=
  if y.head + 1 < y.order.length then ⟨y.order, y.head + 1, max y.tail (y.head + 1)⟩ else y

theorem grows_dequeued (y : Layout) : y.Grows y.dequeued := by
  rw [dequeued]
  split
  · exact ⟨List.prefix_rfl, Nat.le_succ _, le_max_left _ _⟩
  · exact .refl y

end Layout

namespace Chain

/-- The chain lies in a layout. -/
def Sound (c : Chain α) : Prop := ∃ y, c.Fits y

/-- However `c` lies, `c'` lies in a layout that has grown from it. -/
def Grew (c c' : Chain α) : Prop := ∀ ⦃y : Layout⦄, c.Fits y → ∃ z, c'.Fits z ∧ y.Grows z

theorem empty_sound : (empty : Chain α).Sound := ⟨_, empty_fits⟩

theorem Grew.refl (c : Chain α) : c.Grew c := fun y h => ⟨y, h, .refl y⟩

theorem Grew.trans {c₁ c₂ c₃ : Chain α} (h : c₁.Grew c₂) (h' : c₂.Grew c₃) : c₁.Grew c₃ := by
  intro y hy
  obtain ⟨z, hz, g⟩ := h hy
  obtain ⟨x, hx, g'⟩ := h' hz
  exact ⟨x, hx, g.trans g'⟩

/-- A chain has one layout, so to see one grow is enough. -/
theorem Fits.grew {c c' : Chain α} {y z : Layout} (h : c.Fits y) (h' : c'.Fits z)
    (g : y.Grows z) : c.Grew c' := by
  intro x hx
  obtain rfl := h.unique hx
  exact ⟨z, h', g⟩

theorem Sound.grew {c c' : Chain α} (h : c.Sound) (g : c.Grew c') : c'.Sound := by
  obtain ⟨y, hy⟩ := h
  obtain ⟨z, hz, -⟩ := g hy
  exact ⟨z, hz⟩

/-! ### Enqueue -/

theorem advance_swing (new tail : Addr) (n : ℕ) (c : Chain α) :
    Enqueuer.advance ⟨new, .swing tail⟩ n c = (c, ⟨new, .swing tail⟩) := by
  cases n <;> rfl

/-- A pass of the loop that links the node. -/
theorem advance_link {c : Chain α} (hs : c.tail < c.nodes.size) (hn : c.next c.tail = none)
    (new : Addr) (n : ℕ) :
    Enqueuer.advance ⟨new, .readTail⟩ (n + 4) c = (c.setNext c.tail new, ⟨new, .swing c.tail⟩) := by
  simp [Enqueuer.advance, Enqueue.step, hn, casNext_eq, hs, advance_swing]

/-- A pass of the loop that moves a lagging `tail`. -/
theorem advance_help {c : Chain α} {b : Addr} (hn : c.next c.tail = some b) (new : Addr) (n : ℕ) :
    Enqueuer.advance ⟨new, .readTail⟩ (n + 4) c =
      Enqueuer.advance ⟨new, .readTail⟩ n { c with tail := b } := by
  simp [Enqueuer.advance, Enqueue.step, hn, casTail]

variable {c : Chain α} {y : Layout} {v : α}

theorem Fits.grows_linked (h : c.Fits y) (new : Addr) : y.Grows (y.linked new) where
  order := List.prefix_append _ _
  head := le_rfl
  tail := Nat.le_sub_one_of_lt h.tail_lt

theorem Fits.link_last (h : c.Fits y) (hl : y.tail + 1 = y.order.length) {new : Addr}
    (hf : c.Fresh y new) (hv : c.value new = some v) :
    (c.setNext c.tail new).Fits (y.linked new) ∧
      (c.setNext c.tail new).toList = c.toList ++ [v] := by
  have hfits := h.setNext h.tail_eq hl hf.outside hf.inside hf.filled
  have hlist := h.toList_after hfits (value_setNext _ _ _)
  have hsame : y.after (.linked new) = y.linked new := by
    simp only [Layout.after, Layout.linked, ← hl, Nat.add_sub_cancel]
  rw [hsame] at hfits
  exact ⟨hfits, by rw [hlist, hv]; rfl⟩

/-- Linking a node appends its value, and leaves an enqueuer that knows where its node is. -/
theorem Fits.link (h : c.Fits y) (v : α) :
    (c.link v).1.Fits (y.linked c.nodes.size) ∧
      (c.link v).2 = ⟨c.nodes.size, .swing (c.link v).1.tail⟩ ∧
      (c.link v).1.toList = c.toList ++ [v] := by
  have ha := h.alloc v
  have hf := h.fresh_alloc v
  have hv : (c.alloc v).value c.nodes.size = some v := by rw [value_alloc, if_pos rfl]
  cases hn : (c.alloc v).next (c.alloc v).tail with
  | none =>
    have hl := (ha.next_eq_none_iff ha.tail_eq).mp hn
    obtain ⟨hfits, hlist⟩ := ha.link_last hl hf hv
    have hlink : c.link v = _ := advance_link (ha.getElem?_lt ha.tail_eq) hn c.nodes.size 4
    rw [hlink]
    exact ⟨hfits, rfl, by rw [hlist, h.toList_alloc]⟩
  | some b =>
    have hb : y.order[y.tail + 1]? = some b := (ha.next_eq ha.tail_eq).symm.trans hn
    have hm := ha.moveTail hb
    have hl : y.tail + 1 + 1 = y.order.length := by
      have hlt := (List.getElem?_eq_some_iff.mp hb).1
      have hle := h.length_le
      omega
    obtain ⟨hfits, hlist⟩ := hm.link_last hl ⟨hf.outside, hf.inside, hf.filled⟩ hv
    have hlast := (hm.next_eq_none_iff hm.tail_eq).mpr hl
    have hlink : c.link v = _ := (advance_help hn c.nodes.size 4).trans
      (advance_link (hm.getElem?_lt hm.tail_eq) hlast c.nodes.size 0)
    have hsame : Chain.toList { c.alloc v with tail := b } = c.toList :=
      (ha.toList_after hm rfl).trans (h.toList_alloc v)
    rw [hlink]
    exact ⟨hfits, rfl, by rw [hlist, hsame]⟩

/-- What the enqueuer knows when it has linked its node. -/
theorem Fits.link_swing (h : c.Fits y) (v : α) :
    (Enqueue.Phase.swing (c.link v).1.tail).Sound (y.linked c.nodes.size) c.nodes.size := by
  have hlt := h.tail_lt
  refine ⟨_, le_rfl, (h.link v).1.tail_eq, ?_⟩
  simp only [Layout.linked]
  rw [Nat.sub_add_cancel (by omega), List.getElem?_concat_length]

theorem settle_swing (c : Chain α) (new a : Addr) :
    c.settle ⟨new, .swing a⟩ = if c.tail = a then { c with tail := new } else c := by
  simp only [Chain.settle, Enqueue.step]
  by_cases ht : c.tail = a
  · rw [casTail_of_eq ht, if_pos ht]
  · rw [casTail_of_ne ht, if_neg ht]

/-- The last step of an enqueuer, however late, changes no item. -/
theorem Fits.settle (h : c.Fits y) {new a : Addr} (hs : (Enqueue.Phase.swing a).Sound y new) :
    (∃ z, (c.settle ⟨new, .swing a⟩).Fits z ∧ y.Grows z) ∧
      (c.settle ⟨new, .swing a⟩).toList = c.toList := by
  obtain ⟨hfits, -, hv, -, ⟨b, hb, -⟩ | ⟨-, he⟩⟩ := Enqueue.step_outcome h hs nofun
  · cases hb
  · exact ⟨⟨_, hfits, y.grows_after _⟩, h.toList_quiet hfits hv he⟩

theorem Fits.enqueue (h : c.Fits y) (v : α) :
    (c.enqueue v).Fits (y.enqueued c.nodes.size) ∧ (c.enqueue v).toList = c.toList ++ [v] := by
  obtain ⟨hfits, he, hlist⟩ := h.link v
  have henq : c.enqueue v = { (c.link v).1 with tail := c.nodes.size } := by
    simp only [Chain.enqueue, he, settle_swing, if_pos]
  have hlt := h.tail_lt
  have hlen : y.order.length - 1 + 1 = y.order.length := by omega
  have hm := hfits.moveTail (b := c.nodes.size) (by simp [Layout.linked, hlen])
  have hitems := hfits.toList_after hm rfl
  rw [Layout.after, Layout.linked, hlen] at hm
  rw [henq]
  exact ⟨hm, hitems.trans hlist⟩

theorem Fits.grows_enqueued (h : c.Fits y) (new : Addr) : y.Grows (y.enqueued new) where
  order := List.prefix_append _ _
  head := le_rfl
  tail := h.tail_lt.le

/-! ### Dequeue -/

theorem finish_done (n : ℕ) (c : Chain α) (answer : Option α) :
    Dequeue.finish n c (.done answer) = (c, .done answer) := by
  cases n <;> rfl

/-- A pass of the loop that finds nothing. -/
theorem finish_none (hn : c.next c.head = none) (ht : c.head = c.tail) (n : ℕ) :
    Dequeue.finish (n + 4) c .readHead = (c, .done none) := by
  simp [Dequeue.finish, Dequeue.step, hn, ← ht, finish_done]

/-- A pass of the loop that moves a lagging `tail`. -/
theorem finish_help {b : Addr} (hn : c.next c.head = some b) (ht : c.head = c.tail) (n : ℕ) :
    Dequeue.finish (n + 5) c .readHead = Dequeue.finish n { c with tail := b } .readHead := by
  simp [Dequeue.finish, Dequeue.step, hn, ← ht, casTail]

/-- A pass of the loop that moves `head` and takes a value. -/
theorem finish_take {b : Addr} (hn : c.next c.head = some b) (ht : c.head ≠ c.tail) (n : ℕ) :
    Dequeue.finish (n + 6) c .readHead =
      ((Chain.take { c with head := b } b).1, .done (Chain.take { c with head := b } b).2) := by
  simp [Dequeue.finish, Dequeue.step, hn, ht, casHead, finish_done]

/-- A dequeue that finds `head` apart from `tail` removes the front item. -/
theorem Fits.dequeue_apart (h : c.Fits y) {b : Addr} (hb : y.order[y.head + 1]? = some b)
    (ht : y.head < y.tail) (n : ℕ) :
    ∃ v, (Dequeue.finish (n + 6) c .readHead).1.Fits { y with head := y.head + 1 } ∧
      (Dequeue.finish (n + 6) c .readHead).2 = .done (some v) ∧
      c.toList = v :: (Dequeue.finish (n + 6) c .readHead).1.toList := by
  have hne : c.head ≠ c.tail := by
    intro he
    have := h.index_eq h.head_eq (he ▸ h.tail_eq)
    omega
  have hm := h.moveHead hb ht
  obtain ⟨a, v, ha, hv, hlist⟩ := h.toList_after hm rfl
  obtain rfl : b = a := Option.some.inj (hb.symm.trans ha)
  rw [finish_take ((h.next_eq h.head_eq).trans hb) hne]
  refine ⟨v, hm.take hb le_rfl, congrArg Dequeue.Phase.done hv, ?_⟩
  rw [hm.toList_take hb le_rfl, hlist]

/-- What a dequeue finds: nothing, or an item over which `tail` has to be moved first, or an item
that it can take at once. -/
inductive Front (c : Chain α) (y : Layout) : Prop
  | nothing (hn : c.next c.head = none) (ht : c.head = c.tail) (hlast : y.head + 1 = y.order.length)
  | lagging {b : Addr} (hb : y.order[y.head + 1]? = some b) (hn : c.next c.head = some b)
    (ht : c.head = c.tail) (hne : c.head ≠ b) (heq : y.head = y.tail)
  | apart {b : Addr} (hb : y.order[y.head + 1]? = some b) (hn : c.next c.head = some b)
    (ht : c.head ≠ c.tail) (hlt : y.head < y.tail)

theorem Fits.front (h : c.Fits y) : c.Front y := by
  have hlt := h.head_lt
  have hle := h.head_le_tail
  have htl := h.tail_lt
  cases hn : y.order[y.head + 1]? with
  | none =>
    have hlast : y.order.length ≤ y.head + 1 := List.getElem?_eq_none_iff.mp hn
    have heq : y.head = y.tail := by omega
    exact .nothing ((h.next_eq h.head_eq).trans hn)
      (Option.some.inj (h.head_eq.symm.trans (heq ▸ h.tail_eq))) (by omega)
  | some b =>
    have hnext := (h.next_eq h.head_eq).trans hn
    by_cases ht : y.head = y.tail
    · -- no node is linked to itself
      have hne : c.head ≠ b := by
        rintro rfl
        have := h.index_eq h.head_eq hn
        omega
      exact .lagging hn hnext (Option.some.inj (h.head_eq.symm.trans (ht ▸ h.tail_eq))) hne ht
    · refine .apart hn hnext (fun he => ?_) (by omega)
      have := h.index_eq h.head_eq (he ▸ h.tail_eq)
      omega

theorem Fits.dequeue (h : c.Fits y) :
    c.dequeue.1.Fits y.dequeued ∧ c.dequeue.2 = .done c.toList.head? ∧
      c.dequeue.1.toList = c.toList.tail := by
  rw [Layout.dequeued]
  cases h.front with
  | nothing hn ht hlast =>
    have hnil : c.toList = [] := h.toList_eq_nil_iff.mpr hlast
    have hfin : c.dequeue = (c, .done none) := finish_none hn ht 7
    rw [hfin, hnil, if_neg (Nat.not_lt.mpr hlast.ge)]
    exact ⟨h, rfl, rfl⟩
  | @lagging b hb hn ht _ heq =>
    have hm := h.moveTail (heq ▸ hb)
    have hfin : c.dequeue = _ := finish_help hn ht 6
    obtain ⟨v, hfits, ha, hlist⟩ := hm.dequeue_apart hb (by simp only [Layout.after]; omega) 0
    have hsame : Chain.toList { c with tail := b } = c.toList := h.toList_after hm rfl
    have hmax : max y.tail (y.head + 1) = y.tail + 1 := by omega
    rw [if_pos (List.getElem?_eq_some_iff.mp hb).1, hfin, ← hsame, hlist, hmax]
    exact ⟨hfits, ha, rfl⟩
  | apart hb _ _ hlt =>
    obtain ⟨v, hfits, ha, hlist⟩ := h.dequeue_apart hb hlt 5
    have hdef : c.dequeue = Dequeue.finish (5 + 6) c .readHead := rfl
    rw [if_pos (List.getElem?_eq_some_iff.mp hb).1, hdef, hlist, max_eq_left (by omega)]
    exact ⟨hfits, ha, rfl⟩

/-! ### Emptiness -/

theorem Fits.isEmpty (h : c.Fits y) : c.isEmpty = c.toList.isEmpty := by
  have hiff := (h.next_eq_none_iff h.head_eq).trans h.toList_eq_nil_iff.symm
  have hdef : c.isEmpty = (c.next c.head).isNone := rfl
  rw [hdef, Bool.eq_iff_iff, Option.isNone_iff_eq_none, List.isEmpty_iff, hiff]

/-! ### Many values -/

theorem Sound.enqueue (h : c.Sound) (v : α) :
    c.Grew (c.enqueue v) ∧ (c.enqueue v).toList = c.toList ++ [v] := by
  obtain ⟨y, hy⟩ := h
  obtain ⟨hfits, hlist⟩ := hy.enqueue v
  exact ⟨hy.grew hfits (hy.grows_enqueued _), hlist⟩

theorem Sound.link (h : c.Sound) (v : α) :
    c.Grew (c.link v).1 ∧ (c.link v).1.toList = c.toList ++ [v] := by
  obtain ⟨y, hy⟩ := h
  obtain ⟨hfits, -, hlist⟩ := hy.link v
  exact ⟨hy.grew hfits (hy.grows_linked _), hlist⟩

/-- An enqueuer that is suspended after it has linked its node can make its last step on whatever
the chain has grown to. -/
theorem Sound.settle (h : c.Sound) (v : α) {c' : Chain α} (g : (c.link v).1.Grew c') :
    c'.Grew (c'.settle (c.link v).2) ∧ (c'.settle (c.link v).2).toList = c'.toList := by
  obtain ⟨y, hy⟩ := h
  obtain ⟨hfits, he, -⟩ := hy.link v
  obtain ⟨x, hx, gx⟩ := g hfits
  obtain ⟨⟨u, hu, gu⟩, hlist⟩ := hx.settle ((hy.link_swing v).grows gx)
  rw [he]
  exact ⟨hx.grew hu gu, hlist⟩

theorem Sound.dequeue (h : c.Sound) :
    c.Grew c.dequeue.1 ∧ c.dequeue.2 = .done c.toList.head? ∧
      c.dequeue.1.toList = c.toList.tail := by
  obtain ⟨y, hy⟩ := h
  obtain ⟨hfits, hanswer⟩ := hy.dequeue
  exact ⟨hy.grew hfits y.grows_dequeued, hanswer⟩

/-- A dequeue finds nothing, or it removes the front. -/
theorem Sound.dequeue_cases (h : c.Sound) :
    (∃ c', c.dequeue = (c', .done none) ∧ c.Grew c' ∧ c.toList = [] ∧ c'.toList = []) ∨
      ∃ c' v, c.dequeue = (c', .done (some v)) ∧ c.Grew c' ∧ c.toList = v :: c'.toList := by
  obtain ⟨g, ha, hlist⟩ := h.dequeue
  cases hc : c.toList with
  | nil =>
    rw [hc] at ha hlist
    exact .inl ⟨c.dequeue.1, Prod.ext rfl ha, g, rfl, hlist⟩
  | cons v vs =>
    rw [hc] at ha hlist
    exact .inr ⟨c.dequeue.1, v, Prod.ext rfl ha, g, by rw [hlist, List.tail_cons]⟩

theorem Sound.isEmpty (h : c.Sound) : c.isEmpty = c.toList.isEmpty := by
  obtain ⟨y, hy⟩ := h
  exact hy.isEmpty

theorem Sound.length (h : c.Sound) : c.length = c.toList.length := by
  obtain ⟨y, hy⟩ := h
  exact hy.length_toList.symm

theorem Sound.length_lt_bound (h : c.Sound) : c.toList.length < c.bound := by
  obtain ⟨y, hy⟩ := h
  have hlt := hy.head_lt
  have hle := hy.order_length_le
  rw [hy.length_toList, hy.length_eq, bound]
  omega

theorem Sound.length_le_bound (h : c.Sound) : c.toList.length ≤ c.bound := h.length_lt_bound.le

/-- To have no limit is to have one that no queue reaches. -/
theorem Sound.getD_bound (h : c.Sound) (limit : Option ℕ) :
    c.toList.take (limit.getD c.bound) = c.toList.take (limit.getD c.toList.length) ∧
      c.toList.drop (limit.getD c.bound) = c.toList.drop (limit.getD c.toList.length) := by
  cases limit with
  | none =>
    rw [Option.getD_none, Option.getD_none, List.take_length, List.drop_length]
    exact ⟨List.take_of_length_le h.length_le_bound, List.drop_eq_nil_of_le h.length_le_bound⟩
  | some n => exact ⟨rfl, rfl⟩

theorem Sound.extend (h : c.Sound) (vs : List α) :
    c.Grew (c.extend vs) ∧ (c.extend vs).toList = c.toList ++ vs := by
  induction vs generalizing c with
  | nil => exact ⟨.refl c, (List.append_nil _).symm⟩
  | cons v vs ih =>
    obtain ⟨g, hlist⟩ := h.enqueue v
    obtain ⟨g', hlist'⟩ := ih (h.grew g)
    refine ⟨g.trans g', ?_⟩
    have hdef : c.extend (v :: vs) = (c.enqueue v).extend vs := rfl
    rw [hdef, hlist', hlist, List.append_assoc, List.singleton_append]

theorem ofList_sound (vs : List α) : (ofList vs).Sound ∧ (ofList vs).toList = vs := by
  obtain ⟨g, hlist⟩ := (empty_sound : (empty : Chain α).Sound).extend vs
  exact ⟨empty_sound.grew g, hlist⟩

theorem Sound.takeUpTo (h : c.Sound) (n : ℕ) :
    c.Grew (c.takeUpTo n).1 ∧ (c.takeUpTo n).1.toList = c.toList.drop n ∧
      (c.takeUpTo n).2 = c.toList.take n := by
  induction n generalizing c with
  | zero => exact ⟨.refl c, rfl, rfl⟩
  | succ n ih =>
    rw [Chain.takeUpTo]
    rcases h.dequeue_cases with ⟨c', hd, g, hnil, hnil'⟩ | ⟨c', v, hd, g, hlist⟩
    · rw [hd, hnil]
      exact ⟨g, hnil', rfl⟩
    · obtain ⟨g', hrest, htaken⟩ := ih (h.grew g)
      rw [hd, hlist]
      exact ⟨g.trans g', hrest, congrArg (v :: ·) htaken⟩

theorem Sound.drain (h : c.Sound) : c.drain = c.toList := by
  rw [Chain.drain, (h.takeUpTo c.bound).2.2, List.take_of_length_le h.length_le_bound]

/-- To pour is to take and to enqueue what was taken. -/
theorem pour_eq (c b : Chain α) (n : ℕ) :
    c.pour b n = ((c.takeUpTo n).1, b.extend (c.takeUpTo n).2) := by
  induction n generalizing c b with
  | zero => rfl
  | succ n ih =>
    rw [Chain.pour, Chain.takeUpTo]
    obtain ⟨c', phase⟩ := c.dequeue
    cases phase with
    | done answer =>
      cases answer with
      | none => rfl
      | some v => exact ih c' (b.enqueue v)
    | _ => rfl

theorem Sound.pour {b : Chain α} (h : c.Sound) (hb : b.Sound) (n : ℕ) :
    (c.Grew (c.pour b n).1 ∧ b.Grew (c.pour b n).2) ∧
      (c.pour b n).1.toList = c.toList.drop n ∧
      (c.pour b n).2.toList = b.toList ++ c.toList.take n := by
  obtain ⟨g, hrest, htaken⟩ := h.takeUpTo n
  obtain ⟨gb, hpoured⟩ := hb.extend (c.takeUpTo n).2
  rw [pour_eq]
  exact ⟨⟨g, gb⟩, hrest, hpoured.trans (congrArg _ htaken)⟩

/-- A value that is enqueued again can come round many times. -/
theorem Sound.rotate (h : c.Sound) (n : ℕ) :
    c.Grew (c.rotate n) ∧ (c.rotate n).toList = c.toList.rotate n := by
  induction n generalizing c with
  | zero => exact ⟨.refl c, (List.rotate_zero _).symm⟩
  | succ n ih =>
    rw [Chain.rotate]
    rcases h.dequeue_cases with ⟨c', hd, g, hnil, hnil'⟩ | ⟨c', v, hd, g, hlist⟩
    · rw [hd, hnil, List.rotate_nil]
      exact ⟨g, hnil'⟩
    · obtain ⟨g', hlist'⟩ := (h.grew g).enqueue v
      obtain ⟨g'', hlist''⟩ := ih ((h.grew g).grew g')
      rw [hd, hlist, List.rotate_cons_succ, ← hlist']
      exact ⟨(g.trans g').trans g'', hlist''⟩

end Chain

end QueueRace
