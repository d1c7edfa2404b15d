import QueueRace.Slots

/-! Tables of slots as finite maps. A table that is in order has one entry for each of its slots,
so writing a slot does not depend on whether its old entry was taken out before. -/

namespace QueueRace

namespace Slots

variable {β γ : Type}

/-- Slots in increasing order of their numbers. -/
def Sorted (t : Slots β) : Prop := t.Pairwise fun e e' => e.1 < e'.1

theorem get?_cons (q p : Slot) (x : β) (t : Slots β) :
    get? ((p, x) :: t) q = if q = p then some x else get? t q := by
  by_cases h : q = p
  · subst h
    simp [get?]
  · have hb : (q == p) = false := by simpa using h
    simp [get?, List.lookup_cons, hb, h]

theorem mem_of_get? {q : Slot} {x : β} {t : Slots β} (h : get? t q = some x) : (q, x) ∈ t := by
  induction t with
  | nil => cases h
  | cons e t ih =>
    obtain ⟨r, y⟩ := e
    rw [get?_cons] at h
    split at h
    · subst q
      obtain rfl := Option.some.inj h
      exact List.mem_cons_self
    · exact List.mem_cons_of_mem _ (ih h)

theorem get?_put (q p : Slot) (x : β) (t : Slots β) :
    get? (put q x t) p = if p = q then some x else get? t p := by
  induction t with
  | nil => exact get?_cons p q x []
  | cons e t ih =>
    obtain ⟨r, y⟩ := e
    simp only [put]
    split
    · exact get?_cons p q x _
    · split
      · subst q
        rw [get?_cons, get?_cons]
        split <;> rfl
      · rw [get?_cons, get?_cons, ih]
        split
        · subst p
          rw [if_neg (Ne.symm ‹¬q = r›)]
        · rfl

theorem remove_cons_self (q : Slot) (x : β) (t : Slots β) :
    remove q ((q, x) :: t) = remove q t := by
  simp [remove]

theorem remove_cons_of_ne {q r : Slot} (h : r ≠ q) (x : β) (t : Slots β) :
    remove q ((r, x) :: t) = (r, x) :: remove q t := by
  simp [remove, h]

theorem get?_remove (q p : Slot) (t : Slots β) :
    get? (remove q t) p = if p = q then none else get? t p := by
  induction t with
  | nil => simp [remove, get?]
  | cons e t ih =>
    obtain ⟨r, y⟩ := e
    by_cases hr : r = q
    · subst hr
      rw [remove_cons_self, ih, get?_cons]
      split <;> rfl
    · rw [remove_cons_of_ne hr, get?_cons, get?_cons, ih]
      split
      · subst p
        rw [if_neg hr]
      · rfl

theorem mem_put {q : Slot} {x : β} {t : Slots β} {e : Slot × β} (h : e ∈ put q x t) :
    e = (q, x) ∨ e ∈ t := by
  induction t with
  | nil => exact .inl (List.mem_singleton.mp h)
  | cons e' t ih =>
    obtain ⟨r, y⟩ := e'
    simp only [put] at h
    split at h
    · exact List.mem_cons.mp h
    · split at h
      · exact (List.mem_cons.mp h).imp_right (List.mem_cons_of_mem _)
      · rcases List.mem_cons.mp h with rfl | h
        · exact .inr List.mem_cons_self
        · exact (ih h).imp_right (List.mem_cons_of_mem _)

theorem Sorted.put {t : Slots β} (h : t.Sorted) (q : Slot) (x : β) : (Slots.put q x t).Sorted := by
  induction t with
  | nil => exact List.pairwise_singleton _ _
  | cons e t ih =>
    obtain ⟨r, y⟩ := e
    obtain ⟨hr, ht⟩ := List.pairwise_cons.mp h
    simp only [Slots.put]
    split
    · refine List.pairwise_cons.mpr ⟨fun e he => ?_, h⟩
      rcases List.mem_cons.mp he with rfl | he
      · assumption
      · exact Nat.lt_trans ‹q < r› (hr e he)
    · split
      · subst q
        exact List.pairwise_cons.mpr ⟨hr, ht⟩
      · refine List.pairwise_cons.mpr ⟨fun e he => ?_, ih ht⟩
        rcases mem_put he with rfl | he
        · exact Nat.lt_of_le_of_ne (Nat.not_lt.mp ‹¬q < r›) (Ne.symm ‹¬q = r›)
        · exact hr e he

theorem Sorted.remove {t : Slots β} (h : t.Sorted) (q : Slot) : (Slots.remove q t).Sorted :=
  h.sublist List.filter_sublist

theorem Sorted.get?_of_mem {t : Slots β} (h : t.Sorted) {q : Slot} {x : β} (hm : (q, x) ∈ t) :
    get? t q = some x := by
  induction t with
  | nil => cases hm
  | cons e t ih =>
    obtain ⟨r, y⟩ := e
    obtain ⟨hr, ht⟩ := List.pairwise_cons.mp h
    rw [get?_cons]
    rcases List.mem_cons.mp hm with he | hm
    · obtain ⟨rfl, rfl⟩ := Prod.mk.inj he
      exact if_pos rfl
    · rw [if_neg (Nat.ne_of_gt (hr _ hm)), ih ht hm]

theorem remove_eq_self {q : Slot} {t : Slots β} (h : ∀ e ∈ t, q < e.1) : remove q t = t :=
  List.filter_eq_self.mpr fun e he => by simpa using (Nat.ne_of_lt (h e he)).symm

/-- Writing a slot replaces what was there. -/
theorem put_remove {t : Slots β} (h : t.Sorted) (q : Slot) (x : β) :
    put q x (remove q t) = put q x t := by
  induction t with
  | nil => rfl
  | cons e t ih =>
    obtain ⟨r, y⟩ := e
    obtain ⟨hr, ht⟩ := List.pairwise_cons.mp h
    by_cases hq : r = q
    · subst hq
      rw [remove_cons_self, remove_eq_self hr, put, if_neg (Nat.lt_irrefl r), if_pos rfl]
      -- the slots behind have higher numbers
      cases t with
      | nil => rfl
      | cons e t => rw [put, if_pos (hr e List.mem_cons_self)]
    · rw [remove_cons_of_ne hq, put, put, ih ht]
      split
      · rename_i hlt
        rw [remove_eq_self fun e he => Nat.lt_trans hlt (hr e he)]
      · rw [if_neg (Ne.symm hq), if_neg (Ne.symm hq)]

/-- The second entry of a slot replaces the first. -/
theorem put_put (q : Slot) (x y : β) (t : Slots β) : put q y (put q x t) = put q y t := by
  have hcons : ∀ t, put q y ((q, x) :: t) = (q, y) :: t := fun t => by
    rw [put, if_neg (Nat.lt_irrefl q), if_pos rfl]
  induction t with
  | nil => exact hcons []
  | cons e t ih =>
    obtain ⟨r, z⟩ := e
    rw [put, put]
    split
    · rw [hcons]
    · split
      · rw [hcons]
      · rw [put, if_neg ‹_›, if_neg ‹_›, ih]

theorem put_get? {t : Slots β} (h : t.Sorted) {q : Slot} {x : β} (hq : get? t q = some x) :
    put q x t = t := by
  induction t with
  | nil => cases hq
  | cons e t ih =>
    obtain ⟨r, y⟩ := e
    obtain ⟨hr, ht⟩ := List.pairwise_cons.mp h
    rw [get?_cons] at hq
    split at hq
    · subst q
      obtain rfl := Option.some.inj hq
      rw [put, if_neg (Nat.lt_irrefl r), if_pos rfl]
    · have hlt : r < q := hr (q, x) (mem_of_get? hq)
      rw [put, if_neg (Nat.lt_asymm hlt), if_neg ‹¬q = r›, ih ht hq]

theorem remove_of_get?_none {q : Slot} {t : Slots β} (hq : get? t q = none) : remove q t = t := by
  induction t with
  | nil => rfl
  | cons e t ih =>
    obtain ⟨r, y⟩ := e
    rw [get?_cons] at hq
    split at hq
    · cases hq
    · rw [remove_cons_of_ne (Ne.symm ‹¬q = r›), ih hq]

/-- A table is the entry of a slot and the rest. -/
theorem perm_put {t : Slots β} (h : t.Sorted) (q : Slot) (x : β) :
    (put q x t).Perm ((q, x) :: remove q t) := by
  induction t with
  | nil => exact .refl _
  | cons e t ih =>
    obtain ⟨r, y⟩ := e
    obtain ⟨hr, ht⟩ := List.pairwise_cons.mp h
    rw [put]
    split
    · rename_i hlt
      have hall : ∀ e ∈ (r, y) :: t, q < e.1 := by
        intro e he
        rcases List.mem_cons.mp he with rfl | he
        · exact hlt
        · exact Nat.lt_trans hlt (hr e he)
      rw [remove_eq_self hall]
    · split
      · subst q
        rw [remove_cons_self, remove_eq_self hr]
      · rw [remove_cons_of_ne (Ne.symm ‹¬q = r›)]
        exact ((ih ht).cons _).trans (.swap _ _ _)

theorem perm_get? {t : Slots β} (h : t.Sorted) {q : Slot} {x : β} (hq : get? t q = some x) :
    t.Perm ((q, x) :: remove q t) := by
  have := perm_put h q x
  rwa [put_get? h hq] at this

/-! ### Entry by entry -/

theorem get?_map (f : β → γ) (t : Slots β) (q : Slot) :
    get? (t.map fun e => (e.1, f e.2)) q = (get? t q).map f := by
  induction t with
  | nil => rfl
  | cons e t ih =>
    obtain ⟨r, y⟩ := e
    rw [List.map_cons, get?_cons, get?_cons, ih]
    split <;> rfl

theorem map_put (f : β → γ) (q : Slot) (x : β) (t : Slots β) :
    (put q x t).map (fun e => (e.1, f e.2)) = put q (f x) (t.map fun e => (e.1, f e.2)) := by
  induction t with
  | nil => rfl
  | cons e t ih =>
    obtain ⟨r, y⟩ := e
    simp only [put, List.map_cons]
    split
    · rfl
    · split
      · rfl
      · rw [List.map_cons, ih]

theorem map_remove (f : β → γ) (q : Slot) (t : Slots β) :
    (remove q t).map (fun e => (e.1, f e.2)) = remove q (t.map fun e => (e.1, f e.2)) := by
  rw [remove, remove, List.filter_map]
  rfl

end Slots

end QueueRace
