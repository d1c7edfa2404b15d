import Mathlib.Data.Nat.Notation

/-! Threads stand in a table, and a step of one of them replaces its entry. What the table says
afterwards: about each entry, and about the number of entries of a kind. A list of those that have
been waited for gets one entry more at its end. -/

namespace QueueRace

theorem getElem?_set {β : Type} {xs : Array β} {i : ℕ} {x : β} (hx : xs[i]? = some x) (y : β)
    (j : ℕ) : (xs.setIfInBounds i y)[j]? = if i = j then some y else xs[j]? := by
  rw [Array.getElem?_setIfInBounds, if_pos (Array.getElem?_eq_some_iff.mp hx).1]

theorem setIfInBounds_self {β : Type} {xs : Array β} {i : ℕ} {x : β} (hx : xs[i]? = some x) :
    xs.setIfInBounds i x = xs := by
  refine Array.ext_getElem? fun j => ?_
  rw [getElem?_set hx]
  split
  · subst j
    exact hx.symm
  · rfl

theorem countP_setIfInBounds {β : Type} {xs : Array β} {i : ℕ} {x : β} (hx : xs[i]? = some x) (y : β)
    (p : β → Bool) : (xs.setIfInBounds i y).countP p + (if p x then 1 else 0) =
      xs.countP p + (if p y then 1 else 0) := by
  obtain ⟨hi, rfl⟩ := Array.getElem?_eq_some_iff.mp hx
  have hle : (if p xs[i] then 1 else 0) ≤ xs.countP p := Array.boole_getElem_le_countP hi
  have hset : xs.setIfInBounds i y = xs.set i y := by simp [Array.setIfInBounds, hi]
  rw [hset, Array.countP_set hi]
  omega

theorem getElem?_snoc {β : Type} {l : List β} {x y : β} {i : ℕ} (h : (l ++ [x])[i]? = some y) :
    l[i]? = some y ∨ i = l.length ∧ x = y := by
  by_cases hi : i < l.length
  · rw [List.getElem?_append_left hi] at h
    exact .inl h
  · rw [List.getElem?_append_right (Nat.not_lt.mp hi)] at h
    obtain ⟨hlt, rfl⟩ := List.getElem?_eq_some_iff.mp h
    simp only [List.length_singleton] at hlt
    exact .inr ⟨by omega, by simp⟩

end QueueRace
