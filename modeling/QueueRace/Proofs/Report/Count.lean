import Mathlib.Algebra.GroupWithZero.Nat
import Mathlib.Data.List.Perm.Subperm
import Mathlib.Order.Nat
import QueueRace.Proofs.Report.FirstOffence

/-! Counting items instead of looking for each. Where every item that was consumed is known and
none was consumed twice, the consumed ones lie among those made like one list in another, so that
nothing was lost if and only if there are as many. The totals that a report shows are such counts,
and where the check accepts it they agree. -/

namespace QueueRace

namespace Report

variable {produced : List UInt64} {p : ℕ} {r : Report}

/-! ### What was made -/

/-- The keys of all items that the producers from number `p` on have made. -/
def madeKeys (p : ℕ) : List UInt64 → List (ℕ × UInt64)
  | [] => []
  | n :: produced =>
    (List.range n.toNat).map (fun t => (p, t.toUInt64)) ++ madeKeys (p + 1) produced

theorem length_madeKeys (p : ℕ) (produced : List UInt64) :
    (madeKeys p produced).length = (produced.map UInt64.toNat).sum := by
  induction produced generalizing p with
  | nil => rfl
  | cons n produced ih => simp [madeKeys, ih]

theorem mem_madeKeys {q : ℕ} {seq : UInt64} :
    (q, seq) ∈ madeKeys p produced ↔
      ∃ k n, q = p + k ∧ produced[k]? = some n ∧ seq < n := by
  induction produced generalizing p with
  | nil => simp [madeKeys]
  | cons n produced ih =>
    have hfirst : (q, seq) ∈ (List.range n.toNat).map (fun t => (p, t.toUInt64)) ↔
        q = p ∧ seq < n := by
      simp only [List.mem_map, List.mem_range, Prod.mk.injEq, UInt64.lt_iff_toNat_lt]
      constructor
      · rintro ⟨t, ht, rfl, rfl⟩
        refine ⟨rfl, lt_of_le_of_lt ?_ ht⟩
        simpa using Nat.mod_le t _
      · rintro ⟨rfl, hlt⟩
        exact ⟨seq.toNat, hlt, rfl, by simp⟩
    rw [madeKeys, List.mem_append, hfirst, ih]
    constructor
    · rintro (⟨rfl, hlt⟩ | ⟨k, m, rfl, hk, hlt⟩)
      · exact ⟨0, n, rfl, rfl, hlt⟩
      · exact ⟨k + 1, m, by omega, hk, hlt⟩
    · rintro ⟨k, m, rfl, hk, hlt⟩
      cases k with
      | zero =>
        obtain rfl := Option.some.inj hk
        exact .inl ⟨rfl, hlt⟩
      | succ k => exact .inr ⟨k, m, by omega, hk, hlt⟩

theorem nodup_madeKeys (p : ℕ) (produced : List UInt64) : (madeKeys p produced).Nodup := by
  induction produced generalizing p with
  | nil => exact List.nodup_nil
  | cons n produced ih =>
    have hn : n.toNat < 18446744073709551616 := n.toNat_lt
    rw [madeKeys, List.nodup_append]
    refine ⟨List.Nodup.map_on ?_ List.nodup_range, ih (p + 1), ?_⟩
    · intro t ht u hu htu
      rw [List.mem_range] at ht hu
      have htoNat := congrArg (fun k : ℕ × UInt64 => k.2.toNat) htu
      simp only [Nat.toUInt64_eq, UInt64.toNat_ofNat'] at htoNat
      rwa [Nat.mod_eq_of_lt (by omega), Nat.mod_eq_of_lt (by omega)] at htoNat
    · -- the other ones are of later producers
      rintro ⟨q, seq⟩ hq _ hother rfl
      obtain ⟨t, -, ht⟩ := List.mem_map.mp hq
      obtain ⟨rfl, -⟩ := Prod.mk.inj ht
      obtain ⟨k, m, hk, -⟩ := mem_madeKeys.mp hother
      omega

/-! ### Losing is counting -/

/-- Known items that are consumed once lie among those made. -/
theorem subperm_madeKeys (hk : ∀ i ∈ r.consumed.flatten, Known r.produced i)
    (ho : (r.consumed.flatten.map Item.key).Nodup) :
    (r.consumed.flatten.map Item.key).Subperm (madeKeys 0 r.produced) := by
  refine List.subperm_of_subset ho fun k hmem => ?_
  obtain ⟨i, hi, rfl⟩ := List.mem_map.mp hmem
  obtain ⟨n, hn, hlt⟩ := hk i hi
  exact mem_madeKeys.mpr ⟨i.producer, n, (Nat.zero_add _).symm, hn, hlt⟩

theorem totalConsumed_le (hk : ∀ i ∈ r.consumed.flatten, Known r.produced i)
    (ho : (r.consumed.flatten.map Item.key).Nodup) :
    r.totalConsumed ≤ (r.produced.map UInt64.toNat).sum := by
  have hle := (subperm_madeKeys hk ho).length_le
  rwa [List.length_map, length_madeKeys] at hle

theorem totalConsumed_eq_iff (hk : ∀ i ∈ r.consumed.flatten, Known r.produced i)
    (ho : (r.consumed.flatten.map Item.key).Nodup) :
    r.totalConsumed = (r.produced.map UInt64.toNat).sum ↔ ∀ p seq, ¬ r.Lost p seq := by
  have hsub := subperm_madeKeys hk ho
  have hmade : ∀ {p seq}, (p, seq) ∈ madeKeys 0 r.produced ↔
      ∃ n, r.produced[p]? = some n ∧ seq < n := by
    simp [mem_madeKeys]
  rw [← length_madeKeys 0, totalConsumed, ← List.length_map (f := Item.key)]
  constructor
  · rintro hlen p seq ⟨hp, hnot⟩
    exact hnot ((hsub.perm_of_length_le hlen.ge).mem_iff.mpr (hmade.mpr hp))
  · intro hnone
    refine hsub.length_le.antisymm ((nodup_madeKeys 0 r.produced).subperm ?_).length_le
    rintro ⟨p, seq⟩ hmem
    exact Decidable.not_not.mp fun hnot => hnone p seq ⟨hmade.mp hmem, hnot⟩

theorem scanned_faultless (hk : ∀ i ∈ r.consumed.flatten, Known r.produced i)
    (ho : (r.consumed.flatten.map Item.key).Nodup) (hi : ∀ items ∈ r.consumed, Increasing items) :
    Faultless r.produced r.scanned := by
  have hnil : (([] : List Item).map Item.key).Nodup := List.nodup_nil
  have hclean : CleanAll r.produced.toArray [] r.consumed :=
    (cleanAll_iff hnil r.consumed).mpr ⟨fun i h => isKnown_iff.mpr (hk i h), ho, hi⟩
  have hnone : Faultless r.produced [] := fun past c i later h => by simp at h
  have hall : Faultless r.produced ([] ++ r.scanned) := CleanAll.faultless hclean hnone nofun
  rwa [List.nil_append] at hall

/-! ### Totals -/

theorem producedSum_eq (report : Report) :
    report.producedSum = (report.produced.map UInt64.toNat).sum := by
  rw [producedSum, List.sum_eq_foldr, List.foldr_map]

def checkedAdd (total n : UInt64) : Option UInt64 :=
  if total.toNat + n.toNat < UInt64.size then some (total + n) else none

theorem foldlM_checkedAdd (produced : List UInt64) (total : UInt64) :
    produced.foldlM checkedAdd total =
      if total.toNat + (produced.map UInt64.toNat).sum < UInt64.size then
        some (total.toNat + (produced.map UInt64.toNat).sum).toUInt64
      else none := by
  induction produced generalizing total with
  | nil => simp [total.toNat_lt, UInt64.size]
  | cons n produced ih =>
    rw [List.foldlM_cons, checkedAdd, List.map_cons, List.sum_cons, ← Nat.add_assoc]
    by_cases hn : total.toNat + n.toNat < UInt64.size
    · have hsum : (total + n).toNat = total.toNat + n.toNat := by
        rw [UInt64.toNat_add, Nat.mod_eq_of_lt hn]
      rw [if_pos hn, Option.bind_eq_bind, Option.bind_some, ih, hsum]
    · rw [if_neg hn, if_neg (by omega)]
      rfl

/-- To add all counts up is to add them one by one, where each sum has to fit. -/
theorem totalProduced?_eq_foldlM (r : Report) :
    r.totalProduced? = r.produced.foldlM checkedAdd 0 := by
  rw [foldlM_checkedAdd, totalProduced?, producedSum_eq, UInt64.toNat_zero, Nat.zero_add]

/-- Unless there are too many items to mark, and if every item that was consumed is known, none was
consumed twice and each consumer got the items of any one producer in their order, the check
accepts the report if and only if as many items were consumed as were made; otherwise there are
fewer, and the check names one that was lost. So the totals of a report that is accepted agree, if
the one of what was made fits a word. -/
theorem verify_counts {r : Report} (hr : ∀ n ∈ r.produced, n.toNat ≤ markLimit) :
    ((∀ i ∈ r.consumed.flatten, Known r.produced i) →
      (r.consumed.flatten.map Item.key).Nodup → (∀ items ∈ r.consumed, Increasing items) →
        (r.verify = .accepted ↔ r.totalConsumed = (r.produced.map UInt64.toNat).sum) ∧
        (r.totalConsumed ≠ (r.produced.map UInt64.toNat).sum →
          r.totalConsumed < (r.produced.map UInt64.toNat).sum ∧
            ∃ p seq, r.Lost p seq ∧ r.verify = .rejected (.lost p seq))) ∧
    (r.verify = .accepted → (r.produced.map UInt64.toNat).sum < UInt64.size →
      ∃ total, r.totalProduced? = some total ∧ r.produced.foldlM checkedAdd 0 = some total ∧
        total.toNat = r.totalConsumed) := by
  constructor
  · intro hk ho hi
    have hle := totalConsumed_le hk ho
    have hiff := totalConsumed_eq_iff hk ho
    rcases verify_cases hr with ⟨past, c, i, later, hsplit, -, hblames⟩ |
      ⟨-, ⟨p, seq, hlost, -, hv⟩ | ⟨hnone, hv⟩⟩
    · exact absurd hblames.bad (scanned_faultless hk ho hi past c i later hsplit)
    · have hne : r.totalConsumed ≠ (r.produced.map UInt64.toNat).sum :=
        fun heq => hiff.mp heq p seq hlost
      refine ⟨iff_of_false ?_ hne, fun _ => ⟨lt_of_le_of_ne hle hne, p, seq, hlost, hv⟩⟩
      rw [hv]
      nofun
    · have heq := hiff.mpr hnone
      exact ⟨iff_of_true hv heq, fun hne => absurd heq hne⟩
  · intro hv hsum
    have hcorrect := (verify_eq_accepted_iff hr).mp hv
    have hnone : ∀ p seq, ¬ r.Lost p seq := fun p seq ⟨⟨n, hn, hlt⟩, hnot⟩ =>
      hnot (hcorrect.complete hn seq hlt)
    have heq := (totalConsumed_eq_iff hcorrect.known hcorrect.once).mpr hnone
    have htotal : r.totalProduced? = some r.producedSum.toUInt64 :=
      if_pos (r.producedSum_eq ▸ hsum)
    refine ⟨_, htotal, r.totalProduced?_eq_foldlM ▸ htotal, ?_⟩
    rw [Nat.toUInt64_eq, UInt64.toNat_ofNat', producedSum_eq, Nat.mod_eq_of_lt hsum, heq]

/-- Two consumers, and the second item of the first producer has gone missing between them. -/
def mislaid : Report := ⟨[3, 1], [[⟨0, 0, 5⟩, ⟨1, 0, 5⟩], [⟨0, 2, 5⟩]]⟩

/-- One item less than was made, and one that the check misses; and a report with equal totals. -/
theorem verify_counts_mislaid :
    mislaid.totalConsumed = 3 ∧ (mislaid.produced.map UInt64.toNat).sum = 4 ∧
      (∃ p seq, mislaid.Lost p seq ∧ mislaid.verify = .rejected (.lost p seq)) ∧
      (shared 5).verify = .accepted ∧
      ∃ total, (shared 5).totalProduced? = some total ∧ total.toNat = (shared 5).totalConsumed := by
  have hroom : ∀ n ∈ mislaid.produced, n.toNat ≤ markLimit := by simp [mislaid, markLimit]
  have hroom' : ∀ n ∈ (shared 5).produced, n.toNat ≤ markLimit := by simp [shared, markLimit]
  obtain ⟨-, hlost⟩ := (verify_counts hroom).1 (by decide) (by decide) (by decide)
  obtain ⟨-, hmissing⟩ := hlost (by decide)
  obtain ⟨haccepted, -⟩ := (verify_counts hroom').1 (by decide) (by decide) (by decide)
  have hv := haccepted.mpr (by decide)
  obtain ⟨total, htotal, -, heq⟩ := (verify_counts hroom').2 hv (by decide)
  exact ⟨by decide, by decide, hmissing, hv, total, htotal, heq⟩

end Report

end QueueRace
