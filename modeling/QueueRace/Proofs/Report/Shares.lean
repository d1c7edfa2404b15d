import QueueRace.Proofs.Report.Verify

/-! How the items of a run are shared out. Producers enqueue their items into one line, each in its
own order, and each item of the line is handed to one consumer. A report of such a run is correct
if and only if there was nothing else in the line. -/

namespace QueueRace

/-- The places that the items of producer `p` have in its own order. -/
def seqsOf (made : List Item) (p : ℕ) : List ℕ := (made.filter (·.producer = p)).map (·.seq.toNat)

/-- What consumer `c` got of the items in `line`, each of which stands beside its consumer. -/
def shareOf (line : List (ℕ × Item)) (c : ℕ) : List Item := (line.filter (·.1 = c)).map Prod.snd

section
variable {made : List Item} {line : List (ℕ × Item)} {p c : ℕ}

theorem seqsOf_snoc_self (made : List Item) (p : ℕ) (n : UInt64) (value : ℕ) :
    seqsOf (made ++ [⟨p, n, value⟩]) p = seqsOf made p ++ [n.toNat] := by
  simp [seqsOf]

theorem seqsOf_snoc_of_ne {i : Item} (h : i.producer ≠ p) :
    seqsOf (made ++ [i]) p = seqsOf made p := by
  simp [seqsOf, h]

theorem seqsOf_eq_nil (h : ∀ i ∈ made, i.producer < p) : seqsOf made p = [] := by
  have hnone : made.filter (·.producer = p) = [] :=
    List.filter_eq_nil_iff.mpr fun i hi => by simpa using Nat.ne_of_lt (h i hi)
  rw [seqsOf, hnone, List.map_nil]

theorem shareOf_snoc_self (line : List (ℕ × Item)) (c : ℕ) (i : Item) :
    shareOf (line ++ [(c, i)]) c = shareOf line c ++ [i] := by
  simp [shareOf]

theorem shareOf_snoc_of_ne {e : ℕ × Item} (h : e.1 ≠ c) :
    shareOf (line ++ [e]) c = shareOf line c := by
  simp [shareOf, h]

theorem shareOf_eq_nil (h : ∀ e ∈ line, e.1 < c) : shareOf line c = [] := by
  have hnone : line.filter (·.1 = c) = [] :=
    List.filter_eq_nil_iff.mpr fun e he => by simpa using Nat.ne_of_lt (h e he)
  rw [shareOf, hnone, List.map_nil]

end

/-- If each producer's places increase, so they do in the whole. -/
theorem increasing_of_seqsOf {made : List Item} (h : ∀ p, (seqsOf made p).Pairwise (· < ·)) :
    Report.Increasing made := by
  induction made with
  | nil => exact List.Pairwise.nil
  | cons i made ih =>
    refine List.pairwise_cons.mpr ⟨fun j hj hp => ?_, ih fun p => ?_⟩
    · have hi := h i.producer
      have hcons : seqsOf (i :: made) i.producer = i.seq.toNat :: seqsOf made i.producer := by
        simp [seqsOf]
      rw [hcons] at hi
      refine UInt64.lt_iff_toNat_lt.mpr ((List.pairwise_cons.mp hi).1 _ ?_)
      exact List.mem_map.mpr ⟨j, List.mem_filter.mpr ⟨hj, by simp [hp]⟩, rfl⟩
    · have hsub : (seqsOf made p).Sublist (seqsOf (i :: made) p) :=
        ((List.sublist_cons_self i made).filter _).map _
      exact (h p).sublist hsub

theorem Report.Increasing.nodup_keys {items : List Item} (h : Report.Increasing items) :
    (items.map Item.key).Nodup := by
  rw [List.Nodup, List.pairwise_map]
  refine h.imp fun hij he => ?_
  obtain ⟨hp, hs⟩ := Prod.mk.inj he
  have hlt := hij hp
  rw [hs] at hlt
  exact UInt64.lt_irrefl _ hlt

/-- `made` is an interleaving of the sequences 0, 1, … that the producers have made, each up to its
number in `produced`. -/
structure Interleaves (produced : List UInt64) (made : List Item) : Prop where
  makers : ∀ i ∈ made, i.producer < produced.length
  seqs : ∀ {p : ℕ} {n : UInt64}, produced[p]? = some n → seqsOf made p = List.range n.toNat

/-- Each place of `line` belongs to one consumer, and the lists in `consumed` are what they got. -/
structure Shares (line : List (ℕ × Item)) (consumed : List (List Item)) : Prop where
  owners : ∀ e ∈ line, e.1 < consumed.length
  shares : ∀ {c : ℕ} {items : List Item}, consumed[c]? = some items → items = shareOf line c

/-! ### What was made -/

namespace Interleaves

variable {produced : List UInt64} {made : List Item}

theorem known (h : Interleaves produced made) {i : Item} (hi : i ∈ made) :
    ∃ n, produced[i.producer]? = some n ∧ i.seq < n := by
  have hn := List.getElem?_eq_getElem (h.makers i hi)
  refine ⟨_, hn, ?_⟩
  have hmem : i.seq.toNat ∈ seqsOf made i.producer :=
    List.mem_map.mpr ⟨i, List.mem_filter.mpr ⟨hi, by simp⟩, rfl⟩
  rw [h.seqs hn, List.mem_range] at hmem
  exact UInt64.lt_iff_toNat_lt.mpr hmem

theorem complete (h : Interleaves produced made) {p : ℕ} {n : UInt64} (hn : produced[p]? = some n)
    {seq : UInt64} (hs : seq < n) : (p, seq) ∈ made.map Item.key := by
  have hmem : seq.toNat ∈ seqsOf made p := by
    rw [h.seqs hn, List.mem_range]
    exact UInt64.lt_iff_toNat_lt.mp hs
  obtain ⟨i, hi, he⟩ := List.mem_map.mp hmem
  obtain ⟨hi, hp⟩ := List.mem_filter.mp hi
  refine List.mem_map.mpr ⟨i, hi, ?_⟩
  rw [Item.key, of_decide_eq_true hp, UInt64.toNat_inj.mp he]

theorem pairwise_seqsOf (h : Interleaves produced made) (p : ℕ) : (seqsOf made p).Pairwise (· < ·) := by
  by_cases hp : p < produced.length
  · rw [h.seqs (List.getElem?_eq_getElem hp)]
    exact List.pairwise_lt_range
  · have hnil : seqsOf made p = [] :=
      seqsOf_eq_nil fun i hi => Nat.lt_of_lt_of_le (h.makers i hi) (Nat.not_lt.mp hp)
    rw [hnil]
    exact List.Pairwise.nil

theorem increasing (h : Interleaves produced made) : Report.Increasing made :=
  increasing_of_seqsOf h.pairwise_seqsOf

end Interleaves

/-! ### What was consumed -/

theorem flatten_shareOf_perm (line : List (ℕ × Item)) (m : ℕ) :
    ((List.range m).map (shareOf line)).flatten.Perm ((line.filter (·.1 < m)).map Prod.snd) := by
  induction m with
  | zero => simp
  | succ m ih =>
    have hlow : (line.filter (·.1 < m + 1)).filter (·.1 < m) = line.filter (·.1 < m) := by
      rw [List.filter_filter]
      refine List.filter_congr fun e _ => ?_
      simp only [← Bool.decide_and, decide_eq_decide]
      omega
    have hhigh : (line.filter (·.1 < m + 1)).filter (fun e => !decide (e.1 < m)) =
        line.filter (·.1 = m) := by
      rw [List.filter_filter]
      refine List.filter_congr fun e _ => ?_
      simp only [← decide_not, ← Bool.decide_and, decide_eq_decide]
      omega
    have hsplit := List.filter_append_perm (fun e : ℕ × Item => decide (e.1 < m))
      (line.filter (·.1 < m + 1))
    rw [hlow, hhigh] at hsplit
    rw [List.range_succ, List.map_append, List.flatten_append, List.map_singleton,
      List.flatten_singleton]
    refine (ih.append_right _).trans ?_
    rw [shareOf, ← List.map_append]
    exact hsplit.map Prod.snd

namespace Shares

variable {line : List (ℕ × Item)} {consumed : List (List Item)}

/-- All that the consumers got is all that was in the line. -/
theorem perm (h : Shares line consumed) : consumed.flatten.Perm (line.map Prod.snd) := by
  have hlists : consumed = (List.range consumed.length).map (shareOf line) := by
    refine List.ext_getElem (by simp) fun c hc _ => ?_
    rw [List.getElem_map, List.getElem_range]
    exact h.shares (List.getElem?_eq_getElem hc)
  have hall : line.filter (·.1 < consumed.length) = line :=
    List.filter_eq_self.mpr fun e he => by simpa using h.owners e he
  have hperm := flatten_shareOf_perm line consumed.length
  rwa [← hlists, hall] at hperm

theorem sublist (h : Shares line consumed) {items : List Item} (hi : items ∈ consumed) :
    items.Sublist (line.map Prod.snd) := by
  obtain ⟨c, hc⟩ := List.mem_iff_getElem?.mp hi
  rw [h.shares hc]
  exact List.filter_sublist.map Prod.snd

end Shares

/-- The report of what was made and shared out is correct unless there was something in the line
before. -/
theorem Report.correct_iff {r : Report} {initial made : List Item} {line : List (ℕ × Item)}
    (hl : line.map Prod.snd = initial ++ made) (hm : Interleaves r.produced made)
    (hs : Shares line r.consumed) : r.Correct ↔ initial = [] := by
  have hperm := hs.perm
  rw [hl] at hperm
  constructor
  · intro h
    rw [List.eq_nil_iff_forall_not_mem]
    intro i hi
    -- an item that was there before has the key of one that was made
    obtain ⟨n, hn, hlt⟩ := h.known i (hperm.mem_iff.mpr (List.mem_append_left _ hi))
    have hkeys := (hperm.map Item.key).nodup_iff.mp h.once
    rw [List.map_append, List.nodup_append] at hkeys
    exact hkeys.2.2 _ (List.mem_map_of_mem hi) _ (hm.complete hn hlt) rfl
  · rintro rfl
    rw [List.nil_append] at hperm hl
    refine ⟨fun i hi => hm.known (hperm.mem_iff.mp hi), ?_, fun hn seq hlt => ?_, fun items hi => ?_⟩
    · exact (hperm.map Item.key).nodup_iff.mpr hm.increasing.nodup_keys
    · exact (hperm.map Item.key).mem_iff.mpr (hm.complete hn hlt)
    · have hsub := hs.sublist hi
      rw [hl] at hsub
      exact List.Pairwise.sublist hsub hm.increasing

end QueueRace
