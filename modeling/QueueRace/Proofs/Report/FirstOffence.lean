import Mathlib.Data.List.Induction
import QueueRace.Proofs.Report.Shares

/-! Which offence the check of a report names, and when it panics. The items are taken in the order
of the scan, each beside its consumer, and whether one is bad is said by the items before it alone.
The check names the first bad item and, if there is none, the least item that was lost. -/

namespace QueueRace

namespace Report

variable {produced : List UInt64} {past line : List (ℕ × Item)} {c : ℕ} {i : Item}

/-- The items of the consumers from number `c` on in the order of the scan. -/
def inOrder (c : ℕ) : List (List Item) → List (ℕ × Item)
  | [] => []
  | items :: consumed => items.map (c, ·) ++ inOrder (c + 1) consumed

def scanned (r : Report) : List (ℕ × Item) := inOrder 0 r.consumed

/-! ### What is wrong with an item -/

def Known (produced : List UInt64) (i : Item) : Prop :=
  ∃ n, produced[i.producer]? = some n ∧ i.seq < n

/-- Some consumer has got the same item before. -/
def Repeated (past : List (ℕ × Item)) (i : Item) : Prop := i.key ∈ past.map (·.2.key)

/-- What consumer `c` has got of producer `p` before. -/
def predecessors (past : List (ℕ × Item)) (c p : ℕ) : List Item :=
  (shareOf past c).filter (·.producer = p)

/-- The consumer has got a later item of the same producer before. -/
def Late (past : List (ℕ × Item)) (c : ℕ) (i : Item) : Prop :=
  ∃ j ∈ predecessors past c i.producer, i.seq < j.seq

def Bad (produced : List UInt64) (past : List (ℕ × Item)) (c : ℕ) (i : Item) : Prop :=
  ¬ Known produced i ∨ Repeated past i ∨ Late past c i

instance : Decidable (Known produced i) := decidable_of_iff _ isKnown_iff

instance : Decidable (Repeated past i) := inferInstanceAs (Decidable (_ ∈ _))

instance : Decidable (Late past c i) := inferInstanceAs (Decidable (∃ j ∈ _, _))

instance : Decidable (Bad produced past c i) := inferInstanceAs (Decidable (_ ∨ _ ∨ _))

/-- What is to be said of a bad item. -/
inductive Blames (produced : List UInt64) (past : List (ℕ × Item)) (c : ℕ) (i : Item) :
    Verdict → Prop
  | unknown (hk : ¬ Known produced i) :
    Blames produced past c i (.rejected (.unknown c i.producer i.seq))
  | duplicated (hk : Known produced i) (hr : Repeated past i) :
    Blames produced past c i (.rejected (.duplicated c i.producer i.seq))
  | reordered {j : Item} (hk : Known produced i) (hr : ¬ Repeated past i)
    (hj : (predecessors past c i.producer).getLast? = some j) (hlt : i.seq < j.seq)
    (hmax : ∀ k ∈ predecessors past c i.producer, k.seq ≤ j.seq) :
    Blames produced past c i (.rejected (.reordered c i.producer i.seq j.seq))

theorem Blames.bad {v : Verdict} (h : Blames produced past c i v) : Bad produced past c i := by
  cases h with
  | unknown hk => exact .inl hk
  | duplicated hk hr => exact .inr (.inl hr)
  | reordered hk hr hj hlt => exact .inr (.inr ⟨_, List.mem_of_getLast? hj, hlt⟩)

/-- No item of the line is bad with respect to those before it. -/
def Faultless (produced : List UInt64) (line : List (ℕ × Item)) : Prop :=
  ∀ past c i later, line = past ++ (c, i) :: later → ¬ Bad produced past c i

/-- The item has been produced, but nobody has got it. -/
def Lost (r : Report) (p : ℕ) (seq : UInt64) : Prop :=
  (∃ n, r.produced[p]? = some n ∧ seq < n) ∧ (p, seq) ∉ r.consumed.flatten.map Item.key

theorem mem_predecessors {p : ℕ} {j : Item} :
    j ∈ predecessors past c p ↔ j ∈ shareOf past c ∧ j.producer = p := by
  rw [predecessors, List.mem_filter, decide_eq_true_eq]

theorem shareOf_subset {j : Item} (h : j ∈ shareOf past c) : j ∈ past.map Prod.snd := by
  obtain ⟨e, he, rfl⟩ := List.mem_map.mp h
  exact List.mem_map_of_mem (List.mem_filter.mp he).1

theorem repeated_iff : Repeated past i ↔ i.key ∈ (past.map Prod.snd).map Item.key := by
  rw [Repeated, List.map_map]
  rfl

/-! ### The order of the scan -/

theorem inOrder_append (c : ℕ) (done rest : List (List Item)) :
    inOrder c (done ++ rest) = inOrder c done ++ inOrder (c + done.length) rest := by
  induction done generalizing c with
  | nil => rfl
  | cons items done ih =>
    rw [List.cons_append, inOrder, inOrder, ih, List.append_assoc, List.length_cons,
      Nat.add_assoc, Nat.add_comm 1]

theorem map_snd_beside (c : ℕ) (items : List Item) : (items.map (c, ·)).map Prod.snd = items := by
  rw [List.map_map]
  exact List.map_id items

theorem map_snd_inOrder (c : ℕ) (consumed : List (List Item)) :
    (inOrder c consumed).map Prod.snd = consumed.flatten := by
  induction consumed generalizing c with
  | nil => rfl
  | cons items consumed ih =>
    rw [inOrder, List.map_append, ih, map_snd_beside, List.flatten_cons]

theorem lt_of_mem_inOrder {consumed : List (List Item)} {e : ℕ × Item}
    (h : e ∈ inOrder c consumed) : e.1 < c + consumed.length := by
  induction consumed generalizing c with
  | nil => cases h
  | cons items consumed ih =>
    rw [List.length_cons]
    rcases List.mem_append.mp h with h | h
    · obtain ⟨j, -, rfl⟩ := List.mem_map.mp h
      exact Nat.lt_add_of_pos_right (Nat.succ_pos _)
    · have := ih h
      omega

theorem shareOf_append_map (h : ∀ e ∈ past, e.1 < c) (items : List Item) :
    shareOf (past ++ items.map (c, ·)) c = items := by
  rw [shareOf, List.filter_append, List.map_append]
  have hpast : (past.filter (·.1 = c)).map Prod.snd = [] := shareOf_eq_nil h
  have hmine : (items.map (c, ·)).filter (·.1 = c) = items.map (c, ·) :=
    List.filter_eq_self.mpr fun e he => by
      obtain ⟨j, -, rfl⟩ := List.mem_map.mp he
      simp
  rw [hpast, hmine, map_snd_beside, List.nil_append]

/-! ### Lines without fault -/

theorem Faultless.left (h : Faultless produced (past ++ line)) : Faultless produced past :=
  fun before c i later hsplit => h before c i (later ++ line) (by rw [hsplit, List.append_assoc]; rfl)

theorem Faultless.snoc (h : Faultless produced past) (hi : ¬ Bad produced past c i) :
    Faultless produced (past ++ [(c, i)]) := by
  intro before d j later hsplit
  rcases List.eq_nil_or_concat' later with rfl | ⟨rest, e, rfl⟩
  · obtain ⟨rfl, he⟩ := List.append_inj' hsplit rfl
    cases he
    exact hi
  · rw [← List.cons_append, ← List.append_assoc] at hsplit
    exact h before d j rest (List.append_inj' hsplit rfl).1

/-- What one consumer has got of one producer increases. -/
theorem Faultless.increasing (h : Faultless produced past) (c : ℕ) :
    Increasing (shareOf past c) := by
  induction past using List.reverseRecOn with
  | nil => exact List.Pairwise.nil
  | append_singleton past e ih =>
    obtain ⟨d, i⟩ := e
    have hpast := ih h.left
    by_cases hd : d = c
    · subst hd
      have hgood : ¬ Bad produced past d i := h past d i [] rfl
      rw [shareOf_snoc_self]
      refine hpast.snoc fun j hj hp => ?_
      -- it is neither a later item nor the same one
      have hle : j.seq ≤ i.seq := UInt64.not_lt.mp fun hlt =>
        hgood (.inr (.inr ⟨j, mem_predecessors.mpr ⟨hj, hp⟩, hlt⟩))
      refine UInt64.lt_of_le_of_ne hle fun hs => hgood (.inr (.inl (repeated_iff.mpr ?_)))
      exact List.mem_map.mpr ⟨j, shareOf_subset hj, Prod.ext hp hs⟩
    · rwa [shareOf_snoc_of_ne hd]

/-- The last of the predecessors is the latest. -/
theorem Faultless.le_getLast? (h : Faultless produced past) {p : ℕ} {j k : Item}
    (hj : (predecessors past c p).getLast? = some j) (hk : k ∈ predecessors past c p) :
    k.seq ≤ j.seq := by
  obtain ⟨before, hsplit⟩ := List.getLast?_eq_some_iff.mp hj
  have hsorted : (predecessors past c p).Pairwise fun a b => a.producer = b.producer → a.seq < b.seq :=
    (h.increasing c).filter _
  rw [hsplit] at hk hsorted
  rcases List.mem_append.mp hk with hk | hk
  · have hkp := (mem_predecessors.mp (hsplit ▸ List.mem_append_left _ hk)).2
    have hjp := (mem_predecessors.mp (hsplit ▸ List.mem_append_right _ (List.mem_singleton_self j))).2
    exact UInt64.le_of_lt ((List.pairwise_append.mp hsorted).2.2 k hk j (List.mem_singleton_self j)
      (hkp.trans hjp.symm))
  · rw [List.mem_singleton.mp hk]
    exact UInt64.le_rfl

/-- There is only one first bad item. -/
theorem Faultless.unique {past' later later' : List (ℕ × Item)} {c' : ℕ} {i' : Item}
    (h : Faultless produced past) (h' : Faultless produced past') (hb : Bad produced past c i)
    (hb' : Bad produced past' c' i')
    (heq : past ++ (c, i) :: later = past' ++ (c', i') :: later') :
    past = past' ∧ c = c' ∧ i = i' := by
  rcases List.append_eq_append_iff.mp heq with ⟨more, rfl, hmore⟩ | ⟨more, rfl, hmore⟩
  · cases more with
    | nil =>
      cases hmore
      exact ⟨(List.append_nil past).symm, rfl, rfl⟩
    | cons e more =>
      obtain ⟨rfl, -⟩ := List.cons.inj hmore
      exact absurd hb (h' past c i more rfl)
  · cases more with
    | nil =>
      cases hmore
      exact ⟨List.append_nil past', rfl, rfl⟩
    | cons e more =>
      obtain ⟨rfl, -⟩ := List.cons.inj hmore
      exact absurd hb' (h past' c' i' more rfl)

/-! ### What the scan finds -/

theorem Admits.not_bad (h : Admits produced.toArray (past.map Prod.snd) (shareOf past c) i) :
    ¬ Bad produced past c i := by
  rintro (hk | hr | ⟨j, hj, hlt⟩)
  · exact hk (isKnown_iff.mp h.known)
  · exact h.new (repeated_iff.mp hr)
  · obtain ⟨hj, hp⟩ := mem_predecessors.mp hj
    exact UInt64.lt_irrefl _ (UInt64.lt_trans hlt (h.later j hj hp))

theorem Clean.faultless {items : List Item}
    (h : Clean produced.toArray (past.map Prod.snd) (shareOf past c) items)
    (hp : Faultless produced past) : Faultless produced (past ++ items.map (c, ·)) := by
  induction items generalizing past with
  | nil => rwa [List.map_nil, List.append_nil]
  | cons i items ih =>
    rw [List.map_cons, List.append_cons]
    refine ih ?_ (hp.snoc h.1.not_bad)
    rw [List.map_append, shareOf_snoc_self]
    exact h.2

theorem CleanAll.faultless {consumed : List (List Item)}
    (h : CleanAll produced.toArray (past.map Prod.snd) consumed) (hp : Faultless produced past)
    (hc : ∀ e ∈ past, e.1 < c) : Faultless produced (past ++ inOrder c consumed) := by
  induction consumed generalizing past c with
  | nil => rwa [inOrder, List.append_nil]
  | cons items consumed ih =>
    rw [inOrder, ← List.append_assoc]
    have hitems : Clean produced.toArray (past.map Prod.snd) (shareOf past c) items := by
      rw [shareOf_eq_nil hc]
      exact h.1
    refine ih ?_ (hitems.faultless hp) fun e he => ?_
    · rw [List.map_append, map_snd_beside]
      exact h.2
    · rcases List.mem_append.mp he with he | he
      · exact Nat.lt_succ_of_lt (hc e he)
      · obtain ⟨j, -, rfl⟩ := List.mem_map.mp he
        exact Nat.lt_succ_self c

/-- The scan objects to the first bad item, and otherwise has marked all items. -/
theorem scan_finds (r : Report) :
    match scan r.produced.toArray 0 ∅ r.consumed with
    | .ok seen => Faultless r.produced r.scanned ∧ Marks seen r.consumed.flatten
    | .error v => ∃ past c i later, r.scanned = past ++ (c, i) :: later ∧
        Faultless r.produced past ∧
        Objects r.produced.toArray c (past.map Prod.snd) (shareOf past c) i v := by
  have hempty : Marks ∅ [] := fun k => iff_of_false Std.HashSet.not_mem_empty List.not_mem_nil
  have hnone : Faultless r.produced [] := fun past c i later h => by simp at h
  have hscan := scan_spec r.produced.toArray 0 hempty r.consumed
  cases hs : scan r.produced.toArray 0 ∅ r.consumed with
  | ok seen =>
    rw [hs] at hscan
    have hfaultless : Faultless r.produced ([] ++ inOrder 0 r.consumed) :=
      CleanAll.faultless hscan.1 hnone nofun
    exact ⟨hfaultless, hscan.2⟩
  | error v =>
    rw [hs] at hscan
    obtain ⟨done, rest, before, i, after, hsplit, hdone, hbefore, hobj⟩ := hscan
    rw [Nat.zero_add] at hobj
    have hlow : ∀ e ∈ inOrder 0 done, e.1 < done.length := fun e he => by
      simpa using lt_of_mem_inOrder he
    have hfaultless : Faultless r.produced ([] ++ inOrder 0 done) :=
      CleanAll.faultless hdone hnone nofun
    have hmine : Clean r.produced.toArray ((inOrder 0 done).map Prod.snd)
        (shareOf (inOrder 0 done) done.length) before := by
      rw [map_snd_inOrder, shareOf_eq_nil hlow]
      exact hbefore
    refine ⟨inOrder 0 done ++ before.map (done.length, ·), done.length, i,
      after.map (done.length, ·) ++ inOrder (done.length + 1) rest, ?_, hmine.faultless hfaultless, ?_⟩
    · rw [scanned, hsplit, inOrder_append, inOrder, Nat.zero_add, List.map_append, List.map_cons]
      simp
    · rw [shareOf_append_map hlow, List.map_append, map_snd_inOrder, map_snd_beside]
      exact hobj

/-- The scan names the item for the first of the three reasons that holds of it. -/
theorem Objects.blames {v : Verdict}
    (h : Objects produced.toArray c (past.map Prod.snd) (shareOf past c) i v)
    (hp : Faultless produced past) : Blames produced past c i v := by
  cases h with
  | unknown hk => exact .unknown fun hknown => hk (isKnown_iff.mpr hknown)
  | duplicated hk hn => exact .duplicated (isKnown_iff.mp hk) (repeated_iff.mpr hn)
  | reordered hk hn hlast hle =>
    rw [List.getLast?_map] at hlast
    obtain ⟨j, hj, rfl⟩ := Option.map_eq_some_iff.mp hlast
    have hj : (predecessors past c i.producer).getLast? = some j := hj
    obtain ⟨hmem, hprod⟩ := mem_predecessors.mp (List.mem_of_getLast? hj)
    have hne : i.seq ≠ j.seq := fun hs =>
      hn (List.mem_map.mpr ⟨j, shareOf_subset hmem, Prod.ext hprod hs.symm⟩)
    exact .reordered (isKnown_iff.mp hk) (fun hr => hn (repeated_iff.mp hr)) hj
      (UInt64.lt_of_le_of_ne hle hne) fun k hk => hp.le_getLast? hj hk

/-! ### Lost items -/

theorem firstUnseen_eq_some {seen : Seen} {p n : ℕ} {s t : UInt64}
    (hn : s.toNat + n < 18446744073709551616) (h : firstUnseen seen p n s = some t) :
    s ≤ t ∧ t.toNat < s.toNat + n ∧ (p, t) ∉ seen ∧ ∀ u, s ≤ u → u < t → (p, u) ∈ seen := by
  induction n generalizing s with
  | zero => cases h
  | succ n ih =>
    have hsucc : (s + 1).toNat = s.toNat + 1 := by
      rw [UInt64.toNat_add]
      simp only [UInt64.reduceToNat]
      omega
    rw [firstUnseen] at h
    split at h
    · rename_i hseen
      obtain ⟨hle, hlt, hnot, hbelow⟩ := ih (by omega) h
      rw [UInt64.le_iff_toNat_le] at hle
      refine ⟨UInt64.le_iff_toNat_le.mpr (by omega), by omega, hnot, fun u hu hut => ?_⟩
      by_cases hus : u = s
      · rw [hus]
        exact hseen
      · have hne : u.toNat ≠ s.toNat := fun he => hus (UInt64.toNat_inj.mp he)
        rw [UInt64.le_iff_toNat_le] at hu
        exact hbelow u (UInt64.le_iff_toNat_le.mpr (by omega)) hut
    · rename_i hseen
      obtain rfl := Option.some.inj h
      refine ⟨UInt64.le_rfl, by omega, hseen, fun u hu hut => ?_⟩
      exact absurd hut (UInt64.not_lt.mpr hu)

/-- The item that is reported lost is the first one. -/
theorem firstLost_eq_some {seen : Seen} {p : ℕ} {e : Offence}
    (h : firstLost seen p produced = some e) :
    ∃ q n t, e = .lost (p + q) t ∧ produced[q]? = some n ∧ t < n ∧ (p + q, t) ∉ seen ∧
      (∀ u < t, (p + q, u) ∈ seen) ∧
      ∀ q' < q, ∀ m, produced[q']? = some m → ∀ u < m, (p + q', u) ∈ seen := by
  induction produced generalizing p with
  | nil => cases h
  | cons n produced ih =>
    have hn := n.toNat_lt
    rw [firstLost] at h
    split at h
    · rename_i t ht
      obtain rfl := Option.some.inj h
      obtain ⟨-, hlt, hnot, hbelow⟩ := firstUnseen_eq_some (by simpa using hn) ht
      have hlt : t < n := by simpa [UInt64.lt_iff_toNat_lt] using hlt
      exact ⟨0, n, t, rfl, rfl, hlt, hnot, fun u hu => hbelow u UInt64.zero_le hu,
        fun q' hq' => absurd hq' (Nat.not_lt_zero q')⟩
    · rename_i hnone
      obtain ⟨q, m, t, rfl, hq, hlt, hnot, hbelow, hearlier⟩ := ih h
      refine ⟨q + 1, m, t, ?_, hq, hlt, ?_, ?_, fun q' hq' k hk u hu => ?_⟩
      · rw [Nat.add_right_comm, Nat.add_assoc]
      · rwa [Nat.add_right_comm, Nat.add_assoc] at hnot
      · rwa [Nat.add_right_comm, Nat.add_assoc] at hbelow
      · cases q' with
        | zero =>
          obtain rfl := Option.some.inj hk
          exact (firstUnseen_eq_none_iff seen p n.toNat 0 (by simpa using hn)).mp hnone u
            UInt64.zero_le (by simpa [UInt64.lt_iff_toNat_lt] using hu)
        | succ q' =>
          have hseen := hearlier q' (Nat.lt_of_succ_lt_succ hq') k hk u hu
          rwa [Nat.add_right_comm, Nat.add_assoc] at hseen

/-! ### What the check says -/

theorem reserve_of_lt (h : ∃ n ∈ produced, markLimit < n.toNat) (p : ℕ) :
    reserve p produced = .error (.panicked .capacity) := by
  induction produced generalizing p with
  | nil =>
    obtain ⟨n, hn, -⟩ := h
    cases hn
  | cons m produced ih =>
    have hword : ¬ positionCount ≤ m.toNat := Nat.not_le.mpr m.toNat_lt
    rw [reserve, if_neg hword]
    by_cases hm : markLimit < m.toNat
    · rw [if_pos hm]
    · rw [if_neg hm]
      obtain ⟨n, hn, hlt⟩ := h
      rcases List.mem_cons.mp hn with rfl | hn
      · exact absurd hlt hm
      · exact ih ⟨n, hn, hlt⟩ (p + 1)

/-- Where there is room for the marks, the check ends in one of three ways. -/
theorem verify_cases {r : Report} (hr : ∀ n ∈ r.produced, n.toNat ≤ markLimit) :
    (∃ past c i later, r.scanned = past ++ (c, i) :: later ∧ Faultless r.produced past ∧
        Blames r.produced past c i r.verify) ∨
      Faultless r.produced r.scanned ∧
        ((∃ p seq, r.Lost p seq ∧ (∀ q t, r.Lost q t → p < q ∨ p = q ∧ seq ≤ t) ∧
            r.verify = .rejected (.lost p seq)) ∨
          (∀ p seq, ¬ r.Lost p seq) ∧ r.verify = .accepted) := by
  have hfinds := scan_finds r
  rw [verify, reserve_of_le hr]
  simp only
  cases hs : scan r.produced.toArray 0 ∅ r.consumed with
  | error v =>
    rw [hs] at hfinds
    obtain ⟨past, c, i, later, hsplit, hpast, hobj⟩ := hfinds
    exact .inl ⟨past, c, i, later, hsplit, hpast, hobj.blames hpast⟩
  | ok seen =>
    rw [hs] at hfinds
    obtain ⟨hall, hm⟩ := hfinds
    refine .inr ⟨hall, ?_⟩
    simp only
    cases hf : firstLost seen 0 r.produced with
    | none =>
      refine .inr ⟨?_, rfl⟩
      rintro p seq ⟨⟨n, hn, hlt⟩, hnot⟩
      have hseen := (firstLost_eq_none_iff seen 0 r.produced).mp hf hn seq hlt
      rw [Nat.zero_add] at hseen
      exact hnot ((hm _).mp hseen)
    | some e =>
      obtain ⟨p, n, seq, rfl, hn, hlt, hnot, hbelow, hearlier⟩ := firstLost_eq_some hf
      simp only [Nat.zero_add] at hnot hbelow hearlier ⊢
      refine .inl ⟨p, seq, ⟨⟨n, hn, hlt⟩, fun hin => hnot ((hm _).mpr hin)⟩, ?_, rfl⟩
      rintro q t ⟨⟨m, hq, ht⟩, hlost⟩
      rcases Nat.lt_trichotomy p q with hpq | rfl | hqp
      · exact .inl hpq
      · exact .inr ⟨rfl, UInt64.not_lt.mp fun htp => hlost ((hm _).mp (hbelow t htp))⟩
      · exact absurd ((hm _).mp (hearlier q hqp m hq t ht)) hlost

/-- Unless there are too many items to mark, the check blames the first bad item, for the first
reason that holds: it is unknown, it has been seen before, or its consumer has got a later item of
the same producer before, in which case the item named beside it is the last one and the latest
one. If no item is bad, it names the least item that was lost, and accepts the report if none was.
It does not ask a table for an entry that is not there. -/
theorem verify_blames_first {r : Report} (hr : ∀ n ∈ r.produced, n.toNat ≤ markLimit) :
    (∀ past c i later, r.scanned = past ++ (c, i) :: later → Faultless r.produced past →
      Bad r.produced past c i → Blames r.produced past c i r.verify) ∧
    (Faultless r.produced r.scanned →
      ((∃ p seq, r.Lost p seq) → ∃ p seq, r.Lost p seq ∧
        (∀ q t, r.Lost q t → p < q ∨ p = q ∧ seq ≤ t) ∧ r.verify = .rejected (.lost p seq)) ∧
      ((∀ p seq, ¬ r.Lost p seq) → r.verify = .accepted)) ∧
    ∀ why, r.verify ≠ .panicked why := by
  rcases verify_cases hr with ⟨past, c, i, later, hsplit, hpast, hblames⟩ | ⟨hall, hend⟩
  · refine ⟨fun past' c' i' later' hsplit' hpast' hbad => ?_, fun hall => ?_, fun why hp => ?_⟩
    · obtain ⟨rfl, rfl, rfl⟩ := hpast.unique hpast' hblames.bad hbad (hsplit.symm.trans hsplit')
      exact hblames
    · exact absurd hblames.bad (hall past c i later hsplit)
    · rw [hp] at hblames
      cases hblames
  · refine ⟨fun past c i later hsplit _ hbad => absurd hbad (hall past c i later hsplit),
      fun _ => ?_, fun why hp => ?_⟩
    · rcases hend with ⟨p, seq, hlost, hleast, hv⟩ | ⟨hnone, hv⟩
      · exact ⟨fun _ => ⟨p, seq, hlost, hleast, hv⟩, fun hnone => absurd hlost (hnone p seq)⟩
      · exact ⟨fun ⟨p, seq, hlost⟩ => absurd hlost (hnone p seq), fun _ => hv⟩
    · rcases hend with ⟨p, seq, -, -, hv⟩ | ⟨-, hv⟩ <;>
      · rw [hv] at hp
        cases hp

/-- The second consumer gets the last item of the first producer too early, and then an item that
nobody has made. -/
def tangled : Report :=
  ⟨[3, 1], [[⟨0, 0, 5⟩], [⟨1, 0, 5⟩, ⟨0, 2, 5⟩, ⟨0, 1, 5⟩, ⟨7, 7, 5⟩]]⟩

/-- The check stops at the item that comes too late. -/
theorem verify_blames_first_tangled :
    (∀ n ∈ tangled.produced, n.toNat ≤ markLimit) ∧
      tangled.verify = .rejected (.reordered 1 0 1 2) := by
  have hroom : ∀ n ∈ tangled.produced, n.toNat ≤ markLimit := by simp [tangled, markLimit]
  have hnone : Faultless tangled.produced [] := fun past c i later h => by simp at h
  have hpast : Faultless tangled.produced [(0, ⟨0, 0, 5⟩), (1, ⟨1, 0, 5⟩), (1, ⟨0, 2, 5⟩)] :=
    ((hnone.snoc (c := 0) (i := ⟨0, 0, 5⟩) (by decide)).snoc (c := 1) (i := ⟨1, 0, 5⟩)
      (by decide)).snoc (c := 1) (i := ⟨0, 2, 5⟩) (by decide)
  have hblames := (verify_blames_first hroom).1 _ 1 ⟨0, 1, 5⟩ [(1, ⟨7, 7, 5⟩)] rfl hpast (by decide)
  refine ⟨hroom, ?_⟩
  generalize tangled.verify = v at hblames
  cases hblames with
  | unknown hk => exact absurd (by decide) hk
  | duplicated hk hr => exact absurd hr (by decide)
  | reordered hk hr hj =>
    obtain rfl := Option.some.inj hj
    rfl

/-- The check panics if and only if one producer has more items than there can be marks, whatever
was consumed. A refusal for that reason is never given: it is guarded by the number of positions,
which is higher. -/
theorem verify_panics_exactly (r : Report) :
    (r.verify = .panicked .capacity ↔ ∃ n ∈ r.produced, markLimit < n.toNat) ∧
      (∀ index size, r.verify ≠ .panicked (.outOfRange index size)) ∧
      ∀ p n, r.verify ≠ .rejected (.tooMany p n) := by
  by_cases hr : ∃ n ∈ r.produced, markLimit < n.toNat
  · have hv : r.verify = .panicked .capacity := by rw [verify, reserve_of_lt hr]
    simpa [hv] using hr
  · have hroom : ∀ n ∈ r.produced, n.toNat ≤ markLimit := by simpa using hr
    rcases verify_cases hroom with ⟨past, c, i, later, -, -, hblames⟩ |
      ⟨-, ⟨p, seq, -, -, hv⟩ | ⟨-, hv⟩⟩
    · generalize r.verify = v at hblames
      cases hblames <;> simpa using hr
    · simpa [hv] using hr
    · simpa [hv] using hr

/-- A producer has one item more than there can be marks, and the check does not refuse it. -/
theorem verify_panics_beyond_limit :
    (⟨[9223372036854775808], []⟩ : Report).verify = .panicked .capacity ∧
      (⟨[9223372036854775808], []⟩ : Report).verify ≠
        .rejected (.tooMany 0 9223372036854775808) := by
  decide +kernel

end Report

end QueueRace
