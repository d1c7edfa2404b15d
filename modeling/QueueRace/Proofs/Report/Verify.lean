import Mathlib.Data.List.Nodup
import Mathlib.Data.Nat.Notation
import QueueRace.Report.Verify

/-! What the check of a report decides. The scan compares each item only with the last one that
its consumer got from the same producer, and it marks items in one set for all consumers; the
statement speaks of all items at once. In between stands the list of the items scanned so far,
which the set and the table of last positions stand for. -/

namespace QueueRace

/-- A producer and a place in its order. -/
def Item.key (i : Item) : ℕ × UInt64 := (i.producer, i.seq)

namespace Report

/-- The items of any one producer come in its order. -/
def Increasing (items : List Item) : Prop :=
  items.Pairwise fun i j => i.producer = j.producer → i.seq < j.seq

instance (items : List Item) : Decidable (Increasing items) :=
  inferInstanceAs (Decidable (items.Pairwise _))

/-- Every item that was produced was consumed once, nothing else was, and each consumer got the
items of a producer in their order. -/
structure Correct (r : Report) : Prop where
  known : ∀ i ∈ r.consumed.flatten, ∃ n, r.produced[i.producer]? = some n ∧ i.seq < n
  once : (r.consumed.flatten.map Item.key).Nodup
  complete : ∀ {p : ℕ} {n : UInt64}, r.produced[p]? = some n → ∀ seq < n,
    (p, seq) ∈ r.consumed.flatten.map Item.key
  ordered : ∀ items ∈ r.consumed, Increasing items

theorem isKnown_iff {produced : List UInt64} {i : Item} :
    isKnown produced.toArray i = true ↔ ∃ n, produced[i.producer]? = some n ∧ i.seq < n := by
  simp only [isKnown, List.getElem?_toArray]
  cases produced[i.producer]? with
  | none => simp
  | some n => simp

/-! ### Room for the marks -/

theorem reserve_of_le {produced : List UInt64} (h : ∀ n ∈ produced, n.toNat ≤ markLimit) (p : ℕ) :
    reserve p produced = .ok () := by
  induction produced generalizing p with
  | nil => rfl
  | cons n produced ih =>
    obtain ⟨hn, hrest⟩ := List.forall_mem_cons.mp h
    have hword : ¬ positionCount ≤ n.toNat := Nat.not_le.mpr n.toNat_lt
    rw [reserve, if_neg hword, if_neg (Nat.not_lt.mpr hn), ih hrest]

/-! ### What the scan keeps -/

/-- The marks are those of the items in `past`. -/
def Marks (seen : Seen) (past : List Item) : Prop := ∀ k, k ∈ seen ↔ k ∈ past.map Item.key

/-- The table has an entry for each of `size` producers, which says where it was met last in
`mine`. -/
structure Lasts (size : ℕ) (last : Last) (mine : List Item) : Prop where
  size_eq : last.size = size
  entry : ∀ p < size, last[p]? = some ((mine.filter (·.producer = p)).map (·.seq)).getLast?

theorem Marks.insert {seen : Seen} {past : List Item} (h : Marks seen past) (i : Item) :
    Marks (seen.insert (i.producer, i.seq)) (past ++ [i]) := by
  intro k
  rw [Std.HashSet.mem_insert, h k, List.map_append, List.mem_append, beq_iff_eq, or_comm]
  simp [Item.key, eq_comm]

theorem lasts_replicate (size : ℕ) : Lasts size (.replicate size none) [] where
  size_eq := Array.size_replicate
  entry p hp := by
    rw [Array.getElem?_replicate, if_pos hp]
    rfl

theorem Lasts.insert {size : ℕ} {last : Last} {mine : List Item} (h : Lasts size last mine)
    (i : Item) : Lasts size (last.setIfInBounds i.producer (some i.seq)) (mine ++ [i]) where
  size_eq := by rw [Array.size_setIfInBounds, h.size_eq]
  entry p hp := by
    rw [Array.getElem?_setIfInBounds, List.filter_append]
    by_cases hi : i.producer = p
    · simp [hi, h.size_eq, hp]
    · simp [hi, h.entry p hp]

theorem Increasing.seqs {mine : List Item} (h : Increasing mine) (p : ℕ) :
    ((mine.filter (·.producer = p)).map (·.seq)).Pairwise (· < ·) := by
  rw [List.pairwise_map, List.pairwise_filter]
  refine h.imp fun hij hi hj => hij ?_
  rw [of_decide_eq_true hi, of_decide_eq_true hj]

/-- What is after the last is after all, if they increase. -/
theorem getLast?_lt_iff {l : List UInt64} (h : l.Pairwise (· < ·)) (x : UInt64) :
    (∀ last, l.getLast? = some last → last < x) ↔ ∀ y ∈ l, y < x := by
  constructor
  · intro hx y hy
    obtain ⟨l', last, rfl⟩ := (List.eq_nil_or_concat' l).resolve_left (List.ne_nil_of_mem hy)
    have hlast := hx last (by simp)
    rcases List.mem_append.mp hy with hy | hy
    · exact UInt64.lt_trans ((List.pairwise_append.mp h).2.2 y hy last (List.mem_singleton_self _)) hlast
    · rwa [List.mem_singleton.mp hy]
  · intro hx last hl
    exact hx last (List.mem_of_getLast? hl)

/-! ### One consumer -/

/-- Whether item `i` is in order after the items `past`, of which its consumer got `mine`. -/
structure Admits (produced : Array UInt64) (past mine : List Item) (i : Item) : Prop where
  known : isKnown produced i = true
  new : i.key ∉ past.map Item.key
  later : ∀ j ∈ mine, j.producer = i.producer → j.seq < i.seq

def Clean (produced : Array UInt64) : List Item → List Item → List Item → Prop
  | _, _, [] => True
  | past, mine, i :: items =>
    Admits produced past mine i ∧ Clean produced (past ++ [i]) (mine ++ [i]) items

/-- What the scan says of an item of consumer `c` that is not in order. -/
inductive Objects (produced : Array UInt64) (c : ℕ) (past mine : List Item) (i : Item) :
    Verdict → Prop
  | unknown (hk : ¬ isKnown produced i) :
    Objects produced c past mine i (.rejected (.unknown c i.producer i.seq))
  | duplicated (hk : isKnown produced i) (hn : i.key ∈ past.map Item.key) :
    Objects produced c past mine i (.rejected (.duplicated c i.producer i.seq))
  | reordered {prev : UInt64} (hk : isKnown produced i) (hn : i.key ∉ past.map Item.key)
    (hlast : ((mine.filter (·.producer = i.producer)).map (·.seq)).getLast? = some prev)
    (hle : i.seq ≤ prev) :
    Objects produced c past mine i (.rejected (.reordered c i.producer i.seq prev))

theorem Increasing.later_iff {mine : List Item} (h : Increasing mine) (i : Item) :
    (∀ prev, ((mine.filter (·.producer = i.producer)).map (·.seq)).getLast? = some prev →
      prev < i.seq) ↔ ∀ j ∈ mine, j.producer = i.producer → j.seq < i.seq := by
  rw [getLast?_lt_iff (h.seqs _)]
  simp only [List.mem_map, List.mem_filter, decide_eq_true_eq]
  constructor
  · intro hx j hj hp
    exact hx j.seq ⟨j, ⟨hj, hp⟩, rfl⟩
  · rintro hx _ ⟨j, ⟨hj, hp⟩, rfl⟩
    exact hx j hj hp

theorem Increasing.snoc {mine : List Item} (h : Increasing mine) {i : Item}
    (hi : ∀ j ∈ mine, j.producer = i.producer → j.seq < i.seq) : Increasing (mine ++ [i]) := by
  refine List.pairwise_append.mpr ⟨h, List.pairwise_singleton _ _, fun j hj k hk hp => ?_⟩
  obtain rfl := List.mem_singleton.mp hk
  exact hi j hj hp

theorem producer_lt_of_isKnown {produced : Array UInt64} {i : Item} (h : isKnown produced i) :
    i.producer < produced.size := by
  rw [isKnown] at h
  split at h
  · cases h
  · exact (Array.getElem?_eq_some_iff.mp ‹_›).1

/-- The scan of one consumer ends well if its items are clean, and has marked them then. Otherwise
it ends at the first item that is not in order; the table has an entry for every producer it is
asked for. -/
theorem scanItems_spec (produced : Array UInt64) (c : ℕ) {seen : Seen} {last : Last}
    {past mine : List Item} (hs : Marks seen past) (hl : Lasts produced.size last mine)
    (hm : Increasing mine) (items : List Item) :
    match scanItems produced c seen last items with
    | .ok seen' => Clean produced past mine items ∧ Marks seen' (past ++ items)
    | .error v => ∃ before i after, items = before ++ i :: after ∧ Clean produced past mine before ∧
        Objects produced c (past ++ before) (mine ++ before) i v := by
  induction items generalizing seen last past mine with
  | nil => exact ⟨trivial, by rwa [List.append_nil]⟩
  | cons i items ih =>
    -- where the scan ends here, nothing stands before the item
    have hhere : ∀ {v}, Objects produced c past mine i v → ∃ before j after,
        i :: items = before ++ j :: after ∧ Clean produced past mine before ∧
          Objects produced c (past ++ before) (mine ++ before) j v :=
      fun h => ⟨[], i, items, rfl, trivial, by simpa using h⟩
    rw [scanItems]
    by_cases hk : isKnown produced i = true
    · by_cases hn : i.key ∈ past.map Item.key
      · have hc : seen.contains (i.producer, i.seq) = true := (hs _).mpr hn
        rw [hk, hc]
        exact hhere (.duplicated hk hn)
      · have hc : seen.contains (i.producer, i.seq) = false := by
          rw [Bool.eq_false_iff]
          exact fun hc => hn ((hs _).mp hc)
        have hentry := hl.entry _ (producer_lt_of_isKnown hk)
        have hlater := hm.later_iff i
        rw [hk, hc]
        simp only [Bool.not_true, Bool.false_eq_true, if_false, hentry]
        generalize hfound : Option.filter _ _ = found
        cases found with
        | some prev =>
          obtain ⟨hlast, hle⟩ := Option.filter_eq_some_iff.mp hfound
          exact hhere (.reordered hk hn hlast (of_decide_eq_true hle))
        | none =>
          have hadm : Admits produced past mine i := by
            refine ⟨hk, hn, hlater.mp fun prev hprev => ?_⟩
            have hnot := Option.filter_eq_none_iff.mp hfound prev hprev
            exact UInt64.not_le.mp fun hle => hnot (decide_eq_true hle)
          have hrest := ih (hs.insert i) (hl.insert i) (hm.snoc hadm.later)
          rw [List.append_assoc, List.singleton_append] at hrest
          simp only
          split at hrest
          · exact ⟨⟨hadm, hrest.1⟩, hrest.2⟩
          · obtain ⟨before, j, after, rfl, hclean, hobj⟩ := hrest
            exact ⟨i :: before, j, after, rfl, ⟨hadm, hclean⟩, by simpa using hobj⟩
    · rw [Bool.eq_false_iff.mpr hk]
      exact hhere (.unknown hk)

theorem Clean.admits {produced : Array UInt64} {past mine before after : List Item} {i : Item}
    (h : Clean produced past mine (before ++ i :: after)) :
    Admits produced (past ++ before) (mine ++ before) i := by
  induction before generalizing past mine with
  | nil => simpa using h.1
  | cons j before ih => simpa using ih h.2

theorem Objects.not_admits {produced : Array UInt64} {c : ℕ} {past mine : List Item} {i : Item}
    {v : Verdict} (h : Objects produced c past mine i v) : ¬ Admits produced past mine i := by
  intro hadm
  cases h with
  | unknown hk => exact hk hadm.known
  | duplicated hk hn => exact hadm.new hn
  | reordered hk hn hlast hle =>
    obtain ⟨j, hj, rfl⟩ := List.mem_map.mp (List.mem_of_getLast? hlast)
    obtain ⟨hj, hp⟩ := List.mem_filter.mp hj
    exact UInt64.not_lt.mpr hle (hadm.later j hj (of_decide_eq_true hp))

theorem clean_iff {produced : Array UInt64} {past mine : List Item} (hp : (past.map Item.key).Nodup)
    (hm : Increasing mine) (items : List Item) :
    Clean produced past mine items ↔ (∀ i ∈ items, isKnown produced i = true) ∧
      ((past ++ items).map Item.key).Nodup ∧ Increasing (mine ++ items) := by
  induction items generalizing past mine with
  | nil => simp [Clean, hp, hm]
  | cons i items ih =>
    rw [List.append_cons past, List.append_cons mine, List.forall_mem_cons, Clean]
    constructor
    · rintro ⟨hadm, hrest⟩
      have hp' : ((past ++ [i]).map Item.key).Nodup := by
        rw [List.map_append]
        exact hp.append (List.nodup_singleton _) (by simpa using hadm.new)
      obtain ⟨h1, h2, h3⟩ := (ih hp' (hm.snoc hadm.later)).mp hrest
      exact ⟨⟨hadm.known, h1⟩, h2, h3⟩
    · rintro ⟨⟨hk, h1⟩, h2, h3⟩
      have hp' : ((past ++ [i]).map Item.key).Nodup := by
        rw [List.map_append] at h2
        exact h2.of_append_left
      have hm' : Increasing (mine ++ [i]) := (List.pairwise_append.mp h3).1
      refine ⟨⟨hk, ?_, ?_⟩, (ih hp' hm').mpr ⟨h1, h2, h3⟩⟩
      · rw [List.map_append, List.nodup_append] at hp'
        exact fun hi => hp'.2.2 _ hi _ (by simp) rfl
      · exact fun j hj hji => (List.pairwise_append.mp hm').2.2 j hj i (List.mem_singleton_self _) hji

/-! ### All consumers -/

def CleanAll (produced : Array UInt64) : List Item → List (List Item) → Prop
  | _, [] => True
  | past, items :: consumed =>
    Clean produced past [] items ∧ CleanAll produced (past ++ items) consumed

theorem CleanAll.admits {produced : Array UInt64} {past before after : List Item} {i : Item}
    {done rest : List (List Item)}
    (h : CleanAll produced past (done ++ (before ++ i :: after) :: rest)) :
    Admits produced (past ++ done.flatten ++ before) before i := by
  induction done generalizing past with
  | nil => simpa using h.1.admits
  | cons items done ih => simpa using ih h.2

/-- The scan of all consumers ends well if their items are clean, and otherwise at the first item
that is not in order. -/
theorem scan_spec (produced : Array UInt64) (c : ℕ) {seen : Seen} {past : List Item}
    (hs : Marks seen past) (consumed : List (List Item)) :
    match scan produced c seen consumed with
    | .ok seen' => CleanAll produced past consumed ∧ Marks seen' (past ++ consumed.flatten)
    | .error v => ∃ done rest before i after, consumed = done ++ (before ++ i :: after) :: rest ∧
        CleanAll produced past done ∧ Clean produced (past ++ done.flatten) [] before ∧
        Objects produced (c + done.length) (past ++ done.flatten ++ before) before i v := by
  induction consumed generalizing c seen past with
  | nil => exact ⟨trivial, by simpa using hs⟩
  | cons items consumed ih =>
    have hone := scanItems_spec produced c hs (lasts_replicate produced.size) List.Pairwise.nil items
    simp only [scan]
    split at hone
    · rename_i seen' hscan
      have hrest := ih (c + 1) hone.2
      simp only [hscan]
      split at hrest
      · refine ⟨⟨hone.1, hrest.1⟩, ?_⟩
        rw [List.flatten_cons, ← List.append_assoc]
        exact hrest.2
      · obtain ⟨done, rest, before, i, after, rfl, hdone, hbefore, hobj⟩ := hrest
        refine ⟨items :: done, rest, before, i, after, rfl, ⟨hone.1, hdone⟩, ?_, ?_⟩
        · rwa [List.flatten_cons, ← List.append_assoc]
        · rwa [List.flatten_cons, ← List.append_assoc, List.length_cons, Nat.add_comm done.length,
            ← Nat.add_assoc]
    · rename_i v hscan
      obtain ⟨before, i, after, rfl, hbefore, hobj⟩ := hone
      simp only [hscan]
      exact ⟨[], consumed, before, i, after, rfl, trivial, by simpa using hbefore, by simpa using hobj⟩

theorem cleanAll_iff {produced : Array UInt64} {past : List Item} (hp : (past.map Item.key).Nodup)
    (consumed : List (List Item)) :
    CleanAll produced past consumed ↔ (∀ i ∈ consumed.flatten, isKnown produced i = true) ∧
      ((past ++ consumed.flatten).map Item.key).Nodup ∧ ∀ items ∈ consumed, Increasing items := by
  induction consumed generalizing past with
  | nil => simp [CleanAll, hp]
  | cons items consumed ih =>
    rw [CleanAll, clean_iff hp List.Pairwise.nil, List.nil_append, List.flatten_cons,
      ← List.append_assoc, List.forall_mem_append, List.forall_mem_cons]
    constructor
    · rintro ⟨⟨h1, h2, h3⟩, hrest⟩
      obtain ⟨h4, h5, h6⟩ := (ih h2).mp hrest
      exact ⟨⟨h1, h4⟩, h5, h3, h6⟩
    · rintro ⟨⟨h1, h4⟩, h5, h3, h6⟩
      have h2 : ((past ++ items).map Item.key).Nodup := by
        rw [List.map_append] at h5
        exact h5.of_append_left
      exact ⟨⟨h1, h2, h3⟩, (ih h2).mpr ⟨h4, h5, h6⟩⟩

/-! ### Lost items -/

theorem firstUnseen_eq_none_iff (seen : Seen) (p n : ℕ) (s : UInt64)
    (hn : s.toNat + n < 18446744073709551616) :
    firstUnseen seen p n s = none ↔
      ∀ t : UInt64, s ≤ t → t.toNat < s.toNat + n → (p, t) ∈ seen := by
  induction n generalizing s with
  | zero =>
    refine iff_of_true rfl fun t hle hlt => ?_
    rw [UInt64.le_iff_toNat_le] at hle
    omega
  | succ n ih =>
    have hsucc : (s + 1).toNat = s.toNat + 1 := by
      rw [UInt64.toNat_add]
      simp only [UInt64.reduceToNat]
      omega
    rw [firstUnseen]
    split
    · rename_i hc
      rw [ih (s + 1) (by omega)]
      constructor
      · intro h t hle hlt
        by_cases ht : t = s
        · rw [ht]
          exact hc
        · have hne : t.toNat ≠ s.toNat := fun he => ht (UInt64.toNat_inj.mp he)
          rw [UInt64.le_iff_toNat_le] at hle
          exact h t (UInt64.le_iff_toNat_le.mpr (by omega)) (by omega)
      · intro h t hle hlt
        rw [UInt64.le_iff_toNat_le] at hle
        exact h t (UInt64.le_iff_toNat_le.mpr (by omega)) (by omega)
    · rename_i hc
      refine iff_of_false nofun fun h => hc ?_
      exact h s UInt64.le_rfl (by omega)

theorem firstLost_eq_none_iff (seen : Seen) (p : ℕ) (produced : List UInt64) :
    firstLost seen p produced = none ↔
      ∀ {q : ℕ} {n : UInt64}, produced[q]? = some n → ∀ t < n, (p + q, t) ∈ seen := by
  induction produced generalizing p with
  | nil => simp [firstLost]
  | cons n produced ih =>
    have hn := n.toNat_lt
    have hone := firstUnseen_eq_none_iff seen p n.toNat 0 (by simpa using hn)
    rw [firstLost]
    split
    · rename_i s hs
      refine iff_of_false nofun fun h => ?_
      rw [hone.mpr fun t _ ht => ?_] at hs
      · cases hs
      · have ht : t < n := by simpa [UInt64.lt_iff_toNat_lt] using ht
        exact h (q := 0) rfl t ht
    · rename_i hs
      rw [ih]
      constructor
      · intro h q m hq t ht
        cases q with
        | zero =>
          obtain rfl := Option.some.inj hq
          exact hone.mp hs t UInt64.zero_le (by simpa [UInt64.lt_iff_toNat_lt] using ht)
        | succ q =>
          have := h hq t ht
          rwa [Nat.add_assoc, Nat.add_comm 1] at this
      · intro h q m hq t ht
        have := h (q := q + 1) hq t ht
        rwa [← Nat.add_assoc, Nat.add_right_comm] at this

/-- Unless there are too many items to mark, the check accepts the correct reports and no other. -/
theorem verify_eq_accepted_iff {r : Report} (hr : ∀ n ∈ r.produced, n.toNat ≤ markLimit) :
    r.verify = .accepted ↔ r.Correct := by
  have hempty : Marks ∅ [] := fun k => iff_of_false Std.HashSet.not_mem_empty (List.not_mem_nil)
  have hscan := scan_spec r.produced.toArray 0 hempty r.consumed
  have hnil : (([] : List Item).map Item.key).Nodup := List.nodup_nil
  have hclean : CleanAll r.produced.toArray [] r.consumed ↔ _ := cleanAll_iff hnil r.consumed
  rw [List.nil_append] at hclean
  rw [verify, reserve_of_le hr]
  simp only
  cases hs : scan r.produced.toArray 0 ∅ r.consumed with
  | error v =>
    rw [hs] at hscan
    obtain ⟨done, rest, before, i, after, hsplit, -, -, hobj⟩ := hscan
    have hnot : ¬ CleanAll r.produced.toArray [] r.consumed := by
      intro hall
      rw [hsplit] at hall
      exact hobj.not_admits hall.admits
    have hrejected : v ≠ .accepted := by
      rintro rfl
      cases hobj
    refine iff_of_false hrejected fun h => hnot (hclean.mpr ⟨fun i hi => ?_, h.once, h.ordered⟩)
    exact isKnown_iff.mpr (h.known i hi)
  | ok seen =>
    rw [hs] at hscan
    obtain ⟨hall, hm⟩ := hscan
    obtain ⟨h1, h2, h3⟩ := hclean.mp hall
    rw [List.nil_append] at hm
    have hlost := firstLost_eq_none_iff seen 0 r.produced
    simp only
    cases hf : firstLost seen 0 r.produced with
    | some e =>
      refine iff_of_false nofun fun h => ?_
      rw [hlost.mpr fun hq t ht => ?_] at hf
      · cases hf
      · rw [Nat.zero_add]
        exact (hm _).mpr (h.complete hq t ht)
    | none =>
      refine iff_of_true rfl ⟨fun i hi => isKnown_iff.mp (h1 i hi), h2, fun hq t ht => ?_, h3⟩
      have hseen := hlost.mp hf hq t ht
      rw [Nat.zero_add] at hseen
      exact (hm _).mp hseen

/-- To be consumed once is to be counted once. -/
theorem correct_iff_count (r : Report) :
    r.Correct ↔
      (∀ i ∈ r.consumed.flatten, ∃ n, r.produced[i.producer]? = some n ∧ i.seq < n) ∧
      (∀ (p : ℕ) (n : UInt64), r.produced[p]? = some n → ∀ seq < n,
        (r.consumed.flatten.map Item.key).count (p, seq) = 1) ∧
      ∀ items ∈ r.consumed, Increasing items := by
  constructor
  · intro h
    refine ⟨h.known, fun p n hn seq hlt => ?_, h.ordered⟩
    exact List.count_eq_one_of_mem h.once (h.complete hn seq hlt)
  · rintro ⟨hknown, hcount, hordered⟩
    refine ⟨hknown, ?_, fun hn seq hlt => ?_, hordered⟩
    · rw [List.nodup_iff_count_le_one]
      intro k
      by_cases hk : k ∈ r.consumed.flatten.map Item.key
      · obtain ⟨i, hi, rfl⟩ := List.mem_map.mp hk
        obtain ⟨n, hn, hlt⟩ := hknown i hi
        exact Nat.le_of_eq (hcount _ n hn _ hlt)
      · rw [List.count_eq_zero_of_not_mem hk]
        exact Nat.zero_le 1
    · rw [← List.count_pos_iff, hcount _ _ hn seq hlt]
      exact Nat.one_pos

/-! ### Values -/

/-- The reports differ at most in the values of their items. -/
def SameKeys (r r' : Report) : Prop :=
  r'.produced = r.produced ∧
    r'.consumed.map (·.map Item.key) = r.consumed.map (·.map Item.key)

theorem scanItems_congr (produced : Array UInt64) (c : ℕ) {items items' : List Item}
    (h : items'.map Item.key = items.map Item.key) (seen : Seen) (last : Last) :
    scanItems produced c seen last items' = scanItems produced c seen last items := by
  induction items generalizing items' seen last with
  | nil =>
    obtain rfl : items' = [] := List.map_eq_nil_iff.mp h
    rfl
  | cons i items ih =>
    obtain ⟨i', rest, rfl, hi, hrest⟩ := List.map_eq_cons_iff.mp h
    obtain ⟨hp, hs⟩ := Prod.mk.inj hi
    have hk : isKnown produced i' = isKnown produced i := by simp only [isKnown, hp, hs]
    simp only [scanItems, hk, hp, hs, ih hrest]

theorem scan_congr (produced : Array UInt64) (c : ℕ) {consumed consumed' : List (List Item)}
    (h : consumed'.map (·.map Item.key) = consumed.map (·.map Item.key)) (seen : Seen) :
    scan produced c seen consumed' = scan produced c seen consumed := by
  induction consumed generalizing consumed' c seen with
  | nil =>
    obtain rfl : consumed' = [] := List.map_eq_nil_iff.mp h
    rfl
  | cons items consumed ih =>
    obtain ⟨items', rest, rfl, hi, hrest⟩ := List.map_eq_cons_iff.mp h
    simp only [scan, scanItems_congr produced c hi, ih _ hrest]

/-- The check does not look at values. -/
theorem SameKeys.verify_eq {r r' : Report} (h : r.SameKeys r') : r'.verify = r.verify := by
  simp only [verify, h.1, scan_congr r.produced.toArray 0 h.2]

/-- Unless there are too many items to mark, the check accepts a report if and only if all items
that were consumed are among those produced, each of those was consumed once in all, and each
consumer got the items of any one producer in their order. What the values of the items are does
not matter. -/
theorem verify_accepts_exactly {r : Report} (hr : ∀ n ∈ r.produced, n.toNat ≤ markLimit) :
    (r.verify = .accepted ↔
      (∀ i ∈ r.consumed.flatten, ∃ n, r.produced[i.producer]? = some n ∧ i.seq < n) ∧
      (∀ (p : ℕ) (n : UInt64), r.produced[p]? = some n → ∀ seq < n,
        (r.consumed.flatten.map Item.key).count (p, seq) = 1) ∧
      ∀ items ∈ r.consumed,
        items.Pairwise fun i j => i.producer = j.producer → i.seq < j.seq) ∧
    ∀ r' : Report, r.SameKeys r' → r'.verify = r.verify := by
  refine ⟨?_, fun r' h => h.verify_eq⟩
  rw [verify_eq_accepted_iff hr, correct_iff_count]
  rfl

/-- Two consumers share the items of two producers. -/
def shared (value : ℕ) : Report :=
  ⟨[2, 1], [[⟨1, 0, value⟩, ⟨0, 1, value⟩], [⟨0, 0, value⟩]]⟩

theorem verify_accepts_shared :
    (shared 5).SameKeys (shared 7) ∧ (shared 5).verify = .accepted ∧
      (shared 7).verify = .accepted := by
  have hroom : ∀ n ∈ (shared 5).produced, n.toNat ≤ markLimit := by simp [shared, markLimit]
  have hsame : (shared 5).SameKeys (shared 7) := ⟨rfl, rfl⟩
  obtain ⟨hiff, hvalues⟩ := verify_accepts_exactly hroom
  have haccepted : (shared 5).verify = .accepted := by
    refine hiff.mpr ⟨by simp [shared], fun p n hn seq hlt => ?_, by decide⟩
    rw [UInt64.lt_iff_toNat_lt] at hlt
    match p, hn with
    | 0, hn =>
      obtain rfl : 2 = n := Option.some.inj hn
      obtain rfl | rfl : seq = 0 ∨ seq = 1 := by
        rw [← UInt64.toNat_inj, ← UInt64.toNat_inj]
        simp only [UInt64.reduceToNat] at hlt ⊢
        omega
      · decide
      · decide
    | 1, hn =>
      obtain rfl : 1 = n := Option.some.inj hn
      obtain rfl : seq = 0 := by
        rw [← UInt64.toNat_inj]
        simp only [UInt64.reduceToNat] at hlt ⊢
        omega
      decide
  exact ⟨hsame, haccepted, (hvalues _ hsame).trans haccepted⟩

end Report

end QueueRace
