import QueueRace.Proofs.Chain.Alone

/-! How far `tail` lags when operations run one at a time. A lag comes from an enqueuer that has
linked its node and makes its last step late or never, and it is one link at most. The next enqueue
takes it away, a dequeue only where `head` would pass `tail`. -/

namespace QueueRace

variable {α : Type}

namespace Chain

variable {c c' c'' : Chain α}

theorem Sound.lag_le (h : c.Sound) : c.lag ≤ 1 ∧ c.lag ≤ c.length := by
  obtain ⟨y, hy⟩ := h
  have hle := hy.length_le
  have hht := hy.head_le_tail
  rw [hy.lag_eq, hy.length_eq]
  omega

theorem Sound.lag_eq_zero_iff (h : c.Sound) : c.lag = 0 ↔ c.next c.tail = none := by
  obtain ⟨y, hy⟩ := h
  have hlt := hy.tail_lt
  rw [hy.next_eq_none_iff hy.tail_eq, hy.lag_eq]
  omega

/-! ### One operation -/

theorem Sound.enqueue_lag (h : c.Sound) (v : α) :
    (c.enqueue v).length = c.length + 1 ∧ (c.enqueue v).lag = 0 := by
  obtain ⟨y, hy⟩ := h
  obtain ⟨hfits, -⟩ := hy.enqueue v
  have hlt := hy.head_lt
  rw [hfits.length_eq, hfits.lag_eq, hy.length_eq]
  simp only [Layout.enqueued, List.length_append, List.length_singleton]
  omega

theorem Sound.link_lag (h : c.Sound) (v : α) :
    (c.link v).1.length = c.length + 1 ∧ (c.link v).1.lag = 1 := by
  obtain ⟨y, hy⟩ := h
  obtain ⟨hfits, -⟩ := hy.link v
  have hlt := hy.head_lt
  rw [hfits.length_eq, hfits.lag_eq, hy.length_eq]
  simp only [Layout.linked, List.length_append, List.length_singleton]
  omega

theorem Sound.dequeue_of_length_eq_zero (h : c.Sound) (hn : c.length = 0) :
    c.dequeue = (c, .done none) := by
  obtain ⟨y, hy⟩ := h
  rw [hy.length_eq] at hn
  cases hy.front with
  | nothing hnext ht _ => exact finish_none hnext ht 7
  | lagging hb | apart hb =>
    have := (List.getElem?_eq_some_iff.mp hb).1
    omega

/-- The only item goes, and if `tail` lags behind it, it is moved first. -/
theorem Sound.dequeue_lag_of_length_eq_one (h : c.Sound) (hn : c.length = 1) :
    c.dequeue.1.length = 0 ∧ c.dequeue.1.lag = 0 := by
  obtain ⟨y, hy⟩ := h
  rw [hy.length_eq] at hn
  have hfits := hy.dequeue.1
  rw [Layout.dequeued, if_pos (by omega)] at hfits
  rw [hfits.length_eq, hfits.lag_eq]
  dsimp only
  omega

/-- Any other dequeue leaves `tail` where it is. -/
theorem Sound.dequeue_lag (h : c.Sound) (hn : c.length ≠ 0) (hl : ¬(c.length = 1 ∧ c.lag = 1)) :
    c.dequeue.1.length = c.length - 1 ∧ c.dequeue.1.lag = c.lag ∧ c.dequeue.1.tail = c.tail := by
  obtain ⟨y, hy⟩ := h
  have hle := hy.length_le
  have hht := hy.head_le_tail
  rw [hy.length_eq] at hn hl
  rw [hy.lag_eq] at hl
  have hfits := hy.dequeue.1
  rw [Layout.dequeued, if_pos (by omega), max_eq_left (by omega)] at hfits
  refine ⟨?_, ?_, Option.some.inj (hfits.tail_eq.symm.trans hy.tail_eq)⟩
  · rw [hfits.length_eq, hy.length_eq]
    dsimp only
    omega
  · rw [hfits.lag_eq, hy.lag_eq]

/-! ### The last step of a suspended enqueuer -/

/-- Nobody has moved `tail` in the meantime, so the node of the enqueuer is still the last. -/
theorem Sound.settle_lag (h : c.Sound) {v : α} (g : (c.link v).1.Grew c')
    (ht : c'.tail = (c.link v).1.tail) :
    c'.lag = 1 ∧ (c'.settle (c.link v).2).length = c'.length ∧ (c'.settle (c.link v).2).lag = 0 := by
  obtain ⟨y, hy⟩ := h
  obtain ⟨hfits, he, -⟩ := hy.link v
  obtain ⟨x, hx, gx⟩ := g hfits
  obtain ⟨i, hi, ha, hb⟩ := (hy.link_swing v).grows gx
  obtain rfl : i = x.tail := hx.index_eq ha (ht ▸ hx.tail_eq)
  have hlt := (List.getElem?_eq_some_iff.mp hb).1
  have hle := hx.length_le
  have hm := hx.moveTail hb
  have hsettle : c'.settle (c.link v).2 = { c' with tail := c.nodes.size } := by
    rw [he, settle_swing, if_pos ht]
  rw [hsettle, hm.length_eq, hm.lag_eq, hx.length_eq, hx.lag_eq]
  dsimp only [Layout.after]
  omega

theorem Sound.settle_of_tail_ne (h : c.Sound) {v : α} (ht : c'.tail ≠ (c.link v).1.tail) :
    c'.settle (c.link v).2 = c' := by
  obtain ⟨y, hy⟩ := h
  rw [(hy.link v).2.1, settle_swing, if_neg ht]

/-- Once it is moved, `tail` never comes back. -/
theorem Sound.tail_eq_of_grew (h : c.Sound) (g : c.Grew c') (g' : c'.Grew c'')
    (ht : c''.tail = c.tail) : c'.tail = c.tail := by
  obtain ⟨y, hy⟩ := h
  obtain ⟨z, hz, gz⟩ := g hy
  obtain ⟨x, hx, gx⟩ := g' hz
  have hback : y.tail = x.tail :=
    hx.index_eq ((gz.trans gx).getElem? hy.tail_eq) (ht ▸ hx.tail_eq)
  have hstay : y.tail = z.tail := Nat.le_antisymm gz.tail (hback ▸ gx.tail)
  exact Option.some.inj (hz.tail_eq.symm.trans (hstay ▸ gz.getElem? hy.tail_eq))

/-! ### Where a lag can come from -/

/-- A lag there is now was there before, of the same `tail`. -/
def Tidies (c c' : Chain α) : Prop := c'.lag = 0 ∨ c'.tail = c.tail ∧ c'.lag = c.lag

theorem Tidies.refl (c : Chain α) : c.Tidies c := .inr ⟨rfl, rfl⟩

theorem Tidies.trans (h : c.Tidies c') (h' : c'.Tidies c'') : c.Tidies c'' := by
  rcases h' with h' | ⟨ht', hl'⟩
  · exact .inl h'
  · rcases h with h | ⟨ht, hl⟩
    · exact .inl (hl'.trans h)
    · exact .inr ⟨ht'.trans ht, hl'.trans hl⟩

theorem Sound.tidies_enqueue (h : c.Sound) (v : α) : c.Tidies (c.enqueue v) :=
  .inl (h.enqueue_lag v).2

theorem Sound.tidies_dequeue (h : c.Sound) : c.Tidies c.dequeue.1 := by
  by_cases hn : c.length = 0
  · rw [h.dequeue_of_length_eq_zero hn]
    exact .refl c
  by_cases hl : c.length = 1 ∧ c.lag = 1
  · exact .inl (h.dequeue_lag_of_length_eq_one hl.1).2
  · obtain ⟨-, hlag, htail⟩ := h.dequeue_lag hn hl
    exact .inr ⟨htail, hlag⟩

theorem Sound.tidies_extend (h : c.Sound) (vs : List α) : c.Tidies (c.extend vs) := by
  induction vs generalizing c with
  | nil => exact .refl c
  | cons v vs ih => exact (h.tidies_enqueue v).trans (ih (h.grew (h.enqueue v).1))

theorem Sound.tidies_takeUpTo (h : c.Sound) (n : ℕ) : c.Tidies (c.takeUpTo n).1 := by
  induction n generalizing c with
  | zero => exact .refl c
  | succ n ih =>
    have htidy := h.tidies_dequeue
    have hd := h.grew h.dequeue.1
    rw [Chain.takeUpTo]
    generalize c.dequeue = r at htidy hd
    obtain ⟨d, phase⟩ := r
    cases phase with
    | done answer =>
      cases answer with
      | none => exact htidy
      | some v => exact htidy.trans (ih hd)
    | _ => exact htidy

theorem Sound.tidies_pour {b : Chain α} (h : c.Sound) (hb : b.Sound) (n : ℕ) :
    c.Tidies (c.pour b n).1 ∧ b.Tidies (c.pour b n).2 := by
  rw [pour_eq]
  exact ⟨h.tidies_takeUpTo n, hb.tidies_extend _⟩

theorem Sound.tidies_rotate (h : c.Sound) (n : ℕ) : c.Tidies (c.rotate n) := by
  induction n generalizing c with
  | zero => exact .refl c
  | succ n ih =>
    have htidy := h.tidies_dequeue
    have hd := h.grew h.dequeue.1
    rw [Chain.rotate]
    generalize c.dequeue = r at htidy hd
    obtain ⟨d, phase⟩ := r
    cases phase with
    | done answer =>
      cases answer with
      | none => exact htidy
      | some v => exact htidy.trans ((hd.tidies_enqueue v).trans (ih (hd.grew (hd.enqueue v).1)))
    | _ => exact htidy

/-- The last step of an enqueuer leaves no lag, unless one was left by others. -/
theorem Sound.settle_tidies (h : c.Sound) {v : α} (g : (c.link v).1.Grew c')
    (ht : (c.link v).1.Tidies c') : (c'.settle (c.link v).2).lag = 0 := by
  by_cases hmoved : c'.tail = (c.link v).1.tail
  · exact (h.settle_lag g hmoved).2.2
  · rw [h.settle_of_tail_ne hmoved]
    exact ht.resolve_right fun hr => hmoved hr.1

end Chain

end QueueRace
