import QueueRace.Proofs.Interleaving.Sound

/-! The shape of the queue under every interleaving. The nodes form one chain that only grows at
its end, `head` and `tail` move forward on it one link at a time and never cross, and `tail` is at
the last node or right before it. In the latter case the enqueuer of the last node has not made
its last step yet, or has been abandoned before it. -/

namespace QueueRace

namespace World

variable {α : Type} {w w' : World α} {past : List (ℕ × Event α)} {y : Layout} {t : ℕ} {m : Move α}
  {e : Event α} {th th' : Thread α}

/-- Every enqueuer whose node is in the chain has shown that it linked it. -/
def Linkers (w : World α) (past : List (ℕ × Event α)) : Prop :=
  ∀ ⦃t : ℕ⦄ ⦃new : Addr⦄ ⦃p : Enqueue.Phase⦄, w.threads[t]? = some (.enqueuing ⟨new, p⟩) →
    p.linked = true → (t, .stepped (.linked new)) ∈ past

/-- Thread `t` has linked `new` but not moved `tail` over it: it is before this step, or it was
abandoned before it. -/
def Owes (w : World α) (past : List (ℕ × Event α)) (t : ℕ) (new : Addr) : Prop :=
  (t, .stepped (.linked new)) ∈ past ∧
    ((∃ tail, w.threads[t]? = some (.enqueuing ⟨new, .swing tail⟩)) ∨
      w.threads[t]? = some .abandoned)

/-- A lagging `tail` is somebody's debt. -/
def Excused (w : World α) (past : List (ℕ × Event α)) (y : Layout) : Prop :=
  ∀ ⦃new : Addr⦄, y.order[y.tail + 1]? = some new → ∃ t, w.Owes past t new

theorem Linkers.turn (h : w.Linkers past) (hs : w.Sound y)
    (hth : w.threads[t]? = some th) (ht : Turn w.chain th e w'.chain th')
    (hw : w'.threads = w.threads.setIfInBounds t th') : w'.Linkers (past ++ [(t, e)]) := by
  intro u new p hu hp
  rw [getElem?_of_set hw hth] at hu
  split at hu
  · subst t
    obtain rfl := Option.some.inj hu
    generalize hc : w'.chain = c' at ht
    generalize hx : Thread.enqueuing (⟨new, p⟩ : Enqueuer) = x at ht
    cases ht with
    | enqueue v => cases hx; cases hp
    | @enqueuing new' p' hp' =>
      cases hx
      have hth' := hs.threads hth
      rcases (Enqueue.step_outcome hs.fits hth'.1 hth'.2).effect with ⟨-, -, -, he⟩ | ⟨hl, -⟩
      · simp [he]
      · exact List.mem_append_left _ (h hth (hl ▸ hp))
    | _ => cases hx
  · exact List.mem_append_left _ (h hu hp)

theorem Owes.turn {u : ℕ} {new : Addr} (h : w.Owes past u new)
    (hs : w.Sound y) (hn : y.order[y.tail + 1]? = some new) (he : (y.after e.effect).tail = y.tail)
    (hth : w.threads[t]? = some th) (ht : Turn w.chain th e w'.chain th')
    (hw : w'.threads = w.threads.setIfInBounds t th') : w'.Owes (past ++ [(t, e)]) u new := by
  obtain ⟨hm, hu⟩ := h
  refine ⟨List.mem_append_left _ hm, ?_⟩
  simp only [getElem?_of_set hw hth]
  split
  · subst t
    rcases hu with ⟨tail, hu⟩ | hu
    · obtain rfl := Option.some.inj (hth.symm.trans hu)
      generalize w'.chain = c' at ht
      cases ht with
      | enqueuing hp =>
        -- its last step would move `tail`
        have := Enqueue.step_swing_of_lag hs.fits (hs.threads hth).1 hn
        simp [this, Event.effect, Layout.after] at he
      | abandon => exact .inr rfl
    · obtain rfl := Option.some.inj (hth.symm.trans hu)
      cases ht
  · exact hu

theorem Excused.turn (h : w.Excused past y) (hs : w.Sound y)
    (hth : w.threads[t]? = some th) (ht : Turn w.chain th e w'.chain th')
    (hw : w'.threads = w.threads.setIfInBounds t th') :
    w'.Excused (past ++ [(t, e)]) (y.after e.effect) := by
  have hk := ht.kept hs.fits (hs.threads hth)
  intro new hn
  cases he : e.effect with
  | none =>
    rw [he] at hn
    obtain ⟨u, hu⟩ := h hn
    exact ⟨u, hu.turn hs hn (by rw [he]; rfl) hth ht hw⟩
  | movedHead retired target =>
    rw [he] at hn
    obtain ⟨u, hu⟩ := h hn
    exact ⟨u, hu.turn hs hn (by rw [he]; rfl) hth ht hw⟩
  | movedTail target =>
    -- `tail` is now at the last node
    have hl := hs.fits.length_le
    rw [he] at hn
    have := (List.getElem?_eq_some_iff.mp hn).1
    simp only [Layout.after] at this
    omega
  | linked a =>
    refine ⟨t, ?_⟩
    have hlen := hk.fits.length_le
    have hlt := hs.fits.tail_lt
    rw [he] at hn hlen
    simp only [Layout.after, List.length_append, List.length_singleton] at hn hlen
    obtain rfl : a = new := by
      have : y.tail + 1 = y.order.length := by omega
      simpa [this] using hn
    generalize hc : w'.chain = c' at ht
    cases ht with
    | @enqueuing new' p hp =>
      have hth' := hs.threads hth
      rcases (Enqueue.step_outcome hs.fits hth'.1 hth'.2).effect with ⟨b, -, hp', he'⟩ | ⟨-, he' | ⟨b, he'⟩⟩
      · simp only [Event.effect, he', Effect.linked.injEq] at he
        subst he
        refine ⟨by simp [he'], .inl ⟨b, ?_⟩⟩
        rw [getElem?_of_set hw hth, if_pos rfl, hp']
      · simp [Event.effect, he'] at he
      · simp [Event.effect, he'] at he
    | @dequeuing p hp =>
      rcases (Dequeue.step_outcome hs.fits (hs.threads hth).1).effect with
        ⟨b, -, -, -, he'⟩ | ⟨-, -, ⟨b, -, -, he'⟩ | ⟨-, he' | ⟨b, he'⟩⟩⟩ <;>
      simp [Event.effect, he'] at he
    | _ => cases he

/-! ### Runs -/

/-- The shape of the queue after the events `past`. -/
structure Shape (w : World α) (past : List (ℕ × Event α)) (y : Layout) : Prop where
  chain : w.chain.Fits y
  /-- `tail` is at the last node, or right before it while its enqueuer owes the last step. -/
  lag : y.tail + 1 = y.order.length ∨
    y.tail + 2 = y.order.length ∧ ∃ t last, y.order[y.tail + 1]? = some last ∧ w.Owes past t last
  /-- When an enqueue returns, `tail` is at its node or at a later one. -/
  returns : ∀ {t : ℕ} {w' : World α}, w.move t .step = (w', some (.answered .enqueued)) →
    w'.chain = w.chain ∧ ∃ new, (t, .stepped (.linked new)) ∈ past ∧
      w.threads[t]? = some (.enqueuing ⟨new, .done⟩) ∧ ∃ i ≤ y.tail, y.order[i]? = some new
  /-- A dequeuer that has seen `head` and `tail` apart has then seen a successor of `head`. -/
  successor : ∀ {t : ℕ} {head tail : Addr} {next : Option Addr},
    w.threads[t]? = some (.dequeuing (.recheck head tail next)) → head ≠ tail → next ≠ none

structure Held (w : World α) (past : List (ℕ × Event α)) (y : Layout) : Prop where
  sound : w.Sound y
  linkers : w.Linkers past
  excused : w.Excused past y

theorem start_held (n : ℕ) : (start n : World α).Held [] .start where
  sound := start_sound n
  linkers _ _ _ h := by cases start_idle h
  excused _ h := by cases h

theorem Held.move (h : w.Held past y) (hm : w.move t m = (w', some e)) :
    w'.Held (past ++ [(t, e)]) (y.after e.effect) := by
  obtain ⟨th, th', hth, ht, hw⟩ := move_turn hm
  exact ⟨h.sound.turn hth ht hw, h.linkers.turn h.sound hth ht hw, h.excused.turn h.sound hth ht hw⟩

/-- The layout that the events of a run have built up. -/
def layoutAfter (events : List (ℕ × Event α)) : Layout :=
  events.foldl (fun y e => y.after e.2.effect) .start

@[simp] theorem layoutAfter_snoc (events : List (ℕ × Event α)) (t : ℕ) (e : Event α) :
    layoutAfter (events ++ [(t, e)]) = (layoutAfter events).after e.effect := by
  rw [layoutAfter, List.foldl_append]
  rfl

theorem run_held {n : ℕ} {moves : List (ℕ × Move α)} {events : List (ℕ × Event α)}
    (h : (start n).run moves = some (w, events)) : w.Held events (layoutAfter events) := by
  have hstep : ∀ {w : World α} {past t m w' e}, w.Held past (layoutAfter past) →
      w.move t m = (w', some e) → w'.Held (past ++ [(t, e)]) (layoutAfter (past ++ [(t, e)])) := by
    intro w past t m w' e hw hm
    rw [layoutAfter_snoc]
    exact hw.move hm
  exact run_induction (P := fun w past => w.Held past (layoutAfter past)) hstep moves (start_held n) h

theorem Held.shape (h : w.Held past y) : w.Shape past y where
  chain := h.sound.fits
  lag := by
    have h1 := h.sound.fits.tail_lt
    have h2 := h.sound.fits.length_le
    by_cases hl : y.tail + 1 = y.order.length
    · exact .inl hl
    · obtain ⟨last, hn⟩ : ∃ last, y.order[y.tail + 1]? = some last :=
        ⟨_, List.getElem?_eq_getElem (by omega)⟩
      obtain ⟨t, ht⟩ := h.excused hn
      exact .inr ⟨by omega, t, last, hn, ht⟩
  returns := by
    intro t w' hm
    obtain ⟨th, th', hth, ht, -⟩ := move_turn hm
    generalize w'.chain = c' at ht ⊢
    cases ht with
    | enqueued new => exact ⟨rfl, new, h.linkers hth rfl, hth, (h.sound.threads hth).1⟩
  successor := by
    intro t head tail next hth hne hn
    obtain ⟨i, j, -, -, -, -, -, -, he⟩ := (h.sound.threads hth).1
    exact hne (he hn)

/-- After every run the queue is in shape, in the layout that the events of the run have built up,
and whatever move comes next keeps it so and takes its layout at most one link further. -/
theorem run_shape {n : ℕ} {moves : List (ℕ × Move α)} {events : List (ℕ × Event α)}
    (h : (start n).run moves = some (w, events)) :
    w.Shape events (layoutAfter events) ∧
      ∀ {t m w' e}, w.move t m = (w', some e) →
        w'.Shape (events ++ [(t, e)]) (layoutAfter (events ++ [(t, e)])) ∧
          (layoutAfter events).Advances (layoutAfter (events ++ [(t, e)])) := by
  have hw := run_held h
  refine ⟨hw.shape, fun hm => ?_⟩
  rw [layoutAfter_snoc]
  exact ⟨(hw.move hm).shape, Layout.advances_after _ _⟩

/-- A thread links its node and is abandoned before it moves `tail`. -/
theorem run_shape_abandoned :
    ∃ (w : World ℕ) (events : List (ℕ × Event ℕ)),
      (start 2).run ((0, .call (.enqueue 7)) :: List.replicate 4 (0, .step) ++
        [(0, .abandon), (1, .call .dequeue), (1, .step)]) = some (w, events) ∧
      w.chain.lag = 1 ∧ layoutAfter events = ⟨[0, 1], 0, 0⟩ ∧ w.Shape events ⟨[0, 1], 0, 0⟩ := by
  obtain ⟨hs, -⟩ := @run_shape ℕ _ 2
    ((0, .call (.enqueue 7)) :: List.replicate 4 (0, .step) ++
      [(0, .abandon), (1, .call .dequeue), (1, .step)]) _ rfl
  exact ⟨_, _, rfl, rfl, rfl, hs⟩

end World

end QueueRace
