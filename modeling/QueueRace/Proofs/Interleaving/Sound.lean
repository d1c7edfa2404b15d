import QueueRace.Proofs.Interleaving.Turn

/-! The invariant of a queue under every interleaving. It says that the chain lies in a layout,
what each thread knows of this layout, and that a node which is not linked yet, or whose value is
about to be taken, has one owner. Every turn keeps it, and the event that the turn shows says how
the layout grows. -/

namespace QueueRace

variable {α : Type}

/-- The effect of what a move showed. -/
def Event.effect : Event α → Effect
  | .stepped e => e
  | _ => .none

namespace Thread

/-- The node that is this thread's alone: one that it has not linked yet, or one whose value it is
about to take. -/
def own? : Thread α → Option Addr
  | .enqueuing ⟨new, p⟩ => if p.linked then none else some new
  | .dequeuing (.take a) => some a
  | _ => none

/-- What a thread knows. -/
def Sound (c : Chain α) (y : Layout) : Thread α → Prop
  | .enqueuing ⟨new, p⟩ => p.Sound y new ∧ (p.linked = false → c.Fresh y new)
  | .dequeuing p => p.Sound y ∧ ∀ a, p = .take a → (c.value a).isSome
  | .testing p => p.Sound y
  | _ => True

theorem own?_dequeuing_eq_none {p : Dequeue.Phase α} (h : ∀ a, p ≠ .take a) :
    (Thread.dequeuing p).own? = none := by
  cases p with
  | take a => exact absurd rfl (h a)
  | _ => rfl

variable {c : Chain α} {y : Layout} {th : Thread α}

/-- An owned node holds a value, and it is not behind `head`. -/
theorem Sound.own (h : th.Sound c y) {a : Addr} (ha : th.own? = some a) (hc : c.Fits y) :
    a < c.nodes.size ∧ (a ∈ y.order → ∃ i ≤ y.head, y.order[i]? = some a) := by
  cases th with
  | enqueuing q =>
    obtain ⟨new, p⟩ := q
    obtain ⟨-, hf⟩ := h
    cases hp : p.linked with
    | true => simp [own?, hp] at ha
    | false =>
      obtain rfl : new = a := by simpa [own?, hp] using ha
      exact ⟨(hf hp).inside, fun hm => absurd hm (hf hp).outside⟩
  | dequeuing p =>
    cases p with
    | take b =>
      obtain rfl : b = a := by simpa [own?] using ha
      obtain ⟨i, hi, hb⟩ := h.1
      exact ⟨hc.getElem?_lt hb, fun _ => ⟨i, hi, hb⟩⟩
    | _ => simp [own?] at ha
  | _ => simp [own?] at ha

/-- What a thread knows stays true as long as nobody touches the node it owns. -/
theorem Sound.frame (h : th.Sound c y) {c' : Chain α} {z : Layout} (g : y.Grows z)
    (hs : c.nodes.size ≤ c'.nodes.size)
    (hv : ∀ {a}, th.own? = some a → c'.value a = c.value a)
    (ho : ∀ {a}, th.own? = some a → a ∈ z.order → a ∈ y.order) : th.Sound c' z := by
  cases th with
  | idle => trivial
  | abandoned => trivial
  | enqueuing q =>
    obtain ⟨new, p⟩ := q
    refine ⟨h.1.grows g, fun hp => ?_⟩
    have hown : (Thread.enqueuing ⟨new, p⟩ : Thread α).own? = some new := by simp [own?, hp]
    obtain ⟨h1, h2, h3⟩ := h.2 hp
    exact ⟨fun hm => h1 (ho hown hm), h2.trans_le hs, by rwa [hv hown]⟩
  | dequeuing p =>
    refine ⟨h.1.grows g, ?_⟩
    rintro a rfl
    rw [hv rfl]
    exact h.2 a rfl
  | testing p => exact IsEmpty.Phase.Sound.grows g h

end Thread

/-! ### One turn -/

/-- What a turn keeps, and what it leaves alone. -/
structure Turn.Kept (c : Chain α) (y : Layout) (th : Thread α) (e : Event α) (c' : Chain α)
    (th' : Thread α) : Prop where
  fits : c'.Fits (y.after e.effect)
  sound : th'.Sound c' (y.after e.effect)
  size_le : c.nodes.size ≤ c'.nodes.size
  value_eq : ∀ {a}, a < c.nodes.size → th.own? ≠ some a → c'.value a = c.value a
  order : ∀ {a}, a ∈ (y.after e.effect).order → a ∈ y.order ∨ th.own? = some a
  own : ∀ {a}, th'.own? = some a →
    th.own? = some a ∨ a = c.nodes.size ∨ y.order[y.head + 1]? = some a

section
variable {c c' : Chain α} {y : Layout} {th th' : Thread α} {e : Event α}

theorem Turn.Kept.of_quiet (hc : c.Fits y) (he : e.effect = .none) (hs : th'.Sound c y)
    (ho : th'.own? = none) : Turn.Kept c y th e c th' where
  fits := by rw [he]; exact hc
  sound := by rw [he]; exact hs
  size_le := le_rfl
  value_eq _ _ := rfl
  order ha := by rw [he] at ha; exact .inl ha
  own ha := by rw [ho] at ha; cases ha

theorem Turn.kept_enqueuing (hc : c.Fits y) {new : Addr} {p : Enqueue.Phase}
    (hs : (Thread.enqueuing ⟨new, p⟩).Sound c y) :
    Turn.Kept c y (.enqueuing ⟨new, p⟩) (.stepped (Enqueue.step new c p).2.2)
      (Enqueue.step new c p).1 (.enqueuing ⟨new, (Enqueue.step new c p).2.1⟩) := by
  have ho := Enqueue.step_outcome hc hs.1 hs.2
  generalize Enqueue.step new c p = r at ho
  obtain ⟨c', p', e⟩ := r
  obtain ⟨h1, h2, h3, h4, h5⟩ := ho
  simp only at h1 h2 h3 h4 h5
  rcases h5 with ⟨a, rfl, rfl, rfl⟩ | ⟨hl, he⟩
  · -- the node is linked, and is not the thread's alone any more
    refine ⟨h1, ⟨h2, nofun⟩, h4.ge, fun _ _ => by rw [h3], fun ha => ?_, nofun⟩
    simpa [Event.effect, Layout.after, Thread.own?, Enqueue.Phase.linked, eq_comm] using ha
  · have hy : (y.after e).order = y.order := by
      rcases he with rfl | ⟨b, rfl⟩ <;> rfl
    refine ⟨h1, ⟨h2, fun hp => ?_⟩, h4.ge, fun _ _ => by rw [h3], fun ha => ?_, fun ha => ?_⟩
    · obtain ⟨f1, f2, f3⟩ := hs.2 (hl ▸ hp)
      exact ⟨by rwa [Event.effect, hy], by rwa [h4], by rwa [h3]⟩
    · rw [Event.effect, hy] at ha
      exact .inl ha
    · exact .inl (by simpa [Thread.own?, hl] using ha)

theorem Turn.kept_dequeuing (hc : c.Fits y) {p : Dequeue.Phase α}
    (hs : (Thread.dequeuing p).Sound c y) :
    Turn.Kept c y (.dequeuing p) (.stepped (Dequeue.step c p).2.2) (Dequeue.step c p).1
      (.dequeuing (Dequeue.step c p).2.1) := by
  have ho := Dequeue.step_outcome hc hs.1
  generalize Dequeue.step c p = r at ho
  obtain ⟨c', p', e⟩ := r
  obtain ⟨h1, h2, h3, h4⟩ := ho
  simp only at h1 h2 h3 h4
  have hy : (y.after e).order = y.order := by
    rcases h4 with ⟨a, -, -, -, rfl⟩ | ⟨-, -, ⟨b, -, -, rfl⟩ | ⟨-, rfl | ⟨b, rfl⟩⟩⟩ <;> rfl
  have horder : ∀ {a}, a ∈ (y.after e).order → a ∈ y.order ∨ (Thread.dequeuing p).own? = some a := by
    intro a ha
    rw [hy] at ha
    exact .inl ha
  rcases h4 with ⟨a, rfl, rfl, rfl, rfl⟩ | ⟨hv, hp, h4⟩
  · refine ⟨h1, ⟨h2, nofun⟩, h3.ge, fun _ hb => ?_, horder, nofun⟩
    rw [Chain.value_take, if_neg (fun hab => hb (by simp [Thread.own?, hab]))]
  · have hval : ∀ {a}, a < c.nodes.size → (Thread.dequeuing p).own? ≠ some a → c'.value a = c.value a :=
      fun _ _ => by rw [hv]
    rcases h4 with ⟨b, rfl, hb, rfl⟩ | ⟨hp', -⟩
    · refine ⟨h1, ⟨h2, ?_⟩, h3.ge, hval, horder, ?_⟩
      · rintro a ⟨⟩
        rw [hv]
        exact hc.filled (Nat.lt_succ_self _) hb
      · rintro a ⟨⟩
        exact .inr (.inr hb)
    · refine ⟨h1, ⟨h2, fun a ha => absurd ha (hp' a)⟩, h3.ge, hval, horder, fun ha => ?_⟩
      rw [Thread.own?_dequeuing_eq_none hp'] at ha
      cases ha

theorem Turn.kept (ht : Turn c th e c' th') (hc : c.Fits y) (hs : th.Sound c y) :
    Turn.Kept c y th e c' th' := by
  cases ht with
  | enqueue v =>
    refine ⟨hc.alloc v, ⟨trivial, fun _ => hc.fresh_alloc v⟩, ?_, fun ha _ => ?_, .inl, ?_⟩
    · rw [Chain.size_alloc]
      exact Nat.le_succ _
    · rw [Chain.value_alloc, if_neg (Nat.ne_of_lt ha)]
    · rintro a ⟨⟩
      exact .inr (.inl rfl)
  | dequeue => exact .of_quiet hc rfl ⟨trivial, nofun⟩ rfl
  | isEmpty => exact .of_quiet hc rfl trivial rfl
  | enqueuing hp => exact kept_enqueuing hc hs
  | dequeuing hp => exact kept_dequeuing hc hs
  | testing hp => exact .of_quiet hc rfl (IsEmpty.step_sound hc) rfl
  | enqueued new => exact .of_quiet hc rfl trivial rfl
  | dequeued v => exact .of_quiet hc rfl trivial rfl
  | tested b => exact .of_quiet hc rfl trivial rfl
  | abandon new tail => exact .of_quiet hc rfl trivial rfl

end

/-! ### All threads -/

namespace World

structure Sound (w : World α) (y : Layout) : Prop where
  fits : w.chain.Fits y
  threads : ∀ {t : ℕ} {th : Thread α}, w.threads[t]? = some th → th.Sound w.chain y
  apart : ∀ {t u : ℕ} {th th' : Thread α} {a : Addr}, w.threads[t]? = some th →
    w.threads[u]? = some th' → th.own? = some a → th'.own? = some a → t = u

theorem start_idle {n t : ℕ} {th : Thread α} (h : (start n : World α).threads[t]? = some th) :
    th = .idle := by
  obtain ⟨hlt, he⟩ := Array.getElem?_eq_some_iff.mp h
  rw [← he]
  simp [start]

theorem start_sound (n : ℕ) : (start n : World α).Sound .start where
  fits := Chain.empty_fits
  threads h := by rw [start_idle h]; trivial
  apart ht _ ha _ := by rw [start_idle ht] at ha; cases ha

variable {w w' : World α} {y : Layout} {t : ℕ} {m : Move α} {e : Event α} {th th' : Thread α}

theorem getElem?_of_set (hw : w'.threads = w.threads.setIfInBounds t th')
    (hth : w.threads[t]? = some th) (u : ℕ) :
    w'.threads[u]? = if t = u then some th' else w.threads[u]? := by
  have ht : t < w.threads.size := (Array.getElem?_eq_some_iff.mp hth).1
  rw [hw, Array.getElem?_setIfInBounds, if_pos ht]

/-- The node that a thread has come to own is nobody else's. -/
theorem Sound.own_new (h : w.Sound y) (hk : Turn.Kept w.chain y th e w'.chain th')
    (hth : w.threads[t]? = some th) {u : ℕ} {thu : Thread α} {a : Addr}
    (hu : w.threads[u]? = some thu) (ha : th'.own? = some a) (hau : thu.own? = some a) : t = u := by
  obtain ⟨hs, hord⟩ := (h.threads hu).own hau h.fits
  rcases hk.own ha with h1 | rfl | h1
  · exact h.apart hth hu h1 hau
  · exact absurd hs (Nat.lt_irrefl _)
  · obtain ⟨i, hi, hb⟩ := hord (List.mem_of_getElem? h1)
    have := h.fits.index_eq hb h1
    omega

theorem Sound.turn (h : w.Sound y) (hth : w.threads[t]? = some th)
    (ht : Turn w.chain th e w'.chain th') (hw : w'.threads = w.threads.setIfInBounds t th') :
    w'.Sound (y.after e.effect) := by
  have hk := ht.kept h.fits (h.threads hth)
  have hget := getElem?_of_set hw hth
  refine ⟨hk.fits, ?_, ?_⟩
  · intro u thu hu
    rw [hget] at hu
    split at hu
    · obtain rfl := Option.some.inj hu
      exact hk.sound
    · rename_i hne
      -- another thread: what it owns is not owned by `t`
      have hother : ∀ {a}, thu.own? = some a → th.own? ≠ some a :=
        fun hau ha => hne (h.apart hth hu ha hau)
      refine (h.threads hu).frame (y.grows_after _) hk.size_le (fun ha => ?_) (fun ha hm => ?_)
      · exact hk.value_eq ((h.threads hu).own ha h.fits).1 (hother ha)
      · exact (hk.order hm).resolve_right (hother ha)
  · intro u v thu thv a hu hv hau hav
    rw [hget] at hu hv
    split at hu <;> split at hv
    · subst t
      assumption
    · obtain rfl := Option.some.inj hu
      subst t
      exact h.own_new hk hth hv hau hav
    · obtain rfl := Option.some.inj hv
      subst t
      exact (h.own_new hk hth hu hav hau).symm
    · exact h.apart hu hv hau hav

end World

end QueueRace
