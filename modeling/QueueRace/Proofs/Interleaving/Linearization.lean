import QueueRace.Proofs.Interleaving.Desk
import QueueRace.Proofs.Interleaving.Sound

/-! Every interleaving of the queue operations is a legal history of a list that serves one call at
a time. An enqueue is served when its node is linked, and a dequeue that finds an item is served
when `head` is moved over it. A dequeue that finds none, and a test for emptiness, are served in
hindsight: the thread carries with it that it could have been told so at some moment of its call,
and the look is added to the history once the answer is certain. -/

namespace QueueRace

variable {α : Type}

open Desk (Could Amends)

/-! ### Threads and clients -/

/-- Where the caller of a dequeue stands. When it saw that nothing follows the node that it took
for `head`, the queue was empty. -/
def Dequeue.Phase.Agrees (c : Chain α) (could : Answer α → Prop) (s : Client α) : Phase α → Prop
  | .recheck _ _ next => s = .waiting .dequeue ∧ (next = none → could (.dequeued none))
  | .take a => ∃ v, c.value a = some v ∧ s = .served (.dequeued (some v))
  | .done answer => s = .served (.dequeued answer)
  | .readHead | .readTail _ | .readNext _ _ | .help _ _ | .unlink _ _ => s = .waiting .dequeue

/-- Where the caller of a test for emptiness stands. If its `head` is not the last node any more,
there was an item at the moment when it ceased to be. -/
def IsEmpty.Phase.Agrees (y : Layout) (could : Answer α → Prop) (s : Client α) : IsEmpty.Phase → Prop
  | .readHead => s = .waiting .isEmpty
  | .readNext head => s = .waiting .isEmpty ∧ (y.order.getLast? = some head ∨ could (.isEmpty false))
  | .done answer => s = .served (.isEmpty answer)

def Thread.Agrees (c : Chain α) (y : Layout) (could : Answer α → Prop) (s : Client α) :
    Thread α → Prop
  | .idle => s = .idle
  | .enqueuing ⟨new, p⟩ => (p.linked = true → s = .served .enqueued) ∧
      (p.linked = false → ∃ v, c.value new = some v ∧ s = .waiting (.enqueue v))
  | .dequeuing p => p.Agrees c could s
  | .testing p => p.Agrees y could s
  | .abandoned => s = .gone

/-- A thread agrees with its client as long as nobody touches the node it owns, and as long as a
node that has ceased to be the last one leaves it something it could have been told. -/
theorem Thread.Agrees.frame {c c' : Chain α} {y z : Layout} {could could' : Answer α → Prop}
    {s : Client α} {th : Thread α} (h : th.Agrees c y could s)
    (hv : ∀ {a}, th.own? = some a → c'.value a = c.value a) (hc : ∀ {b}, could b → could' b)
    (hl : s = .waiting .isEmpty → ∀ {a}, y.order.getLast? = some a →
      z.order.getLast? = some a ∨ could' (.isEmpty false)) : th.Agrees c' z could' s := by
  cases th with
  | idle => exact h
  | abandoned => exact h
  | enqueuing q =>
    obtain ⟨new, p⟩ := q
    refine ⟨h.1, fun hp => ?_⟩
    rw [hv (by simp [own?, hp])]
    exact h.2 hp
  | dequeuing p =>
    cases p with
    | recheck head tail next => exact ⟨h.1, fun hn => hc (h.2 hn)⟩
    | take a =>
      obtain ⟨v, ha, hs⟩ := h
      exact ⟨v, by rw [hv rfl, ha], hs⟩
    | _ => exact h
  | testing p =>
    cases p with
    | readNext head =>
      obtain ⟨hs, hh | hh⟩ := h
      · exact ⟨hs, hl hs hh⟩
      · exact ⟨hs, .inr (hc hh)⟩
    | _ => exact h

/-! ### One turn at the desk -/

/-- A turn of thread `t` that shows `e` is allowed after the history `h'`, which is `h` but for a
look of `t`. -/
structure Served (t : ℕ) (e : Event α) (c' : Chain α) (z : Layout) (th' : Thread α)
    (h h' : List (ℕ × Moment α)) : Prop where
  amends : Amends t h h'
  allows : (Desk.start.after h').Allows t (.shown e)
  items : ((Desk.start.after h').next t (.shown e)).items = c'.toList
  agrees : th'.Agrees c' z (Could (h' ++ [(t, .shown e)]) t)
    (((Desk.start.after h').next t (.shown e)).clients t)

section
variable {c c' : Chain α} {y z : Layout} {th th' : Thread α} {e : Event α} {effect : Effect} {t : ℕ}
  {h h' : List (ℕ × Moment α)}

theorem Served.quiet (ha : Amends t h h') (hi : (Desk.start.after h').items = c'.toList)
    (he : effect = .none ∨ ∃ b, effect = .movedTail b)
    (hs : th'.Agrees c' z (Could (h' ++ [(t, .shown (.stepped effect))]) t)
      ((Desk.start.after h').clients t)) : Served t (.stepped effect) c' z th' h h' := by
  rcases he with rfl | ⟨b, rfl⟩
  · exact ⟨ha, trivial, hi, hs⟩
  · exact ⟨ha, trivial, hi, hs⟩

theorem Desk.Could.quiet {a : Answer α} (hc : Could h t a) :
    Could (h ++ [(t, .shown (.stepped .none))]) t a :=
  hc.snoc (.inr (.inl rfl))

theorem Served.look {a : Answer α} (hl : Desk.start.Legal h) (hi : (Desk.start.after h).items = c.toList)
    (hc : Could h t a) (hs : ∀ could, th'.Agrees c z could (.served a)) :
    ∃ h', Served t (.stepped .none) c z th' h h' := by
  obtain ⟨h', ha, ht⟩ := hc.amends hl
  refine ⟨h', .quiet ha (by rw [ha.items, hi]) (.inl rfl) ?_⟩
  rw [ht]
  exact hs _

theorem Turn.served_enqueuing (hc : c.Fits y) {new : Addr} {p : Enqueue.Phase}
    (hs : (Thread.enqueuing ⟨new, p⟩).Sound c y) (hl : Desk.start.Legal h)
    (hi : (Desk.start.after h).items = c.toList)
    (ha : (Thread.enqueuing ⟨new, p⟩).Agrees c y (Could h t) ((Desk.start.after h).clients t)) :
    Served t (.stepped (Enqueue.step new c p).2.2) (Enqueue.step new c p).1
      (y.after (Enqueue.step new c p).2.2) (.enqueuing ⟨new, (Enqueue.step new c p).2.1⟩) h h := by
  have ho := Enqueue.step_outcome hc hs.1 hs.2
  generalize Enqueue.step new c p = r at ho
  obtain ⟨c', p', e⟩ := r
  obtain ⟨h1, h2, h3, h4, h5⟩ := ho
  simp only at h1 h2 h3 h4 h5
  rcases h5 with ⟨a, rfl, rfl, rfl⟩ | ⟨hlinked, he⟩
  · have hlist := hc.toList_after h1 h3
    obtain ⟨v, hv, hw⟩ := ha.2 rfl
    have hnext : (Desk.start.after h).next t (.shown (.stepped (.linked new))) =
        Desk.put ⟨c.toList ++ [v], (Desk.start.after h).clients⟩ t (.served .enqueued) := by
      rw [Desk.next, Desk.serve_eq hw, hi]
      rfl
    refine ⟨.refl hl t, ⟨v, hw⟩, ?_, fun _ => ?_, fun hp => absurd hp.symm Bool.false_ne_true⟩
    · rw [hnext, Desk.items_put, hlist, hv]
      rfl
    · rw [hnext, Desk.clients_put]
  · have hsame := hc.toList_quiet h1 h3 he
    refine .quiet (.refl hl t) (hi.trans hsame.symm) he ⟨fun hp => ha.1 (hlinked ▸ hp), fun hp => ?_⟩
    rw [h3]
    exact ha.2 (hlinked ▸ hp)

theorem Turn.served_dequeuing (hc : c.Fits y) {p : Dequeue.Phase α} (hp : ∀ v, p ≠ .done v)
    (hs : (Thread.dequeuing p).Sound c y) (hl : Desk.start.Legal h)
    (hi : (Desk.start.after h).items = c.toList)
    (ha : (Thread.dequeuing p).Agrees c y (Could h t) ((Desk.start.after h).clients t)) :
    ∃ h', Served t (.stepped (Dequeue.step c p).2.2) (Dequeue.step c p).1
      (y.after (Dequeue.step c p).2.2) (.dequeuing (Dequeue.step c p).2.1) h h' := by
  have ho := Dequeue.step_outcome hc hs.1
  cases p with
  | readHead => exact ⟨h, .quiet (.refl hl t) hi (.inl rfl) ha⟩
  | readTail head => exact ⟨h, .quiet (.refl hl t) hi (.inl rfl) ha⟩
  | readNext head tail =>
    refine ⟨h, .quiet (.refl hl t) hi (.inl rfl) ⟨ha, fun hn => Desk.Could.quiet ?_⟩⟩
    -- this is the moment of a dequeue that finds nothing
    obtain ⟨i, j, hih, -, -, hhead, -⟩ := hs.1
    have hlast := (hc.next_eq_none_iff hhead).mp hn
    have hlt := hc.head_lt
    have hnil : c.toList = [] := hc.toList_eq_nil_iff.mpr (by omega)
    exact Desk.Sees.could (.inr ⟨ha, hi.trans hnil, rfl⟩)
  | recheck head tail next =>
    obtain ⟨hw, hcould⟩ := ha
    obtain ⟨i, j, -, -, -, -, -, -, hend⟩ := hs.1
    simp only [Dequeue.step]
    split
    · cases next with
      | none =>
        simp only [if_pos (hend rfl)]
        exact Served.look hl hi (hcould rfl) fun _ => rfl
      | some b =>
        by_cases ht : head = tail
        · simp only [if_pos ht]
          exact ⟨h, .quiet (.refl hl t) hi (.inl rfl) hw⟩
        · simp only [if_neg ht]
          exact ⟨h, .quiet (.refl hl t) hi (.inl rfl) hw⟩
    · exact ⟨h, .quiet (.refl hl t) hi (.inl rfl) hw⟩
  | help tail next =>
    obtain ⟨h1, -, -, h4⟩ := ho
    have hphase : (Dequeue.step c (.help tail next)).2.1 = .readHead := by
      simp only [Dequeue.step]
      split <;> rfl
    obtain ⟨a, h5, -⟩ | ⟨hv, -, ⟨b, h5, -⟩ | ⟨-, he⟩⟩ := h4
    · cases h5
    · rw [hphase] at h5
      cases h5
    · have hsame := hc.toList_quiet h1 hv he
      exact ⟨h, .quiet (.refl hl t) (hi.trans hsame.symm) he (by rw [hphase]; exact ha)⟩
  | unlink head next =>
    by_cases hh : c.head = head
    · have hstep : Dequeue.step c (.unlink head next) =
          ({ c with head := next }, .take next, .movedHead head next) := by
        simp [Dequeue.step, Chain.casHead, hh]
      rw [hstep] at ho ⊢
      obtain ⟨i, -, hai, hbi⟩ := hs.1
      obtain ⟨a, v, hpos, hv, hlist⟩ := hc.toList_after ho.fits rfl
      obtain rfl : i = y.head := hc.index_eq (hh ▸ hai) hc.head_eq
      obtain rfl : next = a := Option.some.inj (hbi.symm.trans hpos)
      have hw : (Desk.start.after h).clients t = .waiting .dequeue := ha
      have hnext : (Desk.start.after h).next t (.shown (.stepped (.movedHead head next))) =
          Desk.put ⟨c.toList.tail, (Desk.start.after h).clients⟩ t (.served (.dequeued (some v))) := by
        rw [Desk.next, Desk.serve_eq hw, hi, Call.onList, hlist]
        rfl
      refine ⟨h, .refl hl t, ⟨hw, ?_⟩, ?_, v, hv, ?_⟩
      · rw [hi, hlist]
        exact List.cons_ne_nil _ _
      · rw [hnext, Desk.items_put, hlist]
        rfl
      · rw [hnext, Desk.clients_put]
    · have hstep : Dequeue.step c (.unlink head next) = (c, .readHead, .none) := by
        simp [Dequeue.step, Chain.casHead, hh]
      rw [hstep]
      exact ⟨h, .quiet (.refl hl t) hi (.inl rfl) ha⟩
  | take a =>
    obtain ⟨v, hv, hw⟩ := ha
    obtain ⟨i, hle, hpos⟩ := hs.1
    refine ⟨h, .quiet (.refl hl t) (hi.trans (hc.toList_take hpos hle).symm) (.inl rfl) ?_⟩
    rw [hw, ← hv]
    rfl
  | done v => exact absurd rfl (hp v)

theorem Turn.served_testing (hc : c.Fits y) {p : IsEmpty.Phase} (hp : ∀ b, p ≠ .done b)
    (hs : (Thread.testing p).Sound c y) (hl : Desk.start.Legal h)
    (hi : (Desk.start.after h).items = c.toList)
    (ha : (Thread.testing p).Agrees c y (Could h t) ((Desk.start.after h).clients t)) :
    ∃ h', Served t (.stepped .none) c y (.testing (IsEmpty.step c p)) h h' := by
  have hlt := hc.head_lt
  cases p with
  | readHead =>
    refine ⟨h, .quiet (.refl hl t) hi (.inl rfl) ⟨ha, ?_⟩⟩
    by_cases hnil : c.toList = []
    · left
      have hlast := hc.toList_eq_nil_iff.mp hnil
      rw [List.getLast?_eq_getElem?, ← hlast]
      exact hc.head_eq
    · right
      refine Desk.Could.quiet (Desk.Sees.could (.inl ⟨ha, ?_⟩))
      rw [hi, List.isEmpty_eq_false_iff.mpr hnil]
  | readNext head =>
    obtain ⟨hw, hcould⟩ := ha
    obtain ⟨i, hle, hpos⟩ := hs
    cases hn : c.next head with
    | none =>
      have hlast := (hc.next_eq_none_iff hpos).mp hn
      have hnil : c.toList = [] := hc.toList_eq_nil_iff.mpr (by omega)
      have hsees : (Desk.start.after h).Sees t (.isEmpty true) :=
        .inl ⟨hw, by rw [hi, hnil]; rfl⟩
      refine Served.look hl hi hsees.could fun _ => ?_
      simp only [Thread.Agrees, IsEmpty.step, hn]
      rfl
    | some b =>
      have hfalse : Could h t (.isEmpty false) := by
        refine hcould.resolve_left fun hlast => ?_
        rw [List.getLast?_eq_getElem?] at hlast
        have hsucc : y.order.length - 1 + 1 = y.order.length := by omega
        rw [(hc.next_eq_none_iff hlast).mpr hsucc] at hn
        cases hn
      refine Served.look hl hi hfalse fun _ => ?_
      simp only [Thread.Agrees, IsEmpty.step, hn]
      rfl
  | done b => exact absurd rfl (hp b)

theorem Turn.served (ht : Turn c th e c' th') (hc : c.Fits y) (hs : th.Sound c y)
    (hl : Desk.start.Legal h) (hi : (Desk.start.after h).items = c.toList)
    (ha : th.Agrees c y (Could h t) ((Desk.start.after h).clients t)) :
    ∃ h', Served t e c' (y.after e.effect) th' h h' := by
  cases ht with
  | enqueue v =>
    refine ⟨h, .refl hl t, ha, hi.trans (hc.toList_alloc v).symm, nofun, fun _ => ⟨v, ?_, ?_⟩⟩
    · rw [Chain.value_alloc, if_pos rfl]
    · exact Desk.clients_put
  | dequeue => exact ⟨h, .refl hl t, ha, hi, Desk.clients_put⟩
  | isEmpty => exact ⟨h, .refl hl t, ha, hi, Desk.clients_put⟩
  | enqueuing hp => exact ⟨h, served_enqueuing hc hs hl hi ha⟩
  | dequeuing hp => exact served_dequeuing hc hp hs hl hi ha
  | testing hp => exact served_testing hc hp hs hl hi ha
  | enqueued new => exact ⟨h, .refl hl t, ha.1 rfl, hi, Desk.clients_put⟩
  | dequeued v => exact ⟨h, .refl hl t, ha, hi, Desk.clients_put⟩
  | tested b => exact ⟨h, .refl hl t, ha, hi, Desk.clients_put⟩
  | abandon new tail => exact ⟨h, .refl hl t, ha.1 rfl, hi, Desk.clients_put⟩

end

/-! ### Runs -/

namespace World

/-- The history `h` accounts for what was shown and for where each thread stands. -/
structure Recorded (w : World α) (past : List (ℕ × Event α)) (y : Layout)
    (h : List (ℕ × Moment α)) : Prop where
  shown : Desk.shown h = past
  legal : (Desk.start : Desk α).Legal h
  items : (Desk.start.after h).items = w.chain.toList
  agrees : ∀ {t : ℕ} {th : Thread α}, w.threads[t]? = some th →
    th.Agrees w.chain y (Could h t) ((Desk.start.after h).clients t)

variable {w w' : World α} {past : List (ℕ × Event α)} {y : Layout} {t u : ℕ} {m : Move α}
  {e : Event α} {th th' : Thread α} {h h' : List (ℕ × Moment α)}

theorem start_recorded (n : ℕ) : (start n : World α).Recorded [] .start [] where
  shown := rfl
  legal := trivial
  items := rfl
  agrees hth := by rw [start_idle hth]; exact rfl

/-- A node that has ceased to be the last one was followed by an item at that moment. -/
theorem last_or_could (hlinked : ∀ new, e.effect = .linked new → w'.chain.toList ≠ [])
    (hi : (Desk.start.after h').items = w'.chain.toList)
    (hs : (Desk.start.after h').clients u = .waiting .isEmpty) {a : Addr}
    (ha : y.order.getLast? = some a) :
    (y.after e.effect).order.getLast? = some a ∨ Could h' u (.isEmpty false) := by
  cases he : e.effect with
  | none => exact .inl ha
  | movedTail target => exact .inl ha
  | movedHead retired target => exact .inl ha
  | linked new =>
    refine .inr (Desk.Sees.could (.inl ⟨hs, ?_⟩))
    rw [hi, List.isEmpty_eq_false_iff.mpr (hlinked new he)]

theorem Recorded.turn (hr : w.Recorded past y h) (hw : w.Sound y) (hth : w.threads[t]? = some th)
    (ht : Turn w.chain th e w'.chain th') (hset : w'.threads = w.threads.setIfInBounds t th') :
    ∃ h', w'.Recorded (past ++ [(t, e)]) (y.after e.effect) h' := by
  have hk := ht.kept hw.fits (hw.threads hth)
  obtain ⟨h', hv⟩ := ht.served hw.fits (hw.threads hth) hr.legal hr.items (hr.agrees hth)
  have hafter : Desk.start.after (h' ++ [(t, .shown e)]) =
      (Desk.start.after h').next t (.shown e) := Desk.after_append _ _ _
  have hlinked : ∀ new, e.effect = .linked new → w'.chain.toList ≠ [] := by
    intro new he
    have hlen : (y.after e.effect).order.length = y.order.length + 1 := by simp [he, Layout.after]
    have hhead : (y.after e.effect).head = y.head := by simp [he, Layout.after]
    have hlt := hw.fits.head_lt
    rw [Ne, hk.fits.toList_eq_nil_iff]
    omega
  refine ⟨h' ++ [(t, .shown e)], ?_, ?_, ?_, ?_⟩
  · rw [Desk.shown_append, hv.amends.shown, hr.shown]
    rfl
  · exact Desk.legal_append.mpr ⟨hv.amends.legal, hv.allows, trivial⟩
  · rw [hafter, hv.items]
  · intro u thu hu
    rw [getElem?_of_set hset hth] at hu
    rw [hafter]
    split at hu
    · subst t
      obtain rfl := Option.some.inj hu
      exact hv.agrees
    · rename_i hne
      have hsame : ((Desk.start.after h').next t (.shown e)).clients u =
          (Desk.start.after h).clients u := by
        rw [Desk.clients_next_of_ne (Ne.symm hne), hv.amends.clients (Ne.symm hne)]
      rw [hsame]
      refine (hr.agrees hu).frame (fun ha => ?_) (fun hc => ?_) (fun hs a ha => ?_)
      · refine hk.value_eq ((hw.threads hu).own ha hw.fits).1 fun hown => ?_
        exact hne (hw.apart hth hu hown ha)
      · exact (hv.amends.could (Ne.symm hne) hc).snoc (.inl hne)
      · refine last_or_could hlinked ?_ ?_ ha
        · rw [hafter, hv.items]
        · rw [hafter, hsame, hs]

/-- What every interleaving shows is the visible part of a legal history of a list that serves one
call at a time, and the queue holds what that list holds. -/
theorem run_linearizable {n : ℕ} {moves : List (ℕ × Move α)} {events : List (ℕ × Event α)}
    (h : (start n).run moves = some (w, events)) :
    ∃ history : List (ℕ × Moment α), Desk.shown history = events ∧
      (Desk.start : Desk α).Legal history ∧ (Desk.start.after history).items = w.chain.toList := by
  have hstart : ∃ y h, (start n : World α).Sound y ∧ (start n : World α).Recorded [] y h :=
    ⟨_, _, start_sound n, start_recorded n⟩
  have hend : ∃ y h, w.Sound y ∧ w.Recorded events y h := by
    refine run_induction (P := fun w past => ∃ y h, w.Sound y ∧ w.Recorded past y h) ?_ moves hstart h
    rintro w past t m w' e ⟨y, h, hs, hr⟩ hm
    obtain ⟨th, th', hth, ht, hset⟩ := move_turn hm
    obtain ⟨h', hr'⟩ := hr.turn hs hth ht hset
    exact ⟨_, h', hs.turn hth ht hset, hr'⟩
  obtain ⟨y, history, -, hr⟩ := hend
  exact ⟨history, hr.shown, hr.legal, hr.items⟩

/-- A dequeue is told that there is nothing, after an enqueue that came between its look at the
queue and its answer. -/
theorem run_linearizable_late_none :
    ∃ (w : World ℕ) (events : List (ℕ × Event ℕ)) (history : List (ℕ × Moment ℕ)),
      (start 2).run ((0, .call .dequeue) :: List.replicate 3 (0, .step) ++
        (1, .call (.enqueue 5)) :: List.replicate 6 (1, .step) ++
          List.replicate 2 (0, .step)) = some (w, events) ∧
      (0, .answered (.dequeued none)) ∈ events ∧ w.chain.toList = [5] ∧
      Desk.shown history = events ∧ (Desk.start : Desk ℕ).Legal history ∧
      (Desk.start.after history).items = [5] := by
  obtain ⟨history, hs, hl, hi⟩ := @run_linearizable ℕ _ 2
    ((0, .call .dequeue) :: List.replicate 3 (0, .step) ++
      (1, .call (.enqueue 5)) :: List.replicate 6 (1, .step) ++ List.replicate 2 (0, .step)) _ rfl
  exact ⟨_, _, history, rfl, by simp, rfl, hs, hl, hi⟩

end World

end QueueRace
