import QueueRace.Proofs.Chain.Takes
import QueueRace.Proofs.Interleaving.Progress
import QueueRace.Proofs.Script.Lag

/-! One thread that goes on alone while all others stand still, wherever they are. The loops have no
measure of their own. What ends them is the layout: `tail` is at most one link before the last node
and never before `head`, so whoever moves it finds on the next pass that it is where it should be. -/

namespace QueueRace

variable {α : Type}

namespace Thread

/-- The next step is the first load of a pass. -/
def opens : Thread α → Bool
  | .testing .readHead => true
  | th => th.loads

/-- Alone on the chain `c`, the thread answers `a` after `n` passes and leaves `c'` behind. -/
inductive Answers : Thread α → Chain α → ℕ → Chain α → Answer α → Prop
  | done {c c' : Chain α} {th : Thread α} {a : Answer α}
    (h : World.proceed c th = (c', .idle, some (.answered a))) : Answers th c 0 c' a
  | step {c c₁ c' : Chain α} {th th₁ : Thread α} {e : Effect} {n : ℕ} {a : Answer α}
    (h : World.proceed c th = (c₁, th₁, some (.stepped e))) (rest : Answers th₁ c₁ n c' a) :
    Answers th c (n + if th.opens then 1 else 0) c' a

namespace Answers

variable {c c₁ c' c'' : Chain α} {th th₁ : Thread α} {e : Effect} {n m : ℕ} {a b : Answer α}

theorem inner (hp : th.opens = false) (h : World.proceed c th = (c₁, th₁, some (.stepped e)))
    (rest : th₁.Answers c₁ n c' a) : th.Answers c n c' a := by
  have := rest.step h
  rwa [hp] at this

theorem first (hp : th.opens = true) (h : World.proceed c th = (c₁, th₁, some (.stepped e)))
    (rest : th₁.Answers c₁ n c' a) : th.Answers c (n + 1) c' a := by
  have := rest.step h
  rwa [hp] at this

/-- A thread that goes on alone has one way to go. -/
theorem unique (h : th.Answers c n c' a) (h' : th.Answers c m c'' b) :
    n = m ∧ c' = c'' ∧ a = b := by
  induction h generalizing m with
  | done h =>
    cases h' with
    | done h' =>
      cases h.symm.trans h'
      exact ⟨rfl, rfl, rfl⟩
    | step h' _ => cases h.symm.trans h'
  | step h _ ih =>
    cases h' with
    | done h' => cases h.symm.trans h'
    | step h' rest =>
      cases h.symm.trans h'
      obtain ⟨rfl, hrest⟩ := ih rest
      exact ⟨rfl, hrest⟩

end Answers

variable {c c' : Chain α} {new b : Addr} {n : ℕ} {a : Answer α}

/-! ### The passes of an enqueue -/

theorem answers_help (hn : c.next c.tail = some b)
    (h : Answers (.enqueuing ⟨new, .readTail⟩) { c with tail := b } n c' a) :
    Answers (.enqueuing ⟨new, .readTail⟩) c (n + 1) c' a := by
  have hcheck : World.proceed c (.enqueuing ⟨new, .recheck c.tail (c.next c.tail)⟩) =
      (c, .enqueuing ⟨new, .help c.tail b⟩, some (.stepped .none)) := by
    simp [World.proceed, Enqueue.step, hn]
  have hhelp : World.proceed c (.enqueuing ⟨new, .help c.tail b⟩) =
      ({ c with tail := b }, .enqueuing ⟨new, .readTail⟩, some (.stepped (.movedTail b))) := by
    simp [World.proceed, Enqueue.step, Chain.casTail]
  exact .first rfl rfl (.inner rfl rfl (.inner rfl hcheck (.inner rfl hhelp h)))

theorem answers_link (hs : c.tail < c.nodes.size) (hn : c.next c.tail = none) :
    Answers (.enqueuing ⟨new, .readTail⟩) c 1 { c.setNext c.tail new with tail := new }
      .enqueued := by
  have hcheck : World.proceed c (.enqueuing ⟨new, .recheck c.tail (c.next c.tail)⟩) =
      (c, .enqueuing ⟨new, .link c.tail⟩, some (.stepped .none)) := by
    simp [World.proceed, Enqueue.step, hn]
  have hlink : World.proceed c (.enqueuing ⟨new, .link c.tail⟩) =
      (c.setNext c.tail new, .enqueuing ⟨new, .swing c.tail⟩, some (.stepped (.linked new))) := by
    simp [World.proceed, Enqueue.step, Chain.casNext_eq, hs, hn]
  have hswing : World.proceed (c.setNext c.tail new) (.enqueuing ⟨new, .swing c.tail⟩) =
      ({ c.setNext c.tail new with tail := new }, .enqueuing ⟨new, .done⟩,
        some (.stepped (.movedTail new))) := by
    simp [World.proceed, Enqueue.step, Chain.casTail, Chain.setNext]
  exact .first rfl rfl (.inner rfl rfl (.inner rfl hcheck (.inner rfl hlink (.inner rfl hswing
    (.done rfl)))))

/-! ### The passes of a dequeue -/

theorem answers_none (hn : c.next c.head = none) (ht : c.head = c.tail) :
    Answers (.dequeuing .readHead) c 1 c (.dequeued none) := by
  have hcheck : World.proceed c (.dequeuing (.recheck c.head c.tail (c.next c.head))) =
      (c, .dequeuing (.done none), some (.stepped .none)) := by
    simp [World.proceed, Dequeue.step, hn, ← ht]
  exact .first rfl rfl (.inner rfl rfl (.inner rfl rfl (.inner rfl hcheck (.done rfl))))

theorem answers_moveTail (hn : c.next c.head = some b) (ht : c.head = c.tail)
    (h : Answers (.dequeuing .readHead) { c with tail := b } n c' a) :
    Answers (.dequeuing .readHead) c (n + 1) c' a := by
  have hcheck : World.proceed c (.dequeuing (.recheck c.head c.tail (c.next c.head))) =
      (c, .dequeuing (.help c.tail b), some (.stepped .none)) := by
    simp [World.proceed, Dequeue.step, hn, ← ht]
  have hhelp : World.proceed c (.dequeuing (.help c.tail b)) =
      ({ c with tail := b }, .dequeuing .readHead, some (.stepped (.movedTail b))) := by
    simp [World.proceed, Dequeue.step, Chain.casTail]
  exact .first rfl rfl (.inner rfl rfl (.inner rfl rfl (.inner rfl hcheck (.inner rfl hhelp h))))

theorem answers_take (hn : c.next c.head = some b) (ht : c.head ≠ c.tail) :
    Answers (.dequeuing .readHead) c 1 (Chain.take { c with head := b } b).1
      (.dequeued (c.value b)) := by
  have hcheck : World.proceed c (.dequeuing (.recheck c.head c.tail (c.next c.head))) =
      (c, .dequeuing (.unlink c.head b), some (.stepped .none)) := by
    simp [World.proceed, Dequeue.step, hn, ht]
  have hunlink : World.proceed c (.dequeuing (.unlink c.head b)) =
      ({ c with head := b }, .dequeuing (.take b), some (.stepped (.movedHead c.head b))) := by
    simp [World.proceed, Dequeue.step, Chain.casHead]
  exact .first rfl rfl (.inner rfl rfl (.inner rfl rfl (.inner rfl hcheck (.inner rfl hunlink
    (.inner rfl rfl (.done rfl))))))

theorem answers_isEmpty (c : Chain α) :
    Answers (.testing .readHead) c 1 c (.isEmpty c.isEmpty) :=
  .first rfl rfl (.inner rfl rfl (.done rfl))

end Thread

namespace World

variable {w w' w'' : World α} {t n m : ℕ} {c c' : Chain α} {th th' : Thread α}
  {threads : Array (Thread α)} {call : Call α} {e : Event α} {a b : Answer α}

/-- The passes that thread `t` begins in the course of some moves. -/
def passes (w : World α) (t : ℕ) (moves : List (ℕ × Move α)) : ℕ :=
  (w.visited moves).countP fun (v, u, _) => u == t && v.threads[t]?.any Thread.opens

/-- Thread `t` calls an operation and goes on until it answers `a`, in so many passes. Nobody else
moves. -/
def Completes (w : World α) (t : ℕ) (call : Call α) (passes : ℕ) (a : Answer α) (w' : World α) :
    Prop :=
  ∃ k events, w.run ((t, .call call) :: List.replicate k (t, .step)) = some (w', events) ∧
    events.getLast? = some (t, .answered a) ∧
    w.passes t ((t, .call call) :: List.replicate k (t, .step)) = passes

theorem proceed_cases (h : proceed c th = (c', th', some e)) :
    (∃ a, e = .answered a ∧ th' = .idle ∧ th.opens = false) ∨ ∃ effect, e = .stepped effect := by
  have ht := turn_of_proceed h
  cases ht with
  | enqueuing | dequeuing | testing => exact .inr ⟨_, rfl⟩
  | enqueued | dequeued | tested => exact .inl ⟨_, rfl, rfl, rfl⟩
  | enqueue | dequeue | isEmpty | abandon => simp [proceed] at h

theorem move_step (hth : threads[t]? = some th) (h : proceed c th = (c', th', some e)) :
    (⟨c, threads⟩ : World α).move t .step = (⟨c', threads.setIfInBounds t th'⟩, some e) := by
  simp only [move, hth, h]

theorem passes_cons (hth : w.threads[t]? = some th) (m : Move α) (moves : List (ℕ × Move α)) :
    w.passes t ((t, m) :: moves) =
      (w.move t m).1.passes t moves + if th.opens then 1 else 0 := by
  simp [passes, visited, List.countP_cons, hth]

theorem last_of_cons {later : List (ℕ × Event α)}
    (h : ((t, e) :: later).getLast? = some (t, .answered a)) (he : e ≠ .answered a) :
    later.getLast? = some (t, .answered a) := by
  rw [List.getLast?_cons] at h
  cases hl : later.getLast? with
  | none =>
    rw [hl, Option.getD_none] at h
    exact absurd (Prod.mk.inj (Option.some.inj h)).2 he
  | some x => rwa [hl, Option.getD_some] at h

theorem run_of_answers (h : th.Answers c n c' a) (hth : threads[t]? = some th) :
    ∃ k events, (⟨c, threads⟩ : World α).run (List.replicate k (t, .step)) =
        some (⟨c', threads.setIfInBounds t .idle⟩, events) ∧
      events.getLast? = some (t, .answered a) ∧
      (⟨c, threads⟩ : World α).passes t (List.replicate k (t, .step)) = n := by
  induction h generalizing threads with
  | done h =>
    have hm := move_step hth h
    obtain ⟨-, -, -, hopens⟩ | ⟨_, he⟩ := proceed_cases h
    · refine ⟨1, [(t, _)], ?_, rfl, ?_⟩
      · simp only [List.replicate, run, hm, Option.map_some]
      · rw [List.replicate, passes_cons hth, hopens]
        rfl
    · cases he
  | @step c c₁ c' th th₁ e n a h _ ih =>
    have hm := move_step hth h
    have hnext : (threads.setIfInBounds t th₁)[t]? = some th₁ := by rw [getElem?_set hth, if_pos rfl]
    obtain ⟨k, events, hr, hl, hn⟩ := ih hnext
    rw [Array.setIfInBounds_setIfInBounds] at hr
    refine ⟨k + 1, (t, .stepped e) :: events, ?_, ?_, ?_⟩
    · simp only [List.replicate, run, hm, hr, Option.map_some]
    · rw [List.getLast?_cons, hl, Option.getD_some]
    · rw [List.replicate, passes_cons hth, hm, hn]

/-- A run of a single thread that has answered is one of these. -/
theorem answers_of_run {k : ℕ} {events : List (ℕ × Event α)} (hth : threads[t]? = some th)
    (h : (⟨c, threads⟩ : World α).run (List.replicate k (t, .step)) = some (w', events))
    (ha : events.getLast? = some (t, .answered a)) :
    th.Answers c ((⟨c, threads⟩ : World α).passes t (List.replicate k (t, .step))) w'.chain a ∧
      w'.threads = threads.setIfInBounds t .idle := by
  induction k generalizing c threads th events with
  | zero =>
    cases h
    cases ha
  | succ k ih =>
    obtain ⟨w₁, e, later, hm, hr, rfl⟩ := run_cons h
    obtain ⟨c₁, th₁, event, hp⟩ : ∃ c₁ th₁ event, proceed c th = (c₁, th₁, event) :=
      ⟨_, _, _, rfl⟩
    have hnext : (threads.setIfInBounds t th₁)[t]? = some th₁ := by rw [getElem?_set hth, if_pos rfl]
    rw [List.replicate, passes_cons hth, hm]
    simp only [move, hth, hp] at hm
    obtain ⟨rfl, rfl⟩ := Prod.mk.inj hm
    rcases proceed_cases hp with ⟨a', rfl, rfl, hopens⟩ | ⟨effect, rfl⟩
    · cases k with
      | zero =>
        cases hr
        cases ha
        rw [hopens]
        exact ⟨.done hp, rfl⟩
      | succ k =>
        -- an idle thread has no step to make
        obtain ⟨w₂, e, -, hm, -⟩ := run_cons hr
        simp [move, hnext, proceed] at hm
    · obtain ⟨hrest, hthreads⟩ := ih hnext hr (last_of_cons ha (by simp))
      rw [Array.setIfInBounds_setIfInBounds] at hthreads
      exact ⟨.step hp hrest, hthreads⟩

/-- An operation that is called is carried out by its caller alone, to its end. -/
theorem completes_iff (ht : w.threads[t]? = some .idle) :
    w.Completes t call n a w' ↔
      (begin w.chain call).2.Answers (begin w.chain call).1 n w'.chain a ∧
        w'.threads = w.threads := by
  obtain ⟨c, threads⟩ := w
  dsimp only at ht ⊢
  have hm : (⟨c, threads⟩ : World α).move t (.call call) =
      (⟨(begin c call).1, threads.setIfInBounds t (begin c call).2⟩, some (.called call)) := by
    simp only [move, ht]
  have hbegun : (threads.setIfInBounds t (begin c call).2)[t]? = some (begin c call).2 := by
    rw [getElem?_set ht, if_pos rfl]
  have hback : (threads.setIfInBounds t (begin c call).2).setIfInBounds t .idle = threads := by
    rw [Array.setIfInBounds_setIfInBounds, setIfInBounds_self ht]
  have hpasses : ∀ moves, (⟨c, threads⟩ : World α).passes t ((t, .call call) :: moves) =
      (⟨(begin c call).1, threads.setIfInBounds t (begin c call).2⟩ : World α).passes t moves := by
    intro moves
    rw [passes_cons ht, hm]
    rfl
  constructor
  · rintro ⟨k, events, hr, hl, hn⟩
    obtain ⟨w₁, e, later, hm', hlater, rfl⟩ := run_cons hr
    obtain ⟨rfl, rfl⟩ : _ = w₁ ∧ _ = e := by simpa [hm] using hm'
    rw [hpasses] at hn
    subst hn
    obtain ⟨hans, hthreads⟩ := answers_of_run hbegun hlater (last_of_cons hl (by simp))
    exact ⟨hans, hthreads.trans hback⟩
  · obtain ⟨c', threads'⟩ := w'
    rintro ⟨hans, rfl⟩
    obtain ⟨k, events, hr, hl, hn⟩ := run_of_answers hans hbegun
    rw [hback] at hr
    refine ⟨k, (t, .called call) :: events, ?_, ?_, ?_⟩
    · simp only [run, hm, hr, Option.map_some]
    · rw [List.getLast?_cons, hl, Option.getD_some]
    · rw [hpasses, hn]

end World

namespace Chain

variable {c : Chain α}

/-! ### The operations on a chain with or without a lag -/

theorem enqueue_of_last (hs : c.tail < c.nodes.size) (hn : c.next c.tail = none) (v : α) :
    c.enqueue v = { (c.alloc v).setNext c.tail c.nodes.size with tail := c.nodes.size } := by
  have hlink : c.link v = _ :=
    advance_link (c := c.alloc v) (by rw [size_alloc]; exact Nat.lt_succ_of_lt hs)
      ((next_alloc c v _).trans hn) c.nodes.size 4
  rw [Chain.enqueue, hlink]
  exact (settle_swing _ _ _).trans (if_pos rfl)

theorem enqueue_of_lagging {b : Addr} (hb : c.next c.tail = some b) (hs : b < c.nodes.size)
    (hn : c.next b = none) (v : α) :
    c.enqueue v = { ({ c.alloc v with tail := b } : Chain α).setNext b c.nodes.size with
      tail := c.nodes.size } := by
  have hlink : c.link v = _ :=
    (advance_help (c := c.alloc v) ((next_alloc c v _).trans hb) c.nodes.size 4).trans
      (advance_link (c := { c.alloc v with tail := b })
        (by simpa [Chain.alloc] using Nat.lt_succ_of_lt hs) ((next_alloc c v b).trans hn)
        c.nodes.size 0)
  rw [Chain.enqueue, hlink]
  exact (settle_swing _ _ _).trans (if_pos rfl)

theorem Sound.answers_enqueue (h : c.Sound) (v : α) :
    (Thread.enqueuing ⟨c.nodes.size, .readTail⟩).Answers (c.alloc v)
      (if c.lag = 0 then 1 else 2) (c.enqueue v) .enqueued := by
  obtain ⟨y, hy⟩ := id h
  have hsize := size_alloc c v
  cases hn : c.next c.tail with
  | none =>
    have hs := hy.getElem?_lt hy.tail_eq
    rw [if_pos (h.lag_eq_zero_iff.mpr hn), enqueue_of_last hs hn]
    exact Thread.answers_link (c := c.alloc v) (hsize ▸ Nat.lt_succ_of_lt hs)
      ((next_alloc c v _).trans hn)
  | some b =>
    have hb := (hy.next_eq hy.tail_eq).symm.trans hn
    have hs := hy.getElem?_lt hb
    have hlast : c.next b = none := by
      have hlt := (List.getElem?_eq_some_iff.mp hb).1
      have hle := hy.length_le
      exact (hy.next_eq_none_iff hb).mpr (by omega)
    have hlag : c.lag ≠ 0 := by
      rw [Ne, h.lag_eq_zero_iff, hn]
      exact Option.some_ne_none b
    rw [if_neg hlag, enqueue_of_lagging hn hs hlast]
    exact Thread.answers_help (c := c.alloc v) ((next_alloc c v _).trans hn)
      (Thread.answers_link (c := { c.alloc v with tail := b }) (hsize ▸ Nat.lt_succ_of_lt hs)
        ((next_alloc c v b).trans hlast))

theorem Sound.answers_dequeue (h : c.Sound) :
    (Thread.dequeuing .readHead).Answers c (if c.lag ≠ 0 ∧ c.tail = c.head then 2 else 1)
      c.dequeue.1 (.dequeued c.toList.head?) := by
  obtain ⟨-, ha, -⟩ := h.dequeue
  obtain ⟨y, hy⟩ := id h
  cases hy.front with
  | nothing hn ht _ =>
    have hlag : c.lag = 0 := h.lag_eq_zero_iff.mpr (ht ▸ hn)
    have hd : c.dequeue = (c, .done none) := finish_none hn ht 7
    rw [hd] at ha ⊢
    rw [← Dequeue.Phase.done.inj ha, if_neg fun hc => hc.1 hlag]
    exact Thread.answers_none hn ht
  | @lagging b hb hn ht hne _ =>
    have hlag : c.lag ≠ 0 := by
      rw [Ne, h.lag_eq_zero_iff, ← ht, hn]
      exact Option.some_ne_none b
    have hd : c.dequeue = _ :=
      (finish_help hn ht 6).trans (finish_take (c := { c with tail := b }) hn hne 0)
    rw [hd] at ha ⊢
    rw [← Dequeue.Phase.done.inj ha, if_pos ⟨hlag, ht.symm⟩]
    exact Thread.answers_moveTail hn ht (Thread.answers_take hn hne)
  | @apart b hb hn ht _ =>
    have hd : c.dequeue = _ := finish_take hn ht 5
    rw [hd] at ha ⊢
    rw [← Dequeue.Phase.done.inj ha, if_neg fun hc => ht hc.2.symm]
    exact Thread.answers_take hn ht

end Chain

namespace World

variable {w w' w'' : World α} {t n m : ℕ} {call : Call α} {a b : Answer α}

/-- Thread `t` dequeues until it finds nothing, and nobody else moves. It has found `vs`. -/
inductive Drains (t : ℕ) : World α → List α → World α → Prop
  | stop {w w' : World α} {n : ℕ} (h : w.Completes t .dequeue n (.dequeued none) w') :
    Drains t w [] w'
  | next {w w₁ w' : World α} {n : ℕ} {v : α} {vs : List α}
    (h : w.Completes t .dequeue n (.dequeued (some v)) w₁) (rest : Drains t w₁ vs w') :
    Drains t w (v :: vs) w'

theorem completes_unique (ht : w.threads[t]? = some .idle) (h : w.Completes t call n a w')
    (h' : w.Completes t call m b w'') : n = m ∧ a = b ∧ w' = w'' := by
  obtain ⟨c', threads'⟩ := w'
  obtain ⟨c'', threads''⟩ := w''
  obtain ⟨hans, rfl⟩ := (completes_iff ht).mp h
  obtain ⟨hans', rfl⟩ := (completes_iff ht).mp h'
  obtain ⟨hn, rfl, ha⟩ := hans.unique hans'
  exact ⟨hn, ha, rfl⟩

theorem completes_dequeue (hw : w.chain.Sound) (ht : w.threads[t]? = some .idle) :
    w.Completes t .dequeue (if w.chain.lag ≠ 0 ∧ w.chain.tail = w.chain.head then 2 else 1)
      (.dequeued w.chain.toList.head?) ⟨w.chain.dequeue.1, w.threads⟩ :=
  (completes_iff ht).mpr ⟨hw.answers_dequeue, rfl⟩

/-- The loop ends by itself. It has found all items, each once. -/
theorem drains_iff (hw : w.chain.Sound) (ht : w.threads[t]? = some .idle)
    (hn : w.chain.toList.length < n) (vs : List α) :
    w.Drains t vs w' ↔ vs = w.chain.toList ∧ w' = ⟨(w.chain.takeUpTo n).1, w.threads⟩ := by
  induction n generalizing w vs with
  | zero => exact absurd hn (Nat.not_lt_zero _)
  | succ n ih =>
    have hone := completes_dequeue hw ht
    rw [Chain.takeUpTo]
    rcases hw.dequeue_cases with ⟨c', hd, -, hnil, -⟩ | ⟨c', v, hd, g, hlist⟩
    · rw [hd, hnil] at hone
      rw [hd, hnil]
      constructor
      · rintro (⟨h⟩ | ⟨h, -⟩)
        · exact ⟨rfl, (completes_unique ht h hone).2.2⟩
        · cases (completes_unique ht h hone).2.1
      · rintro ⟨rfl, rfl⟩
        exact .stop hone
    · rw [hlist, List.length_cons, Nat.add_lt_add_iff_right] at hn
      have hrest := @ih ⟨c', w.threads⟩ (hw.grew g) ht hn
      rw [hd, hlist] at hone
      rw [hd, hlist]
      constructor
      · rintro (⟨h⟩ | ⟨h, hr⟩)
        · cases (completes_unique ht h hone).2.1
        · obtain ⟨-, he, rfl⟩ := completes_unique ht h hone
          cases he
          obtain ⟨rfl, rfl⟩ := (hrest _).mp hr
          exact ⟨rfl, rfl⟩
      · rintro ⟨rfl, rfl⟩
        exact .next hone ((hrest _).mpr ⟨rfl, rfl⟩)

/-- Thread `t` gets to the end of whatever it calls, wherever the other threads stand still. -/
structure Unhindered (w : World α) (t : ℕ) : Prop where
  enqueue : ∀ v, w.Completes t (.enqueue v) (if w.chain.lag = 0 then 1 else 2) .enqueued
    ⟨w.chain.enqueue v, w.threads⟩
  dequeue : w.Completes t .dequeue
    (if w.chain.lag ≠ 0 ∧ w.chain.tail = w.chain.head then 2 else 1)
    (.dequeued w.chain.toList.head?) ⟨w.chain.dequeue.1, w.threads⟩
  answered : w.chain.dequeue.2 = .done w.chain.toList.head?
  isEmpty : w.Completes t .isEmpty 1 (.isEmpty w.chain.isEmpty) w
  unique : ∀ {call n m a b w' w''}, w.Completes t call n a w' → w.Completes t call m b w'' →
    n = m ∧ a = b ∧ w' = w''
  drains : ∀ {vs w'}, w.Drains t vs w' ↔
    vs = w.chain.toList ∧ w' = ⟨(w.chain.takeUpTo w.chain.bound).1, w.threads⟩
  /-- The dequeues of the loop that drops the queue. Its bound is not what ends it. -/
  dropped : (Chain.visits Chain.keep w.chain.bound w.chain).map (fun c => c.dequeue.2) =
    (w.chain.toList.map some ++ [none]).map .done

theorem unhindered (hw : w.chain.Sound) (ht : w.threads[t]? = some .idle) : w.Unhindered t where
  enqueue v := (completes_iff ht).mpr ⟨hw.answers_enqueue v, rfl⟩
  dequeue := completes_dequeue hw ht
  answered := hw.dequeue.2.1
  isEmpty := (completes_iff ht).mpr ⟨Thread.answers_isEmpty w.chain, rfl⟩
  unique h h' := completes_unique ht h h'
  drains := drains_iff hw ht hw.length_lt_bound _
  dropped := by
    rw [hw.visits_answers, List.take_of_length_le]
    rw [List.length_append, List.length_map, List.length_singleton]
    exact hw.length_lt_bound

/-- A suspended thread holds nobody up. In every state that an interleaving comes to, a thread that
begins an operation there gets to its end alone, and the same is so in every state inside the run of
a script. A second pass is made only to move a `tail` that lags, by an enqueue always and by a
dequeue if `head` is there too. -/
theorem run_unhindered :
    (∀ {n t : ℕ} {moves : List (ℕ × Move α)} {w : World α} {events : List (ℕ × Event α)},
      (start n).run moves = some (w, events) → w.threads[t]? = some .idle → w.Unhindered t) ∧
    ∀ {script : Script α} {scope : Script.Scope} {s : Script.State α} {q : Slot} {c : Chain α},
      (scope, s) ∈ script.passes ⟨[], []⟩ .start → s.get? q = some c →
        (⟨c, #[.idle]⟩ : World α).Unhindered 0 := by
  constructor
  · intro n t moves w events h ht
    exact unhindered ⟨_, (run_held h).sound.fits⟩ ht
  · intro script scope s q c hs hq
    have hsound := (Script.script_passes script ⟨[], []⟩ Script.State.start_sound _ hs).1.sound
    exact unhindered (hsound.queues hq) rfl

/-- An enqueuer has been abandoned with `tail` behind its node, and `head` is there as well. -/
theorem run_unhindered_abandoned :
    (∃ (w : World ℕ) (events : List (ℕ × Event ℕ)),
      (start 2).run ((0, .call (.enqueue 7)) :: List.replicate 4 (0, .step) ++ [(0, .abandon)]) =
        some (w, events) ∧
      w.chain.lag = 1 ∧ w.chain.tail = w.chain.head ∧ w.Unhindered 1) ∧
    ∃ c : Chain ℕ,
      (Script.run ⟨[], []⟩ (.step 0 (.suspend 7 .done true) .done) .start).1.get? 0 = some c ∧
      c.lag = 1 ∧ (⟨c, #[.idle]⟩ : World ℕ).Unhindered 0 := by
  refine ⟨⟨_, _, rfl, rfl, rfl, ?_⟩, _, rfl, rfl, ?_⟩
  · exact run_unhindered.1 (n := 2) (show (start 2).run ((0, .call (.enqueue 7)) ::
      List.replicate 4 (0, .step) ++ [(0, .abandon)]) = some (_, _) from rfl) rfl
  · exact run_unhindered.2 (q := 0)
      (Script.end_mem_passes (.step 0 (.suspend 7 .done true) .done) ⟨[], []⟩ .start) rfl

end World

end QueueRace
