import QueueRace.Proofs.Chain.Alone

/-! Which nodes a dequeue takes values out of, and how the queue looks after a loop has dequeued all
there was. A node whose value was taken, or which never had one, holds none, so that a value is
there at each move says that no move is made twice. -/

namespace QueueRace

variable {α : Type}

namespace Dequeue

def Phase.found? : Phase α → Option α
  | .done answer => answer
  | _ => none

/-- The moves of values out of nodes in at most `n` steps: the chain as it is then, and the node. -/
def takes : ℕ → Chain α → Phase α → List (Chain α × Addr)
  | _, _, .done _ => []
  | 0, _, _ => []
  | n + 1, c, .take a => (c, a) :: takes n (step c (.take a)).1 (step c (.take a)).2.1
  | n + 1, c, phase => takes n (step c phase).1 (step c phase).2.1

end Dequeue

namespace Chain

def takes (c : Chain α) : List (Chain α × Addr) := Dequeue.takes 11 c .readHead

/-- A dequeue takes values out of items only, where they still are, and it comes to an answer, which
is what it took. -/
structure Careful (c : Chain α) : Prop where
  filled : ∀ e ∈ c.takes, (e.1.value e.2).isSome
  /-- Not the node that was the sentinel when the dequeue began. -/
  behind : ∀ e ∈ c.takes, e.2 ≠ c.head ∧ e.2 ∈ c.behind c.head
  answer : ∃ answer, c.dequeue.2 = .done answer ∧
    c.takes.filterMap (fun e => e.1.value e.2) = answer.toList

/-- `head`, `tail` and the last node are the same. -/
structure Ended (c : Chain α) : Prop where
  tail : c.tail = c.head
  last : c.next c.head = none

/-- The chains on which a loop dequeues until it finds nothing, at most `n` times. With each value
it found, it goes on from `back`. -/
def visits (back : Chain α → α → Chain α) : ℕ → Chain α → List (Chain α)
  | 0, _ => []
  | n + 1, c => c :: match c.dequeue with
    | (c, .done (some v)) => visits back n (back c v)
    | _ => []

/-- The loop puts nothing back. -/
def keep (c : Chain α) (_ : α) : Chain α := c

variable {c : Chain α} {y : Layout} {b : Addr}

/-! ### A single dequeue -/

theorem takes_none (hn : c.next c.head = none) (ht : c.head = c.tail) (n : ℕ) :
    Dequeue.takes (n + 4) c .readHead = [] := by
  simp [Dequeue.takes, Dequeue.step, hn, ← ht]

theorem takes_help (hn : c.next c.head = some b) (ht : c.head = c.tail) (n : ℕ) :
    Dequeue.takes (n + 5) c .readHead = Dequeue.takes n { c with tail := b } .readHead := by
  simp [Dequeue.takes, Dequeue.step, hn, ← ht, casTail]

theorem takes_take (hn : c.next c.head = some b) (ht : c.head ≠ c.tail) (n : ℕ) :
    Dequeue.takes (n + 6) c .readHead = [({ c with head := b }, b)] := by
  simp [Dequeue.takes, Dequeue.step, hn, ht, casHead]

/-- A dequeue takes the value of the first node behind the sentinel, if there is one. -/
theorem Fits.takes_cases (h : c.Fits y) :
    (c.takes = [] ∧ c.dequeue.2 = .done none) ∨
      ∃ c' b, y.order[y.head + 1]? = some b ∧ c.takes = [(c', b)] ∧ c'.value b = c.value b ∧
        c.dequeue.2 = .done (c.value b) := by
  cases h.front with
  | nothing hn ht _ => exact .inl ⟨takes_none hn ht 7, congrArg Prod.snd (finish_none hn ht 7)⟩
  | @lagging b hb hn ht hne _ =>
    refine .inr ⟨{ c with head := b, tail := b }, b, hb, ?_, rfl, ?_⟩
    · exact (takes_help hn ht 6).trans (takes_take (c := { c with tail := b }) hn hne 0)
    · exact congrArg Prod.snd
        ((finish_help hn ht 6).trans (finish_take (c := { c with tail := b }) hn hne 0))
  | @apart b hb hn ht _ =>
    exact .inr ⟨{ c with head := b }, b, hb, takes_take hn ht 5, rfl,
      congrArg Prod.snd (finish_take hn ht 5)⟩

theorem Sound.careful (h : c.Sound) : c.Careful := by
  obtain ⟨y, hy⟩ := h
  rcases hy.takes_cases with ⟨ht, ha⟩ | ⟨c', b, hb, ht, hv, ha⟩
  · constructor <;> simp [ht, ha]
  · have hne : b ≠ c.head := by
      rintro rfl
      have := hy.index_eq hy.head_eq hb
      omega
    have hmem : b ∈ c.behind c.head := by
      rw [hy.behind_eq hy.head_eq]
      exact List.mem_of_getElem? (i := 0) (by rw [List.getElem?_drop, Nat.add_zero, hb])
    obtain ⟨v, hsome⟩ := Option.isSome_iff_exists.mp (hy.filled (Nat.lt_succ_self _) hb)
    constructor <;> simp [ht, ha, hv, hne, hmem, hsome]

/-! ### Dequeuing until nothing is found -/

theorem Sound.ended (h : c.Sound) (hnil : c.toList = []) : c.Ended := by
  obtain ⟨y, hy⟩ := h
  have hlast := hy.toList_eq_nil_iff.mp hnil
  have heq : y.tail = y.head := by
    have := hy.head_le_tail
    have := hy.tail_lt
    omega
  exact ⟨Option.some.inj (hy.tail_eq.symm.trans (heq ▸ hy.head_eq)),
    (hy.next_eq_none_iff hy.head_eq).mpr hlast⟩

theorem Ended.dequeue (h : c.Ended) : c.dequeue = (c, .done none) :=
  finish_none h.last h.tail.symm 7

theorem Sound.drain_ended (h : c.Sound) : (c.takeUpTo c.bound).1.Ended := by
  obtain ⟨g, hrest, -⟩ := h.takeUpTo c.bound
  exact (h.grew g).ended (hrest.trans (List.drop_eq_nil_of_le h.length_le_bound))

theorem Sound.visits {back : Chain α → α → Chain α}
    (hback : ∀ {c : Chain α} (v : α), c.Sound → (back c v).Sound) (h : c.Sound) (n : ℕ) :
    ∀ d ∈ visits back n c, d.Sound := by
  induction n generalizing c with
  | zero => exact List.forall_mem_nil _
  | succ n ih =>
    intro d hd
    rw [Chain.visits] at hd
    rcases List.mem_cons.mp hd with rfl | hd
    · exact h
    · rcases h.dequeue_cases with ⟨c', hc, -⟩ | ⟨c', v, hc, g, -⟩
      · rw [hc] at hd
        cases hd
      · rw [hc] at hd
        exact ih (hback v (h.grew g)) d hd

theorem Sound.visits_of_empty {back : Chain α → α → Chain α} (h : c.Sound) (hnil : c.toList = [])
    (n : ℕ) :
    (Chain.visits back n c).map (fun d => d.dequeue.2) = ([none].take n).map .done := by
  cases n with
  | zero => rfl
  | succ n =>
    have hd := (h.ended hnil).dequeue
    rw [Chain.visits, hd, List.map_singleton, hd, List.take_succ_cons, List.take_nil,
      List.map_singleton]

/-- A loop finds each item once, and then nothing, unless it is cut off before. -/
theorem Sound.visits_answers (h : c.Sound) (n : ℕ) :
    (Chain.visits keep n c).map (fun d => d.dequeue.2) =
      ((c.toList.map some ++ [none]).take n).map .done := by
  induction n generalizing c with
  | zero => rfl
  | succ n ih =>
    rcases h.dequeue_cases with ⟨c', -, -, hnil, -⟩ | ⟨c', v, hd, g, hlist⟩
    · rw [hnil]
      exact h.visits_of_empty hnil (n + 1)
    · rw [Chain.visits, List.map_cons, hd, hlist, List.map_cons, List.cons_append,
        List.take_succ_cons, List.map_cons]
      exact congrArg (.done (some v) :: ·) (ih (h.grew g))

theorem visits_keep (n : ℕ) (c : Chain α) :
    (visits keep n c).flatMap (fun d => d.dequeue.2.found?.toList) = (c.takeUpTo n).2 := by
  induction n generalizing c with
  | zero => rfl
  | succ n ih =>
    rw [visits, takeUpTo, List.flatMap_cons]
    obtain ⟨c', phase⟩ := c.dequeue
    cases phase with
    | done answer =>
      cases answer with
      | none => rfl
      | some v => exact congrArg (v :: ·) (ih c')
    | _ => rfl

end Chain

end QueueRace
