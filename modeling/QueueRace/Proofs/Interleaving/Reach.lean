import QueueRace.Proofs.Interleaving.Turn

/-! Which nodes a thread can reach. The next step of a thread reads and writes no nodes but the few
that it uses, and all of these it holds: it has loaded or allocated them in the course of its
operation. A node comes to be held from `head` or `tail`, or over a link of one that is held. -/

namespace QueueRace

variable {α : Type}

/-! ### What a step touches -/

/-- The chains have the same ends, and the same nodes at the given addresses. -/
structure Chain.SameAt (as : List Addr) (c c' : Chain α) : Prop where
  head : c'.head = c.head
  tail : c'.tail = c.tail
  nodes : ∀ a ∈ as, c'.nodes[a]? = c.nodes[a]?

namespace Chain

variable {as : List Addr} {c c' : Chain α} {a b new : Addr}

theorem SameAt.next_eq (h : c.SameAt as c') (ha : a ∈ as) : c'.next a = c.next a := by
  rw [next, next, h.nodes a ha]

theorem SameAt.value_eq (h : c.SameAt as c') (ha : a ∈ as) : c'.value a = c.value a := by
  rw [value, value, h.nodes a ha]

theorem SameAt.lt_iff (h : c.SameAt as c') (ha : a ∈ as) : a < c'.nodes.size ↔ a < c.nodes.size := by
  rw [← not_le, ← not_le, ← Array.getElem?_eq_none_iff, ← Array.getElem?_eq_none_iff, h.nodes a ha]

/-! A compare-and-swap has the same outcome on both. -/

theorem SameAt.casNext (h : c.SameAt as c') (ha : a ∈ as) (new : Addr) : ∃ d d' ok,
    c.casNext a new = (d, ok) ∧ c'.casNext a new = (d', ok) ∧ d.SameAt as d' := by
  simp only [casNext_eq, h.next_eq ha, h.lt_iff ha]
  split
  · refine ⟨_, _, _, rfl, rfl, h.head, h.tail, fun b hb => ?_⟩
    simp only [Chain.setNext, Array.getElem?_modify, h.nodes b hb]
  · exact ⟨_, _, _, rfl, rfl, h⟩

theorem SameAt.casTail (h : c.SameAt as c') (old new : Addr) : ∃ d d' ok,
    c.casTail old new = (d, ok) ∧ c'.casTail old new = (d', ok) ∧ d.SameAt as d' := by
  simp only [Chain.casTail, h.tail]
  split
  · exact ⟨_, _, _, rfl, rfl, h.head, rfl, h.nodes⟩
  · exact ⟨_, _, _, rfl, rfl, h⟩

theorem SameAt.casHead (h : c.SameAt as c') (old new : Addr) : ∃ d d' ok,
    c.casHead old new = (d, ok) ∧ c'.casHead old new = (d', ok) ∧ d.SameAt as d' := by
  simp only [Chain.casHead, h.head]
  split
  · exact ⟨_, _, _, rfl, rfl, rfl, h.tail, h.nodes⟩
  · exact ⟨_, _, _, rfl, rfl, h⟩

theorem SameAt.take (h : c.SameAt as c') (ha : a ∈ as) : ∃ d d' v,
    c.take a = (d, v) ∧ c'.take a = (d', v) ∧ d.SameAt as d' := by
  refine ⟨(c.take a).1, (c'.take a).1, c.value a, rfl, ?_, h.head, h.tail, fun b hb => ?_⟩
  · rw [← h.value_eq ha]
    rfl
  · simp only [Chain.take, Array.getElem?_modify, h.nodes b hb]

end Chain

/-- What a dequeuer decides when it looks at `head` again. -/
theorem Dequeue.step_recheck {c c' : Chain α} (h : c'.head = c.head) (head tail : Addr)
    (next : Option Addr) : ∃ p : Phase α,
      step c (.recheck head tail next) = (c, p, .none) ∧
      step c' (.recheck head tail next) = (c', p, .none) := by
  simp only [step, h]
  split
  · cases next with
    | none => by_cases ht : head = tail <;> simp [ht]
    | some b => by_cases ht : head = tail <;> simp [ht]
  · exact ⟨_, rfl, rfl⟩

namespace Thread

/-- The nodes that the next step of a thread dereferences or gives to a compare-and-swap. -/
def uses : Thread α → List Addr
  | .enqueuing ⟨_, .readNext tail⟩ => [tail]
  | .enqueuing ⟨new, .link tail⟩ => [tail, new]
  | .enqueuing ⟨_, .help tail next⟩ => [tail, next]
  | .enqueuing ⟨new, .swing tail⟩ => [tail, new]
  | .dequeuing (.readNext head _) => [head]
  | .dequeuing (.help tail next) => [tail, next]
  | .dequeuing (.unlink head next) => [head, next]
  | .dequeuing (.take next) => [next]
  | .testing (.readNext head) => [head]
  | _ => []

end Thread

namespace World

/-- A step reads no other nodes than those it uses. -/
theorem proceed_reads {c c' : Chain α} {th : Thread α} (h : c.SameAt th.uses c') :
    (proceed c' th).2 = (proceed c th).2 ∧ (proceed c th).1.SameAt th.uses (proceed c' th).1 := by
  cases th with
  | idle => exact ⟨rfl, h⟩
  | abandoned => exact ⟨rfl, h⟩
  | enqueuing q =>
    obtain ⟨new, p⟩ := q
    cases p with
    | readTail => simp [proceed, Enqueue.step, h.tail, h]
    | readNext tail =>
      have hn := h.next_eq (List.mem_singleton_self tail)
      simp [proceed, Enqueue.step, hn, h]
    | recheck tail next =>
      simp only [proceed, Enqueue.step, h.tail]
      split
      · cases next <;> exact ⟨rfl, h⟩
      · exact ⟨rfl, h⟩
    | link tail =>
      obtain ⟨d, d', ok, h₁, h₂, hs⟩ := h.casNext List.mem_cons_self new
      simp only [proceed, Enqueue.step, h₁, h₂]
      cases ok <;> exact ⟨rfl, hs⟩
    | help tail next =>
      obtain ⟨d, d', ok, h₁, h₂, hs⟩ := h.casTail tail next
      simp only [proceed, Enqueue.step, h₁, h₂]
      cases ok <;> exact ⟨rfl, hs⟩
    | swing tail =>
      obtain ⟨d, d', ok, h₁, h₂, hs⟩ := h.casTail tail new
      simp only [proceed, Enqueue.step, h₁, h₂]
      cases ok <;> exact ⟨rfl, hs⟩
    | done => exact ⟨rfl, h⟩
  | dequeuing p =>
    cases p with
    | readHead => simp [proceed, Dequeue.step, h.head, h]
    | readTail head => simp [proceed, Dequeue.step, h.tail, h]
    | readNext head tail =>
      have hn := h.next_eq (List.mem_singleton_self head)
      simp [proceed, Dequeue.step, hn, h]
    | recheck head tail next =>
      obtain ⟨p, h₁, h₂⟩ := Dequeue.step_recheck h.head head tail next
      simp only [proceed, h₁, h₂, true_and]
      exact h
    | help tail next =>
      obtain ⟨d, d', ok, h₁, h₂, hs⟩ := h.casTail tail next
      simp only [proceed, Dequeue.step, h₁, h₂]
      cases ok <;> exact ⟨rfl, hs⟩
    | unlink head next =>
      obtain ⟨d, d', ok, h₁, h₂, hs⟩ := h.casHead head next
      simp only [proceed, Dequeue.step, h₁, h₂]
      cases ok <;> exact ⟨rfl, hs⟩
    | take next =>
      obtain ⟨d, d', v, h₁, h₂, hs⟩ := h.take (List.mem_singleton_self next)
      simp only [proceed, Dequeue.step, h₁, h₂, true_and]
      exact hs
    | done v => exact ⟨rfl, h⟩
  | testing p =>
    cases p with
    | readHead => simp [proceed, IsEmpty.step, h.head, h]
    | readNext head =>
      have hn := h.next_eq (List.mem_singleton_self head)
      simp [proceed, IsEmpty.step, hn, h]
    | done b => exact ⟨rfl, h⟩

/-- A step leaves all nodes as they are that it does not use. -/
theorem proceed_writes {c : Chain α} {th : Thread α} {a : Addr} (ha : a ∉ th.uses) :
    (proceed c th).1.nodes[a]? = c.nodes[a]? := by
  cases th with
  | idle => rfl
  | abandoned => rfl
  | enqueuing q =>
    obtain ⟨new, p⟩ := q
    cases p with
    | link tail =>
      have hne : tail ≠ a := fun h => ha (by simp [Thread.uses, h])
      simp only [proceed, Enqueue.step, Chain.casNext]
      split <;> rename_i hs <;> split at hs <;> cases hs
      · simp [Array.getElem?_modify, hne]
      · rfl
    | help tail next =>
      simp only [proceed, Enqueue.step, Chain.casTail]
      split <;> rename_i hs <;> split at hs <;> cases hs <;> rfl
    | swing tail =>
      simp only [proceed, Enqueue.step, Chain.casTail]
      split <;> rename_i hs <;> split at hs <;> cases hs <;> rfl
    | recheck tail next =>
      simp only [proceed, Enqueue.step]
      split
      · cases next <;> rfl
      · rfl
    | _ => rfl
  | dequeuing p =>
    cases p with
    | take next =>
      have hne : next ≠ a := fun h => ha (by simp [Thread.uses, h])
      simp [proceed, Dequeue.step, Chain.take, Array.getElem?_modify, hne]
    | help tail next =>
      simp only [proceed, Dequeue.step, Chain.casTail]
      split <;> rename_i hs <;> split at hs <;> cases hs <;> rfl
    | unlink head next =>
      simp only [proceed, Dequeue.step, Chain.casHead]
      split <;> rename_i hs <;> split at hs <;> cases hs <;> rfl
    | recheck head tail next =>
      obtain ⟨p, h, -⟩ := Dequeue.step_recheck (rfl : c.head = c.head) head tail next
      simp only [proceed, h]
    | _ => rfl
  | testing p => cases p <;> rfl

end World

/-! ### What a thread holds -/

namespace Enqueue

def Phase.holds : Phase → List Addr
  | .readTail => []
  | .readNext tail => [tail]
  | .recheck tail next => tail :: next.toList
  | .link tail => [tail]
  | .help tail next => [tail, next]
  | .swing tail => [tail]
  | .done => []

/-- A node comes to be held by a load of `tail`, or over a link of one that is held. -/
theorem holds_step {c : Chain α} {new a : Addr} {p : Phase} (ha : a ∈ (step new c p).2.1.holds) :
    a ∈ p.holds ∨ a = c.tail ∨ ∃ b ∈ p.holds, c.next b = some a := by
  cases p with
  | readTail => exact .inr (.inl (List.mem_singleton.mp ha))
  | readNext tail =>
    rcases List.mem_cons.mp ha with rfl | ha
    · exact .inl List.mem_cons_self
    · exact .inr (.inr ⟨tail, List.mem_cons_self, Option.mem_toList.mp ha⟩)
  | recheck tail next =>
    left
    simp only [step] at ha
    split at ha
    · cases next with
      | none => exact ha
      | some b => exact ha
    · cases ha
  | link tail =>
    left
    simp only [step] at ha
    split at ha
    · exact ha
    · cases ha
  | help tail next =>
    simp only [step] at ha
    split at ha <;> cases ha
  | swing tail =>
    simp only [step] at ha
    split at ha <;> cases ha
  | done => cases ha

end Enqueue

namespace Dequeue

def Phase.holds : Phase α → List Addr
  | .readHead => []
  | .readTail head => [head]
  | .readNext head tail => [head, tail]
  | .recheck head tail next => head :: tail :: next.toList
  | .help tail next => [tail, next]
  | .unlink head next => [head, next]
  | .take next => [next]
  | .done _ => []

theorem holds_step {c : Chain α} {a : Addr} {p : Phase α} (ha : a ∈ (step c p).2.1.holds) :
    a ∈ p.holds ∨ a = c.head ∨ a = c.tail ∨ ∃ b ∈ p.holds, c.next b = some a := by
  cases p with
  | readHead => exact .inr (.inl (List.mem_singleton.mp ha))
  | readTail head =>
    rcases List.mem_cons.mp ha with rfl | ha
    · exact .inl List.mem_cons_self
    · exact .inr (.inr (.inl (List.mem_singleton.mp ha)))
  | readNext head tail =>
    simp only [step, Phase.holds, List.mem_cons] at ha
    rcases ha with rfl | rfl | ha
    · exact .inl (by simp [Phase.holds])
    · exact .inl (by simp [Phase.holds])
    · exact .inr (.inr (.inr ⟨head, List.mem_cons_self, Option.mem_toList.mp ha⟩))
  | recheck head tail next =>
    left
    simp only [step] at ha
    split at ha
    · cases next with
      | none =>
        simp only at ha
        split at ha <;> cases ha
      | some b =>
        simp only at ha
        split at ha <;> simp only [Phase.holds, List.mem_cons, List.not_mem_nil, or_false] at ha <;>
          rcases ha with rfl | rfl <;> simp [Phase.holds]
    · cases ha
  | help tail next =>
    simp only [step] at ha
    split at ha <;> cases ha
  | unlink head next =>
    left
    simp only [step] at ha
    split at ha
    · exact List.mem_cons_of_mem _ ha
    · cases ha
  | take next => cases ha
  | done v => cases ha

end Dequeue

def IsEmpty.Phase.holds : IsEmpty.Phase → List Addr
  | .readNext head => [head]
  | _ => []

/-- The nodes that an operation has loaded or allocated. -/
def Thread.holds : Thread α → List Addr
  | .enqueuing ⟨new, p⟩ => new :: p.holds
  | .dequeuing p => p.holds
  | .testing p => p.holds
  | _ => []

theorem Thread.uses_subset (th : Thread α) : th.uses ⊆ th.holds := by
  cases th with
  | enqueuing q =>
    obtain ⟨new, p⟩ := q
    cases p <;> simp [uses, holds, Enqueue.Phase.holds]
  | dequeuing p => cases p <;> simp [uses, holds, Dequeue.Phase.holds]
  | testing p => cases p <;> simp [uses, holds, IsEmpty.Phase.holds]
  | _ => exact List.nil_subset _

/-- In a turn a node comes to be held by its allocation, by a load of `head` or `tail`, or over a
link of one that is held. -/
theorem Turn.holds {c c' : Chain α} {th th' : Thread α} {e : Event α} {a : Addr}
    (ht : Turn c th e c' th') (ha : a ∈ th'.holds) :
    a ∈ th.holds ∨ a = c.head ∨ a = c.tail ∨ (∃ b ∈ th.holds, c.next b = some a) ∨
      a = c.nodes.size ∧ ∃ call, e = .called call := by
  cases ht with
  | enqueue v => exact .inr (.inr (.inr (.inr ⟨List.mem_singleton.mp ha, _, rfl⟩)))
  | dequeue => cases ha
  | isEmpty => cases ha
  | @enqueuing new p hp =>
    rcases List.mem_cons.mp ha with rfl | ha
    · exact .inl List.mem_cons_self
    · rcases Enqueue.holds_step ha with ha | ha | ⟨b, hb, ha⟩
      · exact .inl (List.mem_cons_of_mem _ ha)
      · exact .inr (.inr (.inl ha))
      · exact .inr (.inr (.inr (.inl ⟨b, List.mem_cons_of_mem _ hb, ha⟩)))
  | @dequeuing p hp =>
    rcases Dequeue.holds_step ha with ha | ha | ha | ha
    · exact .inl ha
    · exact .inr (.inl ha)
    · exact .inr (.inr (.inl ha))
    · exact .inr (.inr (.inr (.inl ha)))
  | @testing p hp =>
    cases p with
    | readHead => exact .inr (.inl (List.mem_singleton.mp ha))
    | readNext head => cases ha
    | done b => cases ha
  | enqueued new => cases ha
  | dequeued v => cases ha
  | tested b => cases ha
  | abandon new tail => cases ha

end QueueRace
