import Mathlib.Data.Nat.Notation
import Mathlib.Logic.Function.Basic
import QueueRace.Interleaving

/-! A list that serves many clients, one at a time. This is what a shared queue is measured
against: each call is done at one moment, on the list as it is then, and that moment lies between
the call and its answer. A history is a list of such moments and of what clients show to each
other; it is legal if each of its moments is allowed when it comes. Histories can be amended: a
client that only looks at the list may be served at any earlier moment of its call. -/

namespace QueueRace

variable {α : Type}

/-- A call on a list: the list afterwards, and the answer. -/
def Call.onList (items : List α) : Call α → List α × Answer α
  | .enqueue v => (items ++ [v], .enqueued)
  | .dequeue => (items.tail, .dequeued items.head?)
  | .isEmpty => (items, .isEmpty items.isEmpty)

inductive Client (α : Type) where
  | idle
  | waiting (call : Call α)
  | served (answer : Answer α)
  | gone

inductive Moment (α : Type) where
  | shown (e : Event α)
  | looked

structure Desk (α : Type) where
  items : List α
  clients : ℕ → Client α

namespace Desk

def start : Desk α := ⟨[], fun _ => .idle⟩

def put (d : Desk α) (t : ℕ) (s : Client α) : Desk α :=
  { d with clients := Function.update d.clients t s }

/-- Does the call that client `t` waits for. -/
def serve (d : Desk α) (t : ℕ) : Desk α :=
  match d.clients t with
  | .waiting call => put { d with items := (call.onList d.items).1 } t (.served (call.onList d.items).2)
  | _ => d

/-- Linking a node and moving `head` are the moments of an enqueue and of a dequeue that finds an
item. Calls that leave the list as it is are served unseen. -/
def Allows (d : Desk α) (t : ℕ) : Moment α → Prop
  | .looked => d.clients t = .waiting .isEmpty ∨ d.clients t = .waiting .dequeue ∧ d.items = []
  | .shown (.called _) => d.clients t = .idle
  | .shown (.stepped .none) => True
  | .shown (.stepped (.movedTail _)) => True
  | .shown (.stepped (.linked _)) => ∃ v, d.clients t = .waiting (.enqueue v)
  | .shown (.stepped (.movedHead _ _)) => d.clients t = .waiting .dequeue ∧ d.items ≠ []
  | .shown (.answered answer) => d.clients t = .served answer
  | .shown .abandoned => d.clients t = .served .enqueued

def next (d : Desk α) (t : ℕ) : Moment α → Desk α
  | .looked => d.serve t
  | .shown (.called call) => d.put t (.waiting call)
  | .shown (.stepped .none) => d
  | .shown (.stepped (.movedTail _)) => d
  | .shown (.stepped (.linked _)) => d.serve t
  | .shown (.stepped (.movedHead _ _)) => d.serve t
  | .shown (.answered _) => d.put t .idle
  | .shown .abandoned => d.put t .gone

/-- The desk after a history. -/
def after (d : Desk α) (h : List (ℕ × Moment α)) : Desk α := h.foldl (fun d m => d.next m.1 m.2) d

def Legal (d : Desk α) : List (ℕ × Moment α) → Prop
  | [] => True
  | m :: h => d.Allows m.1 m.2 ∧ (d.next m.1 m.2).Legal h

/-- What a history shows. -/
def shown (h : List (ℕ × Moment α)) : List (ℕ × Event α) :=
  h.filterMap fun m => match m with
    | (t, .shown e) => some (t, e)
    | (_, .looked) => none

@[simp] theorem after_append (d : Desk α) (h h' : List (ℕ × Moment α)) :
    d.after (h ++ h') = (d.after h).after h' := List.foldl_append

@[simp] theorem after_cons (d : Desk α) (m : ℕ × Moment α) (h : List (ℕ × Moment α)) :
    d.after (m :: h) = (d.next m.1 m.2).after h := rfl

theorem legal_append {d : Desk α} {h h' : List (ℕ × Moment α)} :
    d.Legal (h ++ h') ↔ d.Legal h ∧ (d.after h).Legal h' := by
  induction h generalizing d with
  | nil => simp [Legal, after]
  | cons m h ih => simp [Legal, ih, and_assoc]

@[simp] theorem shown_append (h h' : List (ℕ × Moment α)) : shown (h ++ h') = shown h ++ shown h' :=
  List.filterMap_append

section
variable {d : Desk α} {t u : ℕ} {s : Client α}

@[simp] theorem items_put : (d.put t s).items = d.items := rfl

@[simp] theorem clients_put : (d.put t s).clients t = s := Function.update_self _ _ _

theorem clients_put_of_ne (h : u ≠ t) : (d.put t s).clients u = d.clients u :=
  Function.update_of_ne h _ _

theorem put_put (h : u ≠ t) (s s' : Client α) : (d.put t s).put u s' = (d.put u s').put t s := by
  simp only [put, Function.update_comm h]

theorem serve_eq {call : Call α} (h : d.clients t = .waiting call) :
    d.serve t = put { d with items := (call.onList d.items).1 } t (.served (call.onList d.items).2) := by
  simp only [serve, h]

theorem serve_put (h : u ≠ t) (s : Client α) : (d.put t s).serve u = (d.serve u).put t s := by
  simp only [serve, clients_put_of_ne h]
  split
  · simp only [put, Function.update_comm h]
  · rfl

theorem clients_serve_of_ne (h : u ≠ t) : (d.serve t).clients u = d.clients u := by
  rw [serve]
  split
  · exact clients_put_of_ne h
  · rfl

theorem clients_next_of_ne (h : u ≠ t) (m : Moment α) : (d.next t m).clients u = d.clients u := by
  cases m with
  | looked => exact clients_serve_of_ne h
  | shown e =>
    cases e with
    | called call => exact clients_put_of_ne h
    | stepped effect =>
      cases effect with
      | none => rfl
      | movedTail target => rfl
      | linked new => exact clients_serve_of_ne h
      | movedHead retired target => exact clients_serve_of_ne h
    | answered answer => exact clients_put_of_ne h
    | abandoned => exact clients_put_of_ne h

end

/-! ### Moments that pass a client by -/

/-- A moment of another client, or one that serves nobody. -/
def Spares (t : ℕ) (m : ℕ × Moment α) : Prop :=
  m.1 ≠ t ∨ m.2 = .shown (.stepped .none) ∨ ∃ target, m.2 = .shown (.stepped (.movedTail target))

section
variable {d : Desk α} {t : ℕ} {m : ℕ × Moment α} {h : List (ℕ × Moment α)}

/-- A moment that passes client `t` by does not depend on where `t` stands. -/
theorem Spares.put (hm : Spares t m) (s : Client α) :
    ((d.put t s).Allows m.1 m.2 ↔ d.Allows m.1 m.2) ∧
      (d.put t s).next m.1 m.2 = (d.next m.1 m.2).put t s := by
  obtain ⟨u, m⟩ := m
  rcases hm with hu | rfl | ⟨target, rfl⟩
  · have hu : u ≠ t := hu
    cases m with
    | looked => exact ⟨by simp [Allows, clients_put_of_ne hu], serve_put hu s⟩
    | shown e =>
      cases e with
      | called call => exact ⟨by simp [Allows, clients_put_of_ne hu], put_put hu s _⟩
      | stepped effect =>
        cases effect with
        | none => exact ⟨Iff.rfl, rfl⟩
        | movedTail target => exact ⟨Iff.rfl, rfl⟩
        | linked new => exact ⟨by simp [Allows, clients_put_of_ne hu], serve_put hu s⟩
        | movedHead retired target => exact ⟨by simp [Allows, clients_put_of_ne hu], serve_put hu s⟩
      | answered answer => exact ⟨by simp [Allows, clients_put_of_ne hu], put_put hu s _⟩
      | abandoned => exact ⟨by simp [Allows, clients_put_of_ne hu], put_put hu s _⟩
  · exact ⟨Iff.rfl, rfl⟩
  · exact ⟨Iff.rfl, rfl⟩

theorem after_put (hh : ∀ m ∈ h, Spares t m) (s : Client α) :
    (d.put t s).after h = (d.after h).put t s := by
  induction h generalizing d with
  | nil => rfl
  | cons m h ih =>
    obtain ⟨hm, hh⟩ := List.forall_mem_cons.mp hh
    rw [after_cons, (hm.put s).2, ih hh, after_cons]

theorem legal_put (hh : ∀ m ∈ h, Spares t m) (s : Client α) : (d.put t s).Legal h ↔ d.Legal h := by
  induction h generalizing d with
  | nil => rfl
  | cons m h ih =>
    obtain ⟨hm, hh⟩ := List.forall_mem_cons.mp hh
    rw [Legal, Legal, (hm.put s).1, (hm.put s).2, ih hh]

end

/-! ### Looking in hindsight -/

/-- Client `t` would be told `answer` if it looked now. -/
def Sees (d : Desk α) (t : ℕ) (answer : Answer α) : Prop :=
  d.clients t = .waiting .isEmpty ∧ answer = .isEmpty d.items.isEmpty ∨
    d.clients t = .waiting .dequeue ∧ d.items = [] ∧ answer = .dequeued none

section
variable {d : Desk α} {t u : ℕ} {answer : Answer α} {h h' : List (ℕ × Moment α)} {m : ℕ × Moment α}

theorem Sees.allows (hs : d.Sees t answer) : d.Allows t .looked := by
  rcases hs with ⟨hc, -⟩ | ⟨hc, hi, -⟩
  · exact .inl hc
  · exact .inr ⟨hc, hi⟩

theorem Sees.next_eq (hs : d.Sees t answer) : d.next t .looked = d.put t (.served answer) := by
  rcases hs with ⟨hc, rfl⟩ | ⟨hc, hi, rfl⟩
  · exact serve_eq hc
  · rw [next, serve_eq hc]
    simp [Call.onList, hi, put]

theorem sees_put (hu : u ≠ t) (s : Client α) : (d.put t s).Sees u answer ↔ d.Sees u answer := by
  simp [Sees, clients_put_of_ne hu]

/-- At some moment of its call client `t` could have been told `answer`. -/
def Could (h : List (ℕ × Moment α)) (t : ℕ) (answer : Answer α) : Prop :=
  ∃ h₁ h₂, h = h₁ ++ h₂ ∧ (start.after h₁).Sees t answer ∧ ∀ m ∈ h₂, Spares t m

theorem Sees.could (hs : (start.after h).Sees t answer) : Could h t answer :=
  ⟨h, [], (List.append_nil h).symm, hs, by simp⟩

theorem Could.snoc (hc : Could h t answer) (hm : Spares t m) : Could (h ++ [m]) t answer := by
  obtain ⟨h₁, h₂, rfl, hs, hh⟩ := hc
  refine ⟨h₁, h₂ ++ [m], List.append_assoc _ _ _, hs, fun m' hm' => ?_⟩
  rcases List.mem_append.mp hm' with hm' | hm'
  · exact hh m' hm'
  · rwa [List.mem_singleton.mp hm']

/-- The histories `h` and `h'` are the same to everybody but client `t`. -/
structure Amends (t : ℕ) (h h' : List (ℕ × Moment α)) : Prop where
  shown : shown h' = shown h
  legal : (start : Desk α).Legal h'
  items : (start.after h').items = (start.after h).items
  clients : ∀ {u}, u ≠ t → (start.after h').clients u = (start.after h).clients u
  could : ∀ {u answer}, u ≠ t → Could h u answer → Could h' u answer

theorem Amends.refl (hl : (start : Desk α).Legal h) (t : ℕ) : Amends t h h :=
  ⟨rfl, hl, rfl, fun _ => rfl, fun _ hc => hc⟩

/-- A client that could have looked can be served in hindsight. -/
theorem Could.amends (hc : Could h t answer) (hl : (start : Desk α).Legal h) :
    ∃ h', Amends t h h' ∧ (start.after h').clients t = .served answer := by
  obtain ⟨h₁, h₂, rfl, hs, hh⟩ := hc
  have hafter : start.after (h₁ ++ (t, .looked) :: h₂) =
      (start.after (h₁ ++ h₂)).put t (.served answer) := by
    rw [after_append, after_append, after_cons, hs.next_eq, after_put hh]
  refine ⟨h₁ ++ (t, .looked) :: h₂, ⟨?_, ?_, ?_, ?_, ?_⟩, ?_⟩
  · rw [shown_append, shown_append]
    rfl
  · obtain ⟨hl₁, hl₂⟩ := legal_append.mp hl
    rw [legal_append, Legal, hs.next_eq, legal_put hh]
    exact ⟨hl₁, hs.allows, hl₂⟩
  · rw [hafter]
    rfl
  · intro u hu
    rw [hafter, clients_put_of_ne hu]
  · rintro u b hu ⟨k₁, k₂, hk, hsu, hhu⟩
    -- the look of `t` comes before the moment at which `u` could have looked, or after it
    rcases List.append_eq_append_iff.mp hk with ⟨r, rfl, rfl⟩ | ⟨r, rfl, rfl⟩
    · refine ⟨h₁ ++ (t, .looked) :: r, k₂, by simp, ?_, hhu⟩
      have hr : ∀ m ∈ r, Spares t m := fun m hm => hh m (List.mem_append_left _ hm)
      rw [after_append, after_cons, hs.next_eq, after_put hr, sees_put hu, ← after_append]
      exact hsu
    · refine ⟨k₁, r ++ (t, .looked) :: h₂, by simp, hsu, fun m hm => ?_⟩
      rcases List.mem_append.mp hm with hm | hm
      · exact hhu m (List.mem_append_left _ hm)
      · rcases List.mem_cons.mp hm with rfl | hm
        · exact .inl hu.symm
        · exact hhu m (List.mem_append_right _ hm)
  · rw [hafter, clients_put]

end

end Desk

end QueueRace
