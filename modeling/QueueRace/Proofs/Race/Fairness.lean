import Mathlib.Data.Nat.Pairing
import Mathlib.Order.Filter.AtTopBot.Basic
import QueueRace.Proofs.Race.Account

/-! Endless schedules. One is fair to a run if the clock goes on again and again and every thread
that has been created gets its turn again and again. Nothing is said about the order, or about how
long a thread has to wait. -/

open Filter

namespace QueueRace

/-- What changes only by going down comes to rest. -/
theorem eventually_const_of_rank {α : Type*} {x : ℕ → α} (rank : α → ℕ)
    (h : ∀ᶠ n in atTop, x (n + 1) = x n ∨ rank (x (n + 1)) < rank (x n)) :
    ∃ c, ∀ᶠ n in atTop, x n = c := by
  obtain ⟨k, hk⟩ := eventually_atTop.mp h
  obtain ⟨m, hm, hmin⟩ := (measure fun n => rank (x n)).wf.has_min {n | k ≤ n} ⟨k, Nat.le_refl k⟩
  refine ⟨x m, eventually_atTop.mpr ⟨m, fun n hn => ?_⟩⟩
  induction n, hn using Nat.le_induction with
  | base => rfl
  | succ n hn ih =>
    rcases hk n (le_trans hm hn) with hsame | hless
    · rw [hsame, ih]
    · rw [ih] at hless
      exact absurd hless (hmin (n + 1) (le_trans hm (Nat.le_succ_of_le hn)))

/-- A sequence that has come to rest is left alone by what happens again and again. -/
theorem exists_rest {α : Type*} {x : ℕ → α} {c : α} (hx : ∀ᶠ n in atTop, x n = c) {p q : ℕ → Prop}
    (hp : ∃ᶠ n in atTop, p n) (hq : ∀ᶠ n in atTop, q n) :
    ∃ n, p n ∧ q n ∧ x n = c ∧ x (n + 1) = c := by
  have hnext : ∀ᶠ n in atTop, x (n + 1) = c := (tendsto_add_atTop_nat 1).eventually hx
  obtain ⟨n, hp, hq, hn, hn'⟩ := (hp.and_eventually (hq.and (hx.and hnext))).exists
  exact ⟨n, hp, hq, hn, hn'⟩

namespace Race

/-- The run after the first `n` labels of an endless schedule. -/
def after (s : Setup) (r : Race) (σ : ℕ → Label) (n : ℕ) : Race := r.run s ((List.range n).map σ)

structure Fair (s : Setup) (r : Race) (σ : ℕ → Label) : Prop where
  caller : ∃ᶠ n in atTop, σ n = .caller
  watchdog : ∀ n, (r.after s σ n).watchdog.isSome → ∃ᶠ m in atTop, σ m = .watchdog
  consumer : ∀ n i, i < (r.after s σ n).consumers.size →
    ∃ᶠ m in atTop, ∃ word, σ m = .consumer i word
  producer : ∀ n i, i < (r.after s σ n).producers.size →
    ∃ᶠ m in atTop, ∃ word, σ m = .producer i word
  tick : ∃ᶠ n in atTop, ∃ span, 0 < span ∧ σ n = .tick span

variable {s : Setup} {r r' : Race} {l : Label} {σ : ℕ → Label}

theorem after_succ (s : Setup) (r : Race) (σ : ℕ → Label) (n : ℕ) :
    r.after s σ (n + 1) = (r.after s σ n).step s (σ n) := by
  simp only [after, run, List.range_succ, List.map_append, List.foldl_append, List.map_cons,
    List.map_nil, List.foldl_cons, List.foldl_nil]

theorem after_turn (s : Setup) (r : Race) (σ : ℕ → Label) (n : ℕ) :
    Turn s (r.after s σ n) (σ n) (r.after s σ (n + 1)) := by
  rw [after_succ]
  exact step_turn s _ _

/-! ### The clock -/

theorem monotone_now (s : Setup) (r : Race) (σ : ℕ → Label) (hq : ∀ n, (r.after s σ n).arena.queue.Sound) :
    Monotone fun n => (r.after s σ n).arena.now :=
  monotone_nat_of_le_succ fun n => (after_turn s r σ n).now_le (hq n)

/-- Every moment passes. -/
theorem Fair.eventually_lt_now (h : Fair s r σ) (hq : ∀ n, (r.after s σ n).arena.queue.Sound)
    (time : Instant) : ∀ᶠ n in atTop, time < (r.after s σ n).arena.now := by
  have hmono := monotone_now s r σ hq
  have hpasses : ∀ {n time}, time < (r.after s σ n).arena.now →
      ∀ᶠ m in atTop, time < (r.after s σ m).arena.now :=
    fun {n _} hn => eventually_atTop.mpr ⟨n, fun m hm => lt_of_lt_of_le hn (hmono hm)⟩
  have htick : ∀ {n span}, σ n = .tick span →
      (r.after s σ (n + 1)).arena.now = (r.after s σ n).arena.now + span := by
    intro n span hn
    rw [after_succ, hn]
    rfl
  induction time with
  | zero =>
    obtain ⟨n, span, hpos, hn⟩ := h.tick.exists
    exact hpasses (htick hn ▸ Nat.add_pos_right _ hpos)
  | succ time ih =>
    obtain ⟨n, ⟨span, hpos, hn⟩, hlt⟩ := (h.tick.and_eventually ih).exists
    exact hpasses (htick hn ▸ Nat.add_lt_add_of_lt_of_le hlt hpos)

/-! ### A schedule that is fair to every run -/

/-- The labels of one kind of thread, numbered. -/
def labelOf : ℕ → ℕ → Label
  | 0, _ => .caller
  | 1, _ => .watchdog
  | 2, i => .consumer i 0
  | 3, i => .producer i 0
  | _, _ => .tick 1

/-- All labels in turns: each of them comes up behind every place. -/
def dovetail (n : ℕ) : Label := labelOf n.unpair.1.unpair.1 n.unpair.1.unpair.2

theorem dovetail_pair (kind i n : ℕ) :
    dovetail (Nat.pair (Nat.pair kind i) n) = labelOf kind i := by
  rw [dovetail, Nat.unpair_pair, Nat.unpair_pair]

theorem frequently_dovetail (kind i : ℕ) : ∃ᶠ n in atTop, dovetail n = labelOf kind i :=
  frequently_atTop.mpr fun n => ⟨_, Nat.right_le_pair _ n, dovetail_pair kind i n⟩

theorem dovetail_fair (s : Setup) (r : Race) : Fair s r dovetail where
  caller := frequently_dovetail 0 0
  watchdog _ _ := frequently_dovetail 1 0
  consumer _ i _ := (frequently_dovetail 2 i).mono fun _ hn => ⟨0, hn⟩
  producer _ i _ := (frequently_dovetail 3 i).mono fun _ hn => ⟨0, hn⟩
  tick := (frequently_dovetail 4 0).mono fun _ hn => ⟨1, Nat.one_pos, hn⟩

end Race

end QueueRace
