import Mathlib.Data.List.Nodup
import QueueRace.Proofs.Interleaving.Reach
import QueueRace.Proofs.Interleaving.Shape

/-! When nodes may be freed, and who takes their values. A node is retired when `head` is moved off
it, and it may be freed as soon as the operations that were under way at that moment are over.
This is safe: the retired nodes are those that `head` has passed, and what an operation uses had
not been retired when it began. The dequeuer that has moved `head` to a node is the only one that
takes the value out of it. -/

namespace QueueRace

variable {α : Type}

/-! ### Values and `head` in one turn -/

section
variable {c c' : Chain α} {y : Layout} {th th' : Thread α} {e : Event α}

/-- A turn that moves `head` retires the node it was at, and goes on to take a value out of the
next node. No other turn leads there. -/
theorem Turn.movedHead (ht : Turn c th e c' th') (hc : c.Fits y) (hs : th.Sound c y) :
    (∃ b, y.order[y.head + 1]? = some b ∧ e = .stepped (.movedHead c.head b) ∧
      th' = .dequeuing (.take b)) ∨
    (∀ r b, e.effect ≠ .movedHead r b) ∧ ∀ b, th' ≠ .dequeuing (.take b) := by
  cases ht with
  | @enqueuing new p hp =>
    refine .inr ⟨fun r b he => ?_, by simp⟩
    rcases (Enqueue.step_outcome hc hs.1 hs.2).effect with ⟨a, -, -, h⟩ | ⟨-, h | ⟨a, h⟩⟩ <;>
      simp [Event.effect, h] at he
  | @dequeuing p hp =>
    rcases (Dequeue.step_outcome hc hs.1).effect with
      ⟨a, -, -, hp', h⟩ | ⟨-, -, ⟨b, hp', hb, h⟩ | ⟨hp', h⟩⟩
    · exact .inr ⟨by simp [Event.effect, h], by simp [hp']⟩
    · exact .inl ⟨b, hb, by rw [h], by rw [hp']⟩
    · refine .inr ⟨fun r b he => ?_, fun b hb => hp' b (Thread.dequeuing.inj hb)⟩
      rcases h with h | ⟨a, h⟩ <;> simp [Event.effect, h] at he
  | _ => exact .inr ⟨by simp [Event.effect], by simp⟩

theorem Turn.value_eq (ht : Turn c th e c' th') (hc : c.Fits y) (hs : th.Sound c y) {a : Addr}
    (ha : a < c.nodes.size) (hth : th ≠ .dequeuing (.take a)) : c'.value a = c.value a := by
  cases ht with
  | enqueue v => rw [Chain.value_alloc, if_neg (Nat.ne_of_lt ha)]
  | @enqueuing new p hp => rw [(Enqueue.step_outcome hc hs.1 hs.2).value_eq]
  | @dequeuing p hp =>
    rcases (Dequeue.step_outcome hc hs.1).effect with ⟨b, rfl, h, -, -⟩ | ⟨h, -⟩
    · have hab : b ≠ a := fun hab => hth (hab ▸ rfl)
      rw [h, Chain.value_take, if_neg hab]
    · rw [h]
  | _ => rfl

theorem Turn.take {a : Addr} (ht : Turn c (.dequeuing (.take a)) e c' th') : c' = (c.take a).1 := by
  cases ht with
  | dequeuing hp => rfl

theorem Turn.size_cases (ht : Turn c th e c' th') (hc : c.Fits y) (hs : th.Sound c y) :
    c'.nodes.size = c.nodes.size ∨
      c'.nodes.size = c.nodes.size + 1 ∧ (c'.value c.nodes.size).isSome := by
  cases ht with
  | enqueue v => exact .inr ⟨Chain.size_alloc c v, by rw [Chain.value_alloc, if_pos rfl]; rfl⟩
  | @enqueuing new p hp => exact .inl (Enqueue.step_outcome hc hs.1 hs.2).size_eq
  | @dequeuing p hp => exact .inl (Dequeue.step_outcome hc hs.1).size_eq
  | _ => exact .inl rfl

theorem Layout.mem_take_iff {order : List Addr} {k : ℕ} {a : Addr} :
    a ∈ order.take k ↔ ∃ i < k, order[i]? = some a := by
  rw [List.mem_iff_getElem?]
  refine exists_congr fun i => ?_
  rw [List.getElem?_take]
  split <;> simp [*]

/-- The nodes that a thread comes to hold are not further back than those it held, or than `head`. -/
theorem Turn.not_retired {k : ℕ} (ht : Turn c th e c' th') (hc : c.Fits y)
    (hk : k ≤ y.head) (hold : ∀ a ∈ th.holds, a ∉ y.order.take k) :
    ∀ a ∈ th'.holds, a ∉ y.order.take k := by
  intro a ha hm
  obtain ⟨i, hi, hia⟩ := Layout.mem_take_iff.mp hm
  rcases ht.holds ha with h | rfl | rfl | ⟨b, hb, hn⟩ | ⟨rfl, -⟩
  · exact hold a h hm
  · have := hc.index_eq hia hc.head_eq
    omega
  · have := hc.index_eq hia hc.tail_eq
    have := hc.head_le_tail
    omega
  · -- the node before it in the chain would have been retired earlier
    have hbo : b ∈ y.order := by
      by_contra hbo
      rw [hc.unlinked hbo] at hn
      cases hn
    obtain ⟨j, hj⟩ := List.mem_iff_getElem?.mp hbo
    have := hc.index_eq hia ((hc.next_eq hj).symm.trans hn)
    exact hold b hb (Layout.mem_take_iff.mpr ⟨j, by omega, hj⟩)
  · exact absurd (hc.getElem?_lt hia) (lt_irrefl _)

theorem Turn.idle_of_called {call : Call α} (ht : Turn c th (.called call) c' th') : th = .idle := by
  cases ht <;> rfl

end

/-! ### Runs -/

/-- The nodes before `head`, from the first sentinel on. -/
def Chain.passed (c : Chain α) : List Addr := (0 :: c.behind 0).takeWhile (· ≠ c.head)

theorem Chain.Fits.passed_eq {c : Chain α} {y : Layout} (h : c.Fits y)
    (h0 : y.order[0]? = some 0) : c.passed = y.order.take y.head := by
  have hlt := h.head_lt
  have hall : 0 :: c.behind 0 = y.order := by
    obtain ⟨hl, hz⟩ := List.getElem?_eq_some_iff.mp h0
    rw [h.behind_eq h0]
    conv_rhs => rw [← List.drop_zero (l := y.order), List.drop_eq_getElem_cons hl, hz]
  have hsplit : y.order = y.order.take y.head ++ c.head :: y.order.drop (y.head + 1) := by
    obtain ⟨hl, hh⟩ := List.getElem?_eq_some_iff.mp h.head_eq
    conv_lhs => rw [← List.take_append_drop y.head y.order, List.drop_eq_getElem_cons hl, hh]
  have hne : ∀ a ∈ y.order.take y.head, decide (a ≠ c.head) = true := by
    intro a ha
    obtain ⟨i, hlt, hi⟩ := Layout.mem_take_iff.mp ha
    refine decide_eq_true fun heq => ?_
    have := h.index_eq hi (heq ▸ h.head_eq)
    omega
  rw [passed, hall]
  conv_lhs => rw [hsplit, List.takeWhile_append_of_pos hne]
  rw [List.takeWhile_cons_of_neg (by simp), List.append_nil]

namespace World

def headMoves (events : List (ℕ × Event α)) : List (ℕ × Addr × Addr) :=
  events.filterMap fun m => match m.2.effect with
    | .movedHead retired target => some (m.1, retired, target)
    | _ => none

def retired (events : List (ℕ × Event α)) : List Addr := (headMoves events).map fun m => m.2.1

def sentinels (events : List (ℕ × Event α)) : List (ℕ × Addr) :=
  (headMoves events).map fun m => (m.1, m.2.2)

/-- The node whose value is taken if thread `t` moves now. -/
def takes? (w : World α) (t : ℕ) : Option Addr :=
  match w.threads[t]? with
  | some (.dequeuing (.take a)) => some a
  | _ => none

def taken (done : List (World α × ℕ × Move α)) : List (ℕ × Addr) :=
  done.filterMap fun m => (m.1.takes? m.2.1).map fun a => (m.2.1, a)

variable {w w' : World α} {past : List (ℕ × Event α)} {y : Layout} {t : ℕ} {m : Move α}
  {e : Event α} {th th' : Thread α} {done : List (World α × ℕ × Move α)} {a : Addr}

theorem headMoves_append (past later : List (ℕ × Event α)) :
    headMoves (past ++ later) = headMoves past ++ headMoves later := List.filterMap_append

theorem retired_append (past later : List (ℕ × Event α)) :
    retired (past ++ later) = retired past ++ retired later := by
  simp only [retired, headMoves_append, List.map_append]

theorem sentinels_append (past later : List (ℕ × Event α)) :
    sentinels (past ++ later) = sentinels past ++ sentinels later := by
  simp only [sentinels, headMoves_append, List.map_append]

theorem headMoves_of_ne (h : ∀ r b, e.effect ≠ .movedHead r b) (t : ℕ) : headMoves [(t, e)] = [] := by
  simp [headMoves]

theorem takes?_of_eq (hth : w.threads[t]? = some (.dequeuing (.take a))) : w.takes? t = some a := by
  simp only [takes?, hth]

theorem takes?_of_ne (hth : w.threads[t]? = some th) (h : ∀ a, th ≠ .dequeuing (.take a)) :
    w.takes? t = none := by
  simp only [takes?, hth]
  split
  · rename_i a ha
    exact absurd (Option.some.inj ha) (h a)
  · rfl

theorem taken_of_some (h : w.takes? t = some a) (m : Move α) :
    taken (done ++ [(w, t, m)]) = taken done ++ [(t, a)] := by
  simp [taken, h]

theorem taken_of_none (h : w.takes? t = none) (m : Move α) :
    taken (done ++ [(w, t, m)]) = taken done := by
  simp [taken, h]

/-- The book of retired nodes and of taken values. -/
structure Retirement (w : World α) (past : List (ℕ × Event α))
    (done : List (World α × ℕ × Move α)) (y : Layout) : Prop where
  first : y.order[0]? = some 0
  retired_eq : retired past = y.order.take y.head
  sentinels_eq : (sentinels past).map Prod.snd = (y.order.take (y.head + 1)).tail
  taking : ∀ {t a}, w.threads[t]? = some (.dequeuing (.take a)) → (t, a) ∈ sentinels past
  taken_subset : taken done ⊆ sentinels past
  once : ((taken done).map Prod.snd).Nodup
  emptied : ∀ {a}, a < w.chain.nodes.size →
    (w.chain.value a = none ↔ a = 0 ∨ a ∈ (taken done).map Prod.snd)

theorem start_retirement (n : ℕ) : (start n : World α).Retirement [] [] .start where
  first := rfl
  retired_eq := rfl
  sentinels_eq := rfl
  taking h := by cases start_idle h
  taken_subset := List.Subset.refl _
  once := List.nodup_nil
  emptied := by
    intro a ha
    obtain rfl : a = 0 := Nat.lt_one_iff.mp ha
    exact ⟨fun _ => .inl rfl, fun _ => rfl⟩

section
variable (hr : w.Retirement past done y) (hs : w.Sound y)
include hr hs

theorem Retirement.sentinel_pos {u : ℕ} (ha : (u, a) ∈ sentinels past) :
    a < w.chain.nodes.size ∧ a ≠ 0 := by
  have hm : a ∈ (y.order.take (y.head + 1)).tail := hr.sentinels_eq ▸ List.mem_map_of_mem ha
  obtain ⟨i, hi⟩ := List.mem_iff_getElem?.mp hm
  rw [List.getElem?_tail, List.getElem?_take] at hi
  split at hi
  · refine ⟨hs.fits.getElem?_lt hi, ?_⟩
    rintro rfl
    have := hs.fits.index_eq hi hr.first
    omega
  · cases hi

theorem Retirement.not_taken (hth : w.threads[t]? = some (.dequeuing (.take a))) :
    a ∉ (taken done).map Prod.snd := by
  intro hm
  have hlt := (hr.sentinel_pos hs (hr.taking hth)).1
  have := (hs.threads hth).2 a rfl
  rw [(hr.emptied hlt).mpr (.inr hm)] at this
  cases this

theorem Retirement.turn_retired (hth : w.threads[t]? = some th)
    (ht : Turn w.chain th e w'.chain th') :
    retired (past ++ [(t, e)]) = (y.after e.effect).order.take (y.after e.effect).head ∧
      (sentinels (past ++ [(t, e)])).map Prod.snd =
        ((y.after e.effect).order.take ((y.after e.effect).head + 1)).tail := by
  have hlt := hs.fits.head_lt
  rw [retired_append, sentinels_append, List.map_append, hr.retired_eq, hr.sentinels_eq]
  rcases ht.movedHead hs.fits (hs.threads hth) with ⟨b, hb, rfl, rfl⟩ | ⟨he, -⟩
  · have hne : y.order.take (y.head + 1) ≠ [] := by
      rw [Ne, List.take_eq_nil_iff]
      rintro (h | h)
      · omega
      · simp [h] at hlt
    refine ⟨?_, ?_⟩
    · simp only [Event.effect, Layout.after, List.take_add_one, hs.fits.head_eq]
      rfl
    · simp only [Event.effect, Layout.after]
      rw [List.take_add_one (i := y.head + 1), hb, List.tail_append_of_ne_nil hne]
      rfl
  · obtain ⟨rest, hrest⟩ := (y.grows_after e.effect).order
    have hhead : (y.after e.effect).head = y.head := by
      cases hx : e.effect with
      | movedHead r b => exact absurd hx (he r b)
      | _ => rfl
    have htake : ∀ n ≤ y.order.length, (y.after e.effect).order.take n = y.order.take n := by
      intro n hn
      rw [← hrest, List.take_append_of_le_length hn]
    simp only [retired, sentinels, headMoves_of_ne he, List.map_nil, List.append_nil, hhead]
    rw [htake _ hlt.le, htake _ hlt]
    exact ⟨rfl, rfl⟩

/-- Where no value is taken, the nodes without one stay the same. A node that a call has allocated
holds a value and was never the sentinel. -/
theorem Retirement.emptied_of_ne (hth : w.threads[t]? = some th) (ht : Turn w.chain th e w'.chain th')
    (hne : ∀ a, th ≠ .dequeuing (.take a)) {a : ℕ} (ha : a < w'.chain.nodes.size) :
    w'.chain.value a = none ↔ a = 0 ∨ a ∈ (taken done).map Prod.snd := by
  by_cases hlt : a < w.chain.nodes.size
  · rw [ht.value_eq hs.fits (hs.threads hth) hlt (hne a), hr.emptied hlt]
  · rcases ht.size_cases hs.fits (hs.threads hth) with hsize | ⟨hsize, hv⟩
    · omega
    · obtain rfl : a = w.chain.nodes.size := by omega
      have hpos : w.chain.nodes.size ≠ 0 := (hs.fits.getElem?_lt hr.first).ne'
      refine ⟨fun hn => by simp [hn] at hv, fun h => ?_⟩
      rcases h with h | h
      · exact absurd h hpos
      · obtain ⟨⟨u, a⟩, hm, rfl⟩ := List.mem_map.mp h
        exact absurd (hr.sentinel_pos hs (hr.taken_subset hm)).1 (lt_irrefl _)

theorem Retirement.turn_taken (hth : w.threads[t]? = some th)
    (ht : Turn w.chain th e w'.chain th') (m : Move α) :
    taken (done ++ [(w, t, m)]) ⊆ sentinels past ∧
      ((taken (done ++ [(w, t, m)])).map Prod.snd).Nodup ∧
      ∀ {a}, a < w'.chain.nodes.size →
        (w'.chain.value a = none ↔ a = 0 ∨ a ∈ (taken (done ++ [(w, t, m)])).map Prod.snd) := by
  by_cases htake : ∃ b, th = .dequeuing (.take b)
  · obtain ⟨b, rfl⟩ := htake
    have hnew := hr.taking hth
    rw [taken_of_some (takes?_of_eq hth), List.map_append]
    refine ⟨List.append_subset.mpr ⟨hr.taken_subset, by simpa using hnew⟩, ?_, fun {a} ha => ?_⟩
    · have := List.Nodup.concat (hr.not_taken hs hth) hr.once
      rwa [List.concat_eq_append] at this
    · rw [ht.take, Chain.size_take] at ha
      rw [ht.take, Chain.value_take]
      split
      · subst b
        simp
      · rename_i hne
        rw [hr.emptied ha]
        simp [Ne.symm hne]
  · push Not at htake
    rw [taken_of_none (takes?_of_ne hth htake)]
    exact ⟨hr.taken_subset, hr.once, hr.emptied_of_ne hs hth ht htake⟩

theorem Retirement.turn (hth : w.threads[t]? = some th) (ht : Turn w.chain th e w'.chain th')
    (hw : w'.threads = w.threads.setIfInBounds t th') (m : Move α) :
    w'.Retirement (past ++ [(t, e)]) (done ++ [(w, t, m)]) (y.after e.effect) := by
  obtain ⟨hret, hsent⟩ := hr.turn_retired hs hth ht
  obtain ⟨hsub, honce, hempty⟩ := hr.turn_taken hs hth ht m
  have hpast : sentinels past ⊆ sentinels (past ++ [(t, e)]) := by
    rw [sentinels_append]
    exact List.subset_append_left _ _
  refine ⟨(y.grows_after _).getElem? hr.first, hret, hsent, ?_, List.Subset.trans hsub hpast, honce,
    hempty⟩
  intro u a hu
  rw [getElem?_of_set hw hth] at hu
  split at hu
  · subst u
    obtain rfl := Option.some.inj hu
    rcases ht.movedHead hs.fits (hs.threads hth) with ⟨b, -, rfl, hb⟩ | ⟨-, hne⟩
    · cases hb
      rw [sentinels_append]
      exact List.mem_append_right _ List.mem_cons_self
    · exact absurd rfl (hne a)
  · exact hpast (hr.taking hu)

omit hs in
/-- What was retired at an earlier moment are the nodes of the chain up to a position. -/
theorem Retirement.before {before after : List (ℕ × Event α)} (hp : past = before ++ after) :
    ∃ k ≤ y.head, retired before = y.order.take k := by
  have hpre : retired before <+: y.order.take y.head := by
    rw [← hr.retired_eq, hp, retired_append]
    exact List.prefix_append _ _
  refine ⟨(retired before).length, ?_, ?_⟩
  · exact hpre.length_le.trans (List.length_take_le _ _)
  · exact List.prefix_iff_eq_take.mp (hpre.trans (List.take_prefix _ _))

end

/-! ### What an operation holds was not retired when it began -/

/-- Nothing that a thread holds had been retired when it made its call, or an earlier one. -/
def Pinned (w : World α) (past : List (ℕ × Event α)) : Prop :=
  ∀ ⦃before call after t th⦄, past = before ++ (t, .called call) :: after →
    w.threads[t]? = some th → ∀ a ∈ th.holds, a ∉ retired before

theorem Pinned.turn (hp : w.Pinned past) (hr : w.Retirement past done y) (hs : w.Sound y)
    (hth : w.threads[t]? = some th) (ht : Turn w.chain th e w'.chain th')
    (hw : w'.threads = w.threads.setIfInBounds t th') : w'.Pinned (past ++ [(t, e)]) := by
  intro before call after u thu hsplit hu
  rw [getElem?_of_set hw hth] at hu
  rcases after.eq_nil_or_concat' with rfl | ⟨after, last, rfl⟩
  · -- the operation begins here
    obtain ⟨hbefore, hlast⟩ := List.append_inj' hsplit rfl
    cases hlast
    rw [if_pos rfl] at hu
    obtain rfl := Option.some.inj hu
    obtain rfl : th = .idle := ht.idle_of_called
    subst hbefore
    rw [hr.retired_eq]
    exact ht.not_retired hs.fits le_rfl nofun
  · rw [← List.cons_append, ← List.append_assoc] at hsplit
    obtain ⟨hbefore, -⟩ := List.append_inj' hsplit rfl
    have hold : ∀ {thu}, w.threads[u]? = some thu → ∀ a ∈ thu.holds, a ∉ retired before :=
      hp hbefore
    split at hu
    · subst u
      obtain rfl := Option.some.inj hu
      obtain ⟨k, hk, hret⟩ := hr.before hbefore
      rw [hret] at hold ⊢
      exact ht.not_retired hs.fits hk (hold hth)
    · exact hold hu

/-! ### The whole -/

/-- After the events `events`, where `done` are the moves that were made. -/
structure Retires (w : World α) (events : List (ℕ × Event α))
    (done : List (World α × ℕ × Move α)) : Prop where
  passed : retired events = w.chain.passed
  once : (retired events).Nodup
  ends : ∀ a ∈ retired events, a ≠ w.chain.head ∧ a ≠ w.chain.tail
  sentinels_once : ((sentinels events).map Prod.snd).Nodup
  /-- A value is taken at most once, by the thread that made its node the sentinel. -/
  taken_once : ((taken done).map Prod.snd).Nodup
  taken_by : taken done ⊆ sentinels events
  first : 0 ∉ (taken done).map Prod.snd
  taking : ∀ {t : ℕ} {a : Addr}, w.threads[t]? = some (.dequeuing (.take a)) →
    (t, a) ∈ sentinels events ∧ (w.chain.value a).isSome
  emptied : ∀ {a}, a < w.chain.nodes.size →
    (w.chain.value a = none ↔ a = 0 ∨ a ∈ (taken done).map Prod.snd)
  /-- What an operation uses had not been retired when it was called, and so not at any earlier call
  of its thread. -/
  pinned : ∀ {before call after} {t : ℕ} {th : Thread α},
    events = before ++ (t, .called call) :: after → w.threads[t]? = some th →
      ∀ a ∈ th.uses, a ∉ retired before
  reads : ∀ {t : ℕ} {th : Thread α} {c}, w.threads[t]? = some th → w.chain.SameAt th.uses c →
    (proceed c th).2 = (proceed w.chain th).2
  writes : ∀ {t : ℕ} {th : Thread α} {a : Addr}, w.threads[t]? = some th → a ∉ th.uses →
    (proceed w.chain th).1.nodes[a]? = w.chain.nodes[a]?

theorem Retirement.retires (hr : w.Retirement past done y) (hs : w.Sound y) (hp : w.Pinned past) :
    w.Retires past done where
  passed := by rw [hs.fits.passed_eq hr.first, hr.retired_eq]
  once := by
    rw [hr.retired_eq]
    exact hs.fits.nodup.sublist (List.take_sublist _ _)
  ends := by
    intro a ha
    rw [hr.retired_eq] at ha
    obtain ⟨i, hi, hia⟩ := Layout.mem_take_iff.mp ha
    have hle := hs.fits.head_le_tail
    constructor
    · rintro rfl
      have := hs.fits.index_eq hia hs.fits.head_eq
      omega
    · rintro rfl
      have := hs.fits.index_eq hia hs.fits.tail_eq
      omega
  sentinels_once := by
    rw [hr.sentinels_eq]
    exact hs.fits.nodup.sublist ((List.tail_sublist _).trans (List.take_sublist _ _))
  taken_once := hr.once
  taken_by := hr.taken_subset
  first hm := by
    obtain ⟨⟨t, a⟩, ha, rfl⟩ := List.mem_map.mp hm
    exact (hr.sentinel_pos hs (hr.taken_subset ha)).2 rfl
  taking hth := ⟨hr.taking hth, (hs.threads hth).2 _ rfl⟩
  emptied := hr.emptied
  pinned hsplit hth a ha := hp hsplit hth a (Thread.uses_subset _ ha)
  reads _ hc := (proceed_reads hc).1
  writes _ ha := proceed_writes ha

/-- After every run the nodes before `head` are those that were retired, nobody who is under way
depends on a node that was retired before it began, and every value is taken by its owner only. -/
theorem run_retires {n : ℕ} {moves : List (ℕ × Move α)} {events : List (ℕ × Event α)}
    (h : (start n).run moves = some (w, events)) :
    w.Retires events ((start n).visited moves) := by
  have hend := run_induction_visited
    (P := fun w past done => ∃ y, w.Sound y ∧ w.Retirement past done y ∧ w.Pinned past) ?_ moves
    ⟨_, start_sound n, start_retirement n, fun _ _ _ _ _ hsplit => by simp at hsplit⟩ h
  · obtain ⟨y, hs, hr, hp⟩ := hend
    exact hr.retires hs hp
  · rintro w past done t m w' e ⟨y, hs, hr, hp⟩ hm
    obtain ⟨th, th', hth, ht, hset⟩ := move_turn hm
    exact ⟨_, hs.turn hth ht hset, hr.turn hs hth ht hset m, hp.turn hr hs hth ht hset⟩

/-- A dequeue retires a node that another one, which began earlier, has just loaded. -/
theorem run_retires_loaded :
    ∃ (w : World ℕ) (events : List (ℕ × Event ℕ)) (done : List (World ℕ × ℕ × Move ℕ)),
      (start 2).run ((0, .call (.enqueue 7)) :: List.replicate 6 (0, .step) ++
        (1, .call .dequeue) :: List.replicate 2 (1, .step) ++
          (0, .call .dequeue) :: List.replicate 6 (0, .step)) = some (w, events) ∧
      w.threads[1]?.map Thread.uses = some [0] ∧ retired events = [0] ∧ taken done = [(0, 1)] ∧
      w.Retires events done := by
  have h := @run_retires ℕ _ 2
    ((0, .call (.enqueue 7)) :: List.replicate 6 (0, .step) ++
      (1, .call .dequeue) :: List.replicate 2 (1, .step) ++
        (0, .call .dequeue) :: List.replicate 6 (0, .step)) _ rfl
  exact ⟨_, _, _, rfl, rfl, rfl, rfl, h⟩

end World

end QueueRace
