import Mathlib.Data.Set.Finite.Basic
import Mathlib.Order.Filter.Finite
import QueueRace.Proofs.Race.Closing
import QueueRace.Proofs.Race.Fairness

/-! Every run comes to its end, whoever panics and whichever creation fails, if the schedule is fair
and the list of producers gets its room. The caller, the watchdog and every producer only ever go
down towards their ends, so each of them comes to rest. A consumer goes round in circles as long as
producers are counted; once the count is zero it goes down as well, and takes the queue with it.
What a fair schedule cannot move any more has ended. -/

open Filter

namespace QueueRace

/-! ### How far it is to the end -/

/-- How many steps the caller of `m` consumers and `n` producers has before it, at most. -/
def Caller.rank (m n : ℕ) : Caller → ℕ
  | .ended _ => 0
  | .joinWatchdog _ => 1
  | .dismiss _ => 2
  | .close _ _ _ => 3
  | .disarm _ | .uncountRest _ _ | .summarize _ => 4
  | .cancelRest _ _ => 5
  | .joinConsumers _ consumed => 5 + (m - consumed.length)
  | .joinProducers produced => 6 + m + (n - produced.length)
  | .spawnProducer i => 7 + m + n + (n - i)
  | .reserve => 8 + m + 2 * n
  | .spawnConsumer i => 9 + m + 2 * n + (m - i)
  | .announce => 10 + 2 * m + 2 * n
  | .spawnWatchdog => 11 + 2 * m + 2 * n

def Watchdog.rank : Watchdog → ℕ
  | .start => 5
  | .yielded | .asleep _ => 4
  | .check => 3
  | .warn => 2
  | .cancel => 1
  | .ended | .panicked => 0

def watchdogRank : Option Watchdog → ℕ
  | none => 6
  | some w => w.rank

def Producer.rank (items : UInt64) : Producer → ℕ
  | .ended _ => 0
  | .leave _ => 1
  | .enqueue n => 4 * (items.toNat - n.toNat) + 1
  | .check n => 4 * (items.toNat - n.toNat) + 2
  | .asleep n _ => 4 * (items.toNat - n.toNat) + 3
  | .rest n => 4 * (items.toNat - n.toNat) + 4

def producerRank (items : UInt64) : Option ProducerThread → ℕ
  | none => 4 * items.toNat + 4
  | some (.running p) => p.rank items + 1
  | some (.gone _) => 0

/-- How far a consumer has to go that sees no producer left, if the queue holds no more items. -/
def Consumer.Phase.rank : Consumer.Phase → ℕ
  | .ended | .panicked => 0
  | .leave => 1
  | .poll true => 2
  | .look => 3
  | .asleep _ => 4
  | .rest | .idle => 5
  | .poll false => 6

/-- The caller has not given up for want of room, which would leave all producers counted. -/
def Caller.Roomy (n : ℕ) : Caller → Prop
  | .close _ _ o | .dismiss o | .joinWatchdog o | .ended o => o.pending n = 0
  | _ => True

def Asleep (alarm? : Option Instant) (now : Instant) : Prop :=
  ∃ deadline, alarm? = some deadline ∧ ¬ deadline < now

/-! ### Single steps -/

/-- A producer goes down in every step, except that it may stay asleep. -/
theorem Producer.step_rank {c : Config} {a : Arena} {p : Producer} {cancelled : Bool}
    (hs : p.Sound c.items cancelled) (hne : ∀ exit, p ≠ .ended exit) (id : ℕ) (word : UInt64) :
    (p.step c id word a).2.rank c.items < p.rank c.items ∨
      (p.step c id word a).2 = p ∧ Asleep p.alarm? a.now := by
  cases p with
  | check n =>
    refine .inl ?_
    simp only [step]
    split <;> simp only [rank] <;> omega
  | enqueue n =>
    refine .inl ?_
    have hlt : n < c.items := hs
    rw [UInt64.lt_iff_toNat_lt] at hlt
    have hmax := c.items.toNat_lt
    have hnext : (n + 1).toNat = n.toNat + 1 := by
      simp only [UInt64.toNat_add, UInt64.reduceToNat]
      omega
    simp only [step, rank, hnext]
    omega
  | rest n =>
    refine .inl ?_
    rw [step_rest]
    cases a.pause (jitter c.produceDelay word) <;> simp only [ofPause, rank] <;> omega
  | asleep n deadline =>
    simp only [step]
    by_cases hw : a.wakes deadline
    · rw [if_pos hw]
      exact .inl (Nat.lt_succ_self _)
    · rw [if_neg hw]
      refine .inr ⟨rfl, deadline, rfl, fun hlt => hw ?_⟩
      simp [Arena.wakes, hlt]
  | leave n => exact .inl Nat.one_pos
  | ended exit => exact absurd rfl (hne exit)

/-- A consumer that sees no producer left goes down with the queue, except that it may stay asleep
or have ended. -/
theorem Consumer.advance_rank {a : Arena} (hq : a.queue.Sound) (hl : a.live = 0) (cfg : Config)
    (id : ℕ) (word : UInt64) (c : Consumer) :
    7 * (c.advance cfg id word a).1.queue.toList.length +
        (c.advance cfg id word a).2.phase.rank < 7 * a.queue.toList.length + c.phase.rank ∨
      ((c.advance cfg id word a).1.queue.toList.length = a.queue.toList.length ∧
        (c.advance cfg id word a).2 = c) ∧ (c.exit?.isSome ∨ Asleep c.alarm? a.now) := by
  obtain ⟨phase, items⟩ := c
  have hpause : ∀ pause : Pause, (Phase.ofPause pause).rank < 5 := by
    intro pause
    cases pause <;> simp only [Phase.ofPause, Phase.rank] <;> omega
  cases phase with
  | look =>
    refine .inl ?_
    simp only [advance, step, hl, decide_true, Phase.rank]
    omega
  | poll drained =>
    refine .inl ?_
    obtain ⟨queue, stop, live, now, log⟩ := a
    simp only [advance, step]
    rcases hq.dequeue_cases with ⟨queue', hd, g, hnil, hnil'⟩ | ⟨queue', item, hd, g, hlist⟩
    · simp only at hd hnil
      simp only [hd, hnil, hnil']
      cases drained <;> decide
    · simp only at hd hlist
      simp only [hd, hlist, Arena.record, List.length_cons]
      cases drained <;> simp only [Phase.rank] <;> omega
  | rest => exact .inl (Nat.add_lt_add_left (hpause _) _)
  | idle => exact .inl (Nat.add_lt_add_left (hpause _) _)
  | asleep deadline =>
    by_cases hw : a.wakes deadline
    · have hstep : advance cfg id word a ⟨.asleep deadline, items⟩ = (a, ⟨.look, items⟩) := by
        simp only [advance, step, if_pos hw]
      rw [hstep]
      exact .inl (Nat.lt_succ_self _)
    · have hstep :
          advance cfg id word a ⟨.asleep deadline, items⟩ = (a, ⟨.asleep deadline, items⟩) := by
        simp only [advance, step, if_neg hw]
      rw [hstep]
      refine .inr ⟨⟨rfl, rfl⟩, .inr ⟨deadline, rfl, fun hlt => hw ?_⟩⟩
      simp [Arena.wakes, hlt]
  | leave => exact .inl (Nat.lt_succ_self _)
  | ended => exact .inr ⟨⟨rfl, rfl⟩, .inl rfl⟩
  | panicked => exact .inr ⟨⟨rfl, rfl⟩, .inl rfl⟩

namespace Race

variable {s : Setup} {r r' : Race} {l : Label} {c c' : Caller}

theorem Watches.rank_lt {v w : Watchdog} (h : Watches s r v w) : w.rank < v.rank := by
  cases h with
  | told hv => rcases hv with rfl | ⟨deadline, rfl⟩ <;> exact Nat.succ_pos _
  | timesOut hf hv => rcases hv with rfl | ⟨deadline, rfl, -⟩ <;> exact Nat.lt_succ_self _
  | _ => simp only [Watchdog.rank, Nat.reduceLT]

theorem Passes.rank_lt (h : Passes s r c c')
    (hh : c.Hired s.config.consumers.val s.config.producers.val r.consumers.size
      r.producers.size) :
    c'.rank s.config.consumers.val s.config.producers.val <
      c.rank s.config.consumers.val s.config.producers.val := by
  cases h with
  | producerJoined h =>
    have hlt := (Array.getElem?_eq_some_iff.mp h).1
    have hn : r.producers.size = s.config.producers.val := hh.2
    simp only [Caller.rank, List.length_append, List.length_singleton]
    omega
  | consumerJoined h he =>
    have hlt := (Array.getElem?_eq_some_iff.mp h).1
    have hm : r.consumers.size = s.config.consumers.val := hh.1
    simp only [Caller.rank, List.length_append, List.length_singleton]
    omega
  | _ =>
    simp only [Caller.rank, List.length_nil]
    omega

/-- In every turn the caller goes down, or it is not the caller's turn, or the caller cannot go on.
Only a caller that goes down creates threads. -/
theorem Turn.caller_rank (ht : Turn s r l r') (hn : r.Counted s) :
    r'.caller.rank s.config.consumers.val s.config.producers.val <
        r.caller.rank s.config.consumers.val s.config.producers.val ∨
      (r'.caller = r.caller ∧ r'.consumers.size = r.consumers.size ∧
        r'.producers.size = r.producers.size) ∧ (l = .caller → Stuck s r .caller) := by
  obtain ⟨arena, finished, caller, watchdog, consumers, producers, created⟩ := r
  cases ht with
  | stay h => exact .inr ⟨⟨rfl, rfl, rfl⟩, fun hl => hl ▸ h⟩
  | tick => exact .inr ⟨⟨rfl, rfl, rfl⟩, nofun⟩
  | cancel => exact .inr ⟨⟨rfl, rfl, rfl⟩, nofun⟩
  | watch => exact .inr ⟨⟨rfl, rfl, rfl⟩, nofun⟩
  | expire => exact .inr ⟨⟨rfl, rfl, rfl⟩, nofun⟩
  | consumer hc word => exact .inr ⟨⟨rfl, Array.size_setIfInBounds .., rfl⟩, nofun⟩
  | producer hp hne word => exact .inr ⟨⟨rfl, rfl, Array.size_setIfInBounds ..⟩, nofun⟩
  | retire hp word => exact .inr ⟨⟨rfl, rfl, Array.size_setIfInBounds ..⟩, nofun⟩
  | pass hp log => exact .inl (hp.rank_lt hn.hired)
  | _ =>
    subst_vars
    refine .inl ?_
    simp only [Caller.rank]
    omega

/-- In every turn the watchdog goes down, or it is not its turn, or it has ended or sleeps. -/
theorem Turn.watchdog_rank (ht : Turn s r l r') (hw : r.caller.Watched s.timeout r.watchdog) :
    watchdogRank r'.watchdog < watchdogRank r.watchdog ∨
      r'.watchdog = r.watchdog ∧ (l = .watchdog → (∀ w, r.watchdog = some w → w.Over) ∨
        Asleep (r.watchdog.bind Watchdog.alarm?) r.arena.now) := by
  cases ht with
  | stay h =>
    refine .inr ⟨rfl, fun hl => ?_⟩
    subst hl
    cases h with
    | noWatchdog h =>
      refine .inl fun w hsome => ?_
      rw [hsome] at h hw
      rcases h with h | h
      · cases h
      · rw [h] at hw
        exact hw.over
    | watchdogSleeps h hd =>
      rw [h]
      exact .inr ⟨_, rfl, hd⟩
    | watchdogOver h hover =>
      rw [h]
      exact .inl fun w hsome => Option.some.inj hsome ▸ hover
  | watch h hv log =>
    rw [h]
    exact .inl hv.rank_lt
  | expire h =>
    rw [h]
    exact .inl Nat.one_pos
  | hireWatchdog hc hf =>
    rw [hc] at hw
    rw [hw.2]
    exact .inl (Nat.lt_succ_self _)
  | _ => exact .inr ⟨rfl, nofun⟩

/-- In every turn a producer goes down, or it is not its turn, or it is gone or sleeps. -/
theorem Turn.producer_rank (ht : Turn s r l r') (hd : r.Disciplined s) (i : ℕ) :
    producerRank s.config.items r'.producers[i]? < producerRank s.config.items r.producers[i]? ∨
      r'.producers[i]? = r.producers[i]? ∧ ((∃ word, l = .producer i word) →
        (∀ p, r.producers[i]? ≠ some (.running p)) ∨
          Asleep (r.producers[i]?.bind ProducerThread.alarm?) r.arena.now) := by
  cases ht with
  | stay h =>
    refine .inr ⟨rfl, fun ⟨word, hl⟩ => ?_⟩
    subst hl
    cases h with
    | noProducer h => exact .inl h
  | hireProducer hc hi hf =>
    simp only [Array.getElem?_push]
    split
    · subst i
      rw [Array.getElem?_eq_none (Nat.le_refl _)]
      exact .inl (Nat.lt_succ_self _)
    · exact .inr ⟨rfl, nofun⟩
  | @producer j p hp hne word =>
    simp only [getElem?_set hp]
    split
    · subst j
      rw [hp]
      have hs : p.Sound s.config.items r.arena.stop.cancelled := hd hp
      rcases Producer.step_rank hs hne i word with hless | ⟨hsame, hasleep⟩
      · exact .inl (Nat.succ_lt_succ hless)
      · rw [hsame]
        exact .inr ⟨rfl, fun _ => .inr hasleep⟩
    · rename_i hij
      exact .inr ⟨rfl, fun ⟨word', hl⟩ => absurd (Label.producer.inj hl).1 hij⟩
  | @retire j exit hp word =>
    simp only [getElem?_set hp]
    split
    · subst j
      rw [hp]
      exact .inl (Nat.succ_pos _)
    · rename_i hij
      exact .inr ⟨rfl, fun ⟨word', hl⟩ => absurd (Label.producer.inj hl).1 hij⟩
  | _ => exact .inr ⟨rfl, nofun⟩

/-- A consumer, and how many items are left for it. -/
def load (r : Race) (i : ℕ) : Option Consumer × ℕ := (r.consumers[i]?, r.arena.queue.toList.length)

def loadRank (x : Option Consumer × ℕ) : ℕ := 7 * x.2 + x.1.elim 0 (·.phase.rank)

/-- When all producers are gone, a consumer goes down in every turn, or it is not its turn, or it
has ended or sleeps. -/
theorem Turn.consumer_rank (ht : Turn s r l r') (hq : r.arena.queue.Sound) (hl : r.arena.live = 0)
    (hg : ∀ (i : ℕ) (p : Producer), r.producers[i]? ≠ some (.running p))
    (hsize : r'.consumers.size = r.consumers.size) (i : ℕ) :
    loadRank (r'.load i) < loadRank (r.load i) ∨
      r'.load i = r.load i ∧ ((∃ word, l = .consumer i word) →
        (∀ c, (r.load i).1 = some c → c.exit?.isSome) ∨
          Asleep ((r.load i).1.bind Consumer.alarm?) r.arena.now) := by
  cases ht with
  | stay h =>
    refine .inr ⟨rfl, fun ⟨word, hl⟩ => ?_⟩
    subst hl
    cases h with
    | noConsumer h => exact .inl fun c hc => nomatch h.symm.trans hc
  | hireConsumer hc hi hf =>
    rw [Array.size_push] at hsize
    exact absurd hsize (Nat.succ_ne_self _)
  | @consumer j c hc word =>
    by_cases hij : j = i
    · subst j
      have hstep := Consumer.advance_rank hq hl s.config i word c
      simp only [load, loadRank, getElem?_set hc, reduceIte, hc, Option.elim_some]
      rcases hstep with hless | ⟨⟨hlen, hsame⟩, hwait⟩
      · exact .inl hless
      · refine .inr ⟨by rw [hlen, hsame], fun _ => hwait.imp_left fun he c' hc' => ?_⟩
        exact Option.some.inj hc' ▸ he
    · have ho := Consumer.advance_outcome hq s.config j word c
      simp only [load, loadRank, getElem?_set hc, if_neg hij]
      rcases ho.items with ⟨-, hsame⟩ | ⟨item, hlist, -⟩
      · rw [hsame]
        exact .inr ⟨rfl, fun ⟨word', hl⟩ => absurd (Label.consumer.inj hl).1 hij⟩
      · refine .inl ?_
        rw [hlist, List.length_cons]
        omega
  | producer hp hne word => exact absurd hp (hg _ _)
  | retire hp word => exact absurd hp (hg _ _)
  | _ => exact .inr ⟨rfl, nofun⟩

/-! ### Room for the list of producers -/

theorem Passes.roomy (h : Passes s r c c') (hcap : s.config.producers.val ≤ maxProducers)
    (hc : c.Roomy s.config.producers.val) : c'.Roomy s.config.producers.val := by
  cases h with
  | tooMany hn => exact absurd hcap hn
  | closed => exact hc
  | unwatchedEnd => exact hc
  | untold => exact hc
  | watchdogJoined => exact hc
  | unwatched => exact rfl
  | producerPanicked => exact rfl
  | consumerPanicked => exact rfl
  | overflowed => exact rfl
  | summarized => exact rfl
  | unjoinedPanicked => exact rfl
  | watchdogPanicked => exact rfl
  | _ => trivial

theorem Turn.roomy (ht : Turn s r l r') (hcap : s.config.producers.val ≤ maxProducers)
    (h : r.caller.Roomy s.config.producers.val) : r'.caller.Roomy s.config.producers.val := by
  cases ht with
  | pass hp log => exact hp.roomy hcap h
  | hireWatchdog => trivial
  | announce => trivial
  | hireConsumer => trivial
  | disarm => exact rfl
  | hireProducer => trivial
  | cancelRest => trivial
  | uncountRest => exact rfl
  | tell hc ht ho =>
    rw [hc] at h
    exact h
  | _ => exact h

theorem run_roomy (hcap : s.config.producers.val ≤ maxProducers) (queue : Chain Item)
    (stop : StopToken) (schedule : List Label) :
    ((start s queue stop).run s schedule).caller.Roomy s.config.producers.val := by
  refine run_induction (P := fun r => r.caller.Roomy _) (fun h ht => ht.roomy hcap h) ?_ schedule
  simp only [start]
  split <;> trivial

theorem Stuck.pending_eq_zero (h : Stuck s r .caller)
    (hr : r.caller.Roomy s.config.producers.val) :
    r.caller.pending s.config.producers.val = 0 := by
  cases h with
  | producerRuns h =>
    rw [h]
    rfl
  | consumerRuns h =>
    rw [h]
    rfl
  | workersRun h =>
    rw [h] at hr ⊢
    exact hr
  | watchdogRuns h =>
    rw [h] at hr ⊢
    exact hr
  | returned h =>
    rw [h] at hr ⊢
    exact hr

/-! ### Coming to rest -/

/-- What holds of every number in the end holds of finitely many numbers at once. -/
theorem eventually_forall_lt {p : ℕ → ℕ → Prop} (m : ℕ) (h : ∀ i, ∀ᶠ k in atTop, p i k) :
    ∀ᶠ k in atTop, ∀ i < m, p i k :=
  (eventually_all_finite (Set.finite_lt_nat m)).mpr fun i _ => h i

section
variable {initial : List Item} {σ : ℕ → Label} (h : Fair s r σ)
  (ho : ∀ k, (r.after s σ k).Orderly s initial)

include h ho

/-- A thread that goes down in its turns, unless it has ended or sleeps, comes to its end. -/
theorem Fair.eventually_done {α : Type*} (x : ℕ → α) (rank : α → ℕ) (turns : ℕ → Prop)
    (done : α → Prop) (alarm? : α → Option Instant)
    (hrank : ∀ᶠ k in atTop, rank (x (k + 1)) < rank (x k) ∨ x (k + 1) = x k ∧
      (turns k → done (x k) ∨ Asleep (alarm? (x k)) (r.after s σ k).arena.now))
    (hturns : ∀ k, done (x k) ∨ ∃ᶠ m in atTop, turns m) : ∀ᶠ k in atTop, done (x k) := by
  obtain ⟨c, hc⟩ := eventually_const_of_rank rank (hrank.mono fun k hk => hk.symm.imp_left (·.1))
  by_cases hdone : done c
  · exact hc.mono fun k hk => hk.symm ▸ hdone
  · exfalso
    obtain ⟨k, hk⟩ := hc.exists
    have hoften := (hturns k).resolve_left (hk.symm ▸ hdone)
    have hawake : ∀ᶠ m in atTop, ¬ Asleep (alarm? c) (r.after s σ m).arena.now := by
      cases ha : alarm? c with
      | none => exact .of_forall fun m ⟨deadline, hd, _⟩ => nomatch hd
      | some time =>
        refine (h.eventually_lt_now (fun n => (ho n).queue) time).mono fun m hm => ?_
        rintro ⟨deadline, hd, hnot⟩
        exact hnot (Option.some.inj hd ▸ hm)
    obtain ⟨m, hturn, ⟨hawake, hm⟩, hx, hx'⟩ := exists_rest hc hoften (hawake.and hrank)
    rw [hx, hx'] at hm
    rcases hm with hless | ⟨-, hwait⟩
    · exact Nat.lt_irrefl _ hless
    · exact (hwait hturn).elim hdone hawake

/-- The caller comes to a point at which it cannot go on, and nobody is created any more. -/
theorem Fair.caller_rests :
    ∃ m n, (∀ᶠ k in atTop, (r.after s σ k).consumers.size = m ∧ (r.after s σ k).producers.size = n) ∧
      ∃ c, (∀ᶠ k in atTop, (r.after s σ k).caller = c) ∧
        ∃ᶠ k in atTop, Stuck s (r.after s σ k) .caller := by
  have hrank := fun k => (after_turn s r σ k).caller_rank (ho k).counted
  obtain ⟨c, hc⟩ := eventually_const_of_rank (x := fun k => (r.after s σ k).caller)
    (Caller.rank _ _) (.of_forall fun k => (hrank k).symm.imp_left (·.1.1))
  have hwaits : ∀ᶠ k in atTop, ((r.after s σ (k + 1)).consumers.size =
        (r.after s σ k).consumers.size ∧
      (r.after s σ (k + 1)).producers.size = (r.after s σ k).producers.size) ∧
      (σ k = .caller → Stuck s (r.after s σ k) .caller) := by
    filter_upwards [hc, (tendsto_add_atTop_nat 1).eventually hc] with k hk hk'
    rcases hrank k with hless | ⟨⟨-, hsizes⟩, hstuck⟩
    · rw [hk, hk'] at hless
      exact absurd hless (Nat.lt_irrefl _)
    · exact ⟨hsizes, hstuck⟩
  obtain ⟨⟨m, n⟩, hsizes⟩ := eventually_const_of_rank
    (x := fun k => ((r.after s σ k).consumers.size, (r.after s σ k).producers.size)) (fun _ => 0)
    (hwaits.mono fun k hk => .inl (Prod.ext hk.1.1 hk.1.2))
  exact ⟨m, n, hsizes.mono fun k hk => ⟨congrArg Prod.fst hk, congrArg Prod.snd hk⟩, c, hc,
    (h.caller.and_eventually hwaits).mono fun k hk => hk.2.2 hk.1⟩

theorem Fair.watchdog_over :
    ∀ᶠ k in atTop, ∀ w, (r.after s σ k).watchdog = some w → w.Over := by
  refine h.eventually_done ho (fun k => (r.after s σ k).watchdog) watchdogRank (σ · = .watchdog)
    (fun x => ∀ w, x = some w → w.Over) (·.bind Watchdog.alarm?)
    (.of_forall fun k => (after_turn s r σ k).watchdog_rank (ho k).watched) fun k => ?_
  cases hw : (r.after s σ k).watchdog with
  | none => exact .inl nofun
  | some w => exact .inr (h.watchdog k (by rw [hw]; rfl))

theorem Fair.producer_gone (i : ℕ) :
    ∀ᶠ k in atTop, ∀ p, (r.after s σ k).producers[i]? ≠ some (.running p) := by
  refine h.eventually_done ho (fun k => (r.after s σ k).producers[i]?)
    (producerRank s.config.items) (fun k => ∃ word, σ k = .producer i word)
    (fun x => ∀ p, x ≠ some (.running p)) (·.bind ProducerThread.alarm?)
    (.of_forall fun k => (after_turn s r σ k).producer_rank (ho k).disciplined i) fun k => ?_
  by_cases hi : i < (r.after s σ k).producers.size
  · exact .inr (h.producer k i hi)
  · refine .inl fun p => ?_
    rw [Array.getElem?_eq_none (Nat.not_lt.mp hi)]
    exact nofun

theorem Fair.producers_gone :
    ∀ᶠ k in atTop, ∀ (i : ℕ) (p : Producer),
      (r.after s σ k).producers[i]? ≠ some (.running p) := by
  obtain ⟨m, n, hsizes, -⟩ := h.caller_rests ho
  filter_upwards [hsizes, eventually_forall_lt n (h.producer_gone ho)] with k hk hgone i p hp
  exact hgone i (hk.2 ▸ (Array.getElem?_eq_some_iff.mp hp).1) p hp

theorem Fair.eventually_live_eq_zero
    (hr : ∀ k, (r.after s σ k).caller.Roomy s.config.producers.val) :
    ∀ᶠ k in atTop, (r.after s σ k).arena.live = 0 := by
  obtain ⟨m, n, -, c, hc, hstuck⟩ := h.caller_rests ho
  have hpending : c.pending s.config.producers.val = 0 := by
    obtain ⟨k, hstuck, rfl⟩ := (hstuck.and_eventually hc).exists
    exact hstuck.pending_eq_zero (hr k)
  filter_upwards [hc, h.producers_gone ho] with k hk hgone
  exact (ho k).counted.live_eq_zero (hk ▸ hpending) hgone

theorem Fair.consumer_exited
    (hr : ∀ k, (r.after s σ k).caller.Roomy s.config.producers.val) (i : ℕ) :
    ∀ᶠ k in atTop, ∀ c, (r.after s σ k).consumers[i]? = some c → c.exit?.isSome := by
  obtain ⟨m, n, hsizes, -⟩ := h.caller_rests ho
  refine h.eventually_done ho (fun k => (r.after s σ k).load i) loadRank
    (fun k => ∃ word, σ k = .consumer i word) (fun x => ∀ c, x.1 = some c → c.exit?.isSome)
    (·.1.bind Consumer.alarm?) ?_ fun k => ?_
  · filter_upwards [hsizes, (tendsto_add_atTop_nat 1).eventually hsizes,
      h.producers_gone ho, h.eventually_live_eq_zero ho hr] with k hk hk' hgone hlive
    exact (after_turn s r σ k).consumer_rank (ho k).queue hlive hgone (hk'.1.trans hk.1.symm) i
  · by_cases hi : i < (r.after s σ k).consumers.size
    · exact .inr (h.consumer k i hi)
    · refine .inl fun c hc => ?_
      rw [load, Array.getElem?_eq_none (Nat.not_lt.mp hi)] at hc
      cases hc

theorem Fair.allGone
    (hr : ∀ k, (r.after s σ k).caller.Roomy s.config.producers.val) :
    ∀ᶠ k in atTop, (r.after s σ k).allGone := by
  obtain ⟨m, n, hsizes, -⟩ := h.caller_rests ho
  filter_upwards [hsizes, h.producers_gone ho, eventually_forall_lt m (h.consumer_exited ho hr)]
    with k hk hgone hexited
  refine allGone_iff.mpr ⟨fun i th hi => ?_, fun i c hi => ?_⟩
  · cases th with
    | running p => exact absurd hi (hgone i p)
    | gone exit => exact ⟨exit, rfl⟩
  · have hlt := (Array.getElem?_eq_some_iff.mp hi).1
    exact Option.isSome_iff_exists.mp (hexited i (hk.1 ▸ hlt) c hi)

end

theorem Stuck.ended (h : Stuck s r .caller) (hg : r.allGone)
    (ho : ∀ w, r.watchdog = some w → w.Over) (hw : r.caller.Watched s.timeout r.watchdog) :
    r.outcome?.isSome := by
  obtain ⟨hproducers, hconsumers⟩ := allGone_iff.mp hg
  cases h with
  | producerRuns h hp =>
    obtain ⟨exit, he⟩ := hproducers _ _ hp
    cases he
  | consumerRuns h hc he =>
    obtain ⟨exit, he'⟩ := hconsumers _ _ hc
    rw [he] at he'
    cases he'
  | workersRun h hn => exact absurd hg hn
  | watchdogRuns h hn =>
    rw [h] at hw
    obtain ⟨w, hsome⟩ := Option.isSome_iff_exists.mp hw.2
    exact absurd (ho w hsome) (hn w hsome)
  | returned h =>
    rw [outcome?, h]
    rfl

/-- A fair run ends. -/
theorem Fair.ends {queue : Chain Item} {stop : StopToken} {σ : ℕ → Label}
    (h : Fair s (start s queue stop) σ) (hq : queue.Sound)
    (hcap : s.config.producers.val ≤ maxProducers) :
    ∃ n, ((start s queue stop).after s σ n).outcome?.isSome := by
  have ho := fun k => run_orderly s hq stop ((List.range k).map σ)
  have hr := fun k => run_roomy hcap queue stop ((List.range k).map σ)
  obtain ⟨m, n, -, c, -, hstuck⟩ := h.caller_rests ho
  obtain ⟨k, hstuck, hg, hover⟩ :=
    (hstuck.and_eventually ((h.allGone ho hr).and (h.watchdog_over ho))).exists
  exact ⟨k, hstuck.ended hg hover (ho k).watched⟩

end Race

end QueueRace
