import QueueRace.Proofs.Race.Turn
import QueueRace.Proofs.Race.Worker
import QueueRace.Proofs.Table

/-! The count of live producers. It is the number of producers that are running or still to be
created, at every moment and on every way out of a run, so it does not wrap and does not come back
from zero. A consumer that has read zero can rely on it: nothing is enqueued any more, and a queue
that is found empty stays empty. -/

namespace QueueRace

/-! ### Who has been created -/

namespace Outcome

/-- The producers that stay counted for ever, although they are never created: nobody is there to
take them back when the list of producers gets no room. -/
def pending (n : ℕ) : Outcome → ℕ
  | .panicked .capacity => n
  | _ => 0

/-- How many consumers and producers of `m` and `n` have been created. -/
def Hired (m n consumers producers : ℕ) : Outcome → Prop
  | .ok _ => consumers = m ∧ producers = n
  | .panicked .capacity => producers = 0
  | _ => producers ≤ n

theorem pending_of_ne {o : Outcome} (h : ∀ p, o ≠ .panicked p) (n : ℕ) : o.pending n = 0 := by
  cases o with
  | panicked p => exact absurd rfl (h p)
  | _ => rfl

theorem Hired.le {m n consumers producers : ℕ} {o : Outcome} (h : o.Hired m n consumers producers) :
    producers ≤ n := by
  cases o with
  | ok report => exact h.2.le
  | error e => exact h
  | panicked p =>
    cases p with
    | capacity => exact (Nat.le_of_eq h).trans (Nat.zero_le n)
    | _ => exact h

end Outcome

namespace Caller

/-- The producers that are counted although they have not been created. -/
def pending (n : ℕ) : Caller → ℕ
  | .spawnWatchdog | .announce => 0
  | .spawnConsumer _ | .disarm _ | .reserve => n
  | .spawnProducer i | .cancelRest i _ | .uncountRest i _ => n - i
  | .joinProducers _ | .joinConsumers _ _ | .summarize _ => 0
  | .close _ _ o | .dismiss o | .joinWatchdog o | .ended o => o.pending n

def Hired (m n consumers producers : ℕ) : Caller → Prop
  | .spawnWatchdog | .announce => consumers = 0 ∧ producers = 0
  | .spawnConsumer i => consumers = i ∧ i ≤ m ∧ producers = 0
  | .disarm _ => producers = 0
  | .reserve => consumers = m ∧ producers = 0
  | .spawnProducer i => consumers = m ∧ producers = i ∧ i ≤ n
  | .cancelRest i _ | .uncountRest i _ => producers = i ∧ i < n
  | .joinProducers _ | .joinConsumers _ _ | .summarize _ => consumers = m ∧ producers = n
  | .close _ _ o | .dismiss o | .joinWatchdog o | .ended o => o.Hired m n consumers producers

end Caller

theorem Outcome.Hired.pending_add_le {m n consumers producers : ℕ} {o : Outcome}
    (h : o.Hired m n consumers producers) : o.pending n + producers ≤ n := by
  cases o with
  | ok report => exact (Nat.zero_add _).trans_le h.2.le
  | error e => exact (Nat.zero_add _).trans_le h
  | panicked p =>
    cases p with
    | capacity => exact Nat.le_of_eq (congrArg (n + ·) h)
    | overflow => exact (Nat.zero_add _).trans_le h
    | scopedThread => exact (Nat.zero_add _).trans_le h

theorem Caller.Hired.pending_add_le {m n consumers producers : ℕ} {c : Caller}
    (h : c.Hired m n consumers producers) : c.pending n + producers ≤ n := by
  cases c with
  | spawnWatchdog => exact (Nat.zero_add _).trans_le (h.2.trans_le (Nat.zero_le n))
  | announce => exact (Nat.zero_add _).trans_le (h.2.trans_le (Nat.zero_le n))
  | spawnConsumer i => exact Nat.le_of_eq (congrArg (n + ·) h.2.2)
  | disarm e => exact Nat.le_of_eq (congrArg (n + ·) h)
  | reserve => exact Nat.le_of_eq (congrArg (n + ·) h.2)
  | spawnProducer i =>
    obtain ⟨-, rfl, hi⟩ := h
    exact (Nat.sub_add_cancel hi).le
  | cancelRest i e =>
    obtain ⟨rfl, hi⟩ := h
    exact (Nat.sub_add_cancel hi.le).le
  | uncountRest i e =>
    obtain ⟨rfl, hi⟩ := h
    exact (Nat.sub_add_cancel hi.le).le
  | joinProducers produced => exact (Nat.zero_add _).trans_le h.2.le
  | joinConsumers produced consumed => exact (Nat.zero_add _).trans_le h.2.le
  | summarize report => exact (Nat.zero_add _).trans_le h.2.le
  | close i j o => exact Outcome.Hired.pending_add_le h
  | dismiss o => exact Outcome.Hired.pending_add_le h
  | joinWatchdog o => exact Outcome.Hired.pending_add_le h
  | ended o => exact Outcome.Hired.pending_add_le h

namespace Race

variable {s : Setup} {r r' : Race} {l : Label} {c c' : Caller}

theorem Passes.pending_eq (h : Passes s r c c') :
    c'.pending s.config.producers.val = c.pending s.config.producers.val := by
  cases h with
  | producersReady hi =>
    simp only [Caller.pending]
    omega
  | unjoinedPanicked _ ho _ => exact (Outcome.pending_of_ne ho _).symm
  | watchdogPanicked ho => exact (Outcome.pending_of_ne ho _).symm
  | _ => rfl

theorem Passes.hired (h : Passes s r c c') {consumers producers : ℕ}
    (hh : c.Hired s.config.consumers.val s.config.producers.val consumers producers) :
    c'.Hired s.config.consumers.val s.config.producers.val consumers producers := by
  cases h with
  | unwatched => exact (Nat.le_of_eq hh.2).trans (Nat.zero_le _)
  | noConsumer hi => exact hh.2.2
  | consumersReady hi => exact ⟨hh.1.trans (Nat.le_antisymm hh.2.1 (Nat.not_lt.mp hi)), hh.2.2⟩
  | reserved => exact ⟨hh.1, hh.2, Nat.zero_le _⟩
  | tooMany => exact hh.2
  | noProducer hi => exact ⟨hh.2.1, hi⟩
  | producersReady hi => exact ⟨hh.1, hh.2.1.trans (Nat.le_antisymm hh.2.2 (Nat.not_lt.mp hi))⟩
  | producerJoined _ => exact hh
  | producerPanicked _ => exact hh.2.le
  | producersJoined _ => exact hh
  | consumerJoined _ _ => exact hh
  | consumerPanicked _ _ => exact hh.2.le
  | consumersJoined _ => exact hh
  | overflowed => exact hh.2.le
  | summarized => exact hh
  | closed _ => exact hh
  | unjoinedPanicked _ _ _ => exact hh.le
  | unwatchedEnd => exact hh
  | untold => exact hh
  | watchdogJoined => exact hh
  | watchdogPanicked _ => exact hh.le

/-! ### The law of the count -/

/-- How many producers have not been counted out. -/
def running (producers : Array ProducerThread) : ℕ := producers.countP (·.exit?.isNone)

structure Counted (s : Setup) (r : Race) : Prop where
  hired : r.caller.Hired s.config.consumers.val s.config.producers.val r.consumers.size
    r.producers.size
  live : r.arena.live.toNat = r.caller.pending s.config.producers.val + running r.producers

theorem start_counted (s : Setup) (queue : Chain Item) (stop : StopToken) :
    (start s queue stop).Counted s := by
  simp only [start]
  split
  · exact ⟨⟨rfl, rfl⟩, rfl⟩
  · exact ⟨⟨rfl, rfl⟩, rfl⟩

theorem running_eq_zero {producers : Array ProducerThread} (h : producers.size = 0) :
    running producers = 0 := by
  rw [Array.eq_empty_of_size_eq_zero h]
  rfl

theorem toNat_producers (s : Setup) :
    s.config.producers.val.toUInt64.toNat = s.config.producers.val :=
  UInt64.toNat_ofNat_of_lt' s.config.producers.lt

namespace Counted

/-- While a producer is running the count is not zero. -/
theorem live_pos (h : r.Counted s) {i : ℕ} {p : Producer}
    (hp : r.producers[i]? = some (.running p)) : 0 < r.arena.live.toNat := by
  have hpos : 0 < running r.producers :=
    Array.countP_pos_iff.mpr ⟨_, Array.mem_of_getElem? hp, rfl⟩
  have := h.live
  omega

theorem live_ne_zero (h : r.Counted s) {i : ℕ} {p : Producer}
    (hp : r.producers[i]? = some (.running p)) : r.arena.live ≠ 0 := by
  intro h0
  have := h.live_pos hp
  rw [h0] at this
  exact absurd this (Nat.lt_irrefl 0)

theorem live_le (h : r.Counted s) : r.arena.live.toNat ≤ s.config.producers.val := by
  have hrun : running r.producers ≤ r.producers.size := Array.countP_le_size
  have hhired := h.hired.pending_add_le
  rw [h.live]
  omega

/-- Where nobody is running or still to be created, the count is zero. -/
theorem live_eq_zero (h : r.Counted s) (hp : r.caller.pending s.config.producers.val = 0)
    (hg : ∀ (i : ℕ) (p : Producer), r.producers[i]? ≠ some (.running p)) : r.arena.live = 0 := by
  have hrunning : running r.producers = 0 := by
    rw [running, Array.countP_eq_zero]
    intro th hth
    obtain ⟨i, hi⟩ := Array.mem_iff_getElem?.mp hth
    cases th with
    | running p => exact absurd hi (hg i p)
    | gone exit => exact Bool.false_ne_true
  have hlive := h.live
  rw [hp, hrunning] at hlive
  exact UInt64.toNat_inj.mp hlive

theorem turn (h : r.Counted s) (hq : r.arena.queue.Sound) (ht : Turn s r l r') : r'.Counted s := by
  have hlive := h.live
  have hhired := h.hired
  cases ht with
  | stay => exact h
  | tick now => exact ⟨hhired, hlive⟩
  | cancel => exact ⟨hhired, hlive⟩
  | watch h hw log => exact ⟨hhired, hlive⟩
  | expire h => exact ⟨hhired, hlive⟩
  | pass hp log => exact ⟨hp.hired hhired, by rw [hp.pending_eq]; exact hlive⟩
  | hireWatchdog hc hf =>
    rw [hc] at hhired hlive
    exact ⟨hhired, hlive⟩
  | tell hc ht ho =>
    rw [hc] at hhired hlive
    exact ⟨hhired, hlive⟩
  | announce hc log =>
    rw [hc] at hhired
    refine ⟨⟨hhired.1, Nat.zero_le _, hhired.2⟩, (toNat_producers s).trans ?_⟩
    simp only [Caller.pending, running_eq_zero hhired.2, Nat.add_zero]
  | hireConsumer hc hi =>
    rw [hc] at hhired hlive
    refine ⟨⟨?_, hi, hhired.2.2⟩, hlive⟩
    simp [hhired.1]
  | disarm hc =>
    rw [hc] at hhired
    refine ⟨(Nat.le_of_eq hhired).trans (Nat.zero_le _), ?_⟩
    simp only [Caller.pending, Outcome.pending, running_eq_zero hhired]
    rfl
  | hireProducer hc hi =>
    rw [hc] at hhired hlive
    obtain ⟨hm, hs, -⟩ := hhired
    refine ⟨⟨hm, by simp [hs], hi⟩, hlive.trans ?_⟩
    simp only [Caller.pending, running, Array.countP_push, ProducerThread.exit?, Option.isNone_none,
      if_true]
    omega
  | cancelRest hc =>
    rw [hc] at hhired hlive
    exact ⟨hhired, hlive⟩
  | @uncountRest i e hc =>
    rw [hc] at hhired hlive
    obtain ⟨hs, hi⟩ := hhired
    have hlt := s.config.producers.lt
    have hrest : (s.config.producers.val - i).toUInt64.toNat = s.config.producers.val - i :=
      UInt64.toNat_ofNat_of_lt' (by omega)
    refine ⟨(Nat.le_of_eq hs).trans (Nat.le_of_lt hi), ?_⟩
    have hle : (s.config.producers.val - i).toUInt64 ≤ r.arena.live := by
      rw [UInt64.le_iff_toNat_le, hrest, hlive]
      exact Nat.le_add_right _ _
    show (r.arena.live - (s.config.producers.val - i).toUInt64).toNat = 0 + running r.producers
    rw [UInt64.toNat_sub_of_le _ _ hle, hrest, hlive, Caller.pending]
    omega
  | @consumer i c hc word =>
    have ho := Consumer.advance_outcome hq s.config i word c
    refine ⟨by simpa using hhired, ?_⟩
    rw [ho.live]
    exact hlive
  | @producer i p hp hne word =>
    have ho := Producer.step_outcome hq s.config i word p
    have hsame : running (r.producers.setIfInBounds i (.running (p.step s.config i word r.arena).2)) + 1 =
        running r.producers + 1 := countP_setIfInBounds hp _ _
    refine ⟨by simpa using hhired, ?_⟩
    rw [ho.live, hlive]
    exact congrArg _ (Nat.add_right_cancel hsame).symm
  | @retire i exit hp =>
    have hless : running (r.producers.setIfInBounds i (.gone exit)) + 1 = running r.producers + 0 :=
      countP_setIfInBounds hp (.gone exit) _
    have hpos : (1 : UInt64) ≤ r.arena.live := UInt64.le_iff_toNat_le.mpr (h.live_pos hp)
    refine ⟨by simpa using hhired, ?_⟩
    rw [UInt64.toNat_sub_of_le _ _ hpos, hlive]
    simp only [UInt64.reduceToNat]
    omega

end Counted

/-! ### Reading zero -/

/-- What the consumers have come to rely on. -/
def Settled (r : Race) : Prop :=
  ∀ ⦃i : ℕ⦄ ⦃c : Consumer⦄, r.consumers[i]? = some c →
    c.phase.Settled r.arena.live r.arena.queue.toList

theorem start_settled (s : Setup) (queue : Chain Item) (stop : StopToken) :
    (start s queue stop).Settled := by
  intro i c hc
  simp [start] at hc

/-- The consumers can rely on what they have seen, if zero stays zero and empty stays empty. -/
theorem Settled.mono (h : r.Settled) (hc : r'.consumers = r.consumers)
    (hl : r.arena.live = 0 → r'.arena.live = 0)
    (hq : r.arena.live = 0 → r.arena.queue.toList = [] → r'.arena.queue.toList = []) :
    r'.Settled := by
  intro i c hi
  rw [hc] at hi
  exact (h hi).mono hl hq

theorem Settled.turn (h : r.Settled) (hn : r.Counted s) (hq : r.arena.queue.Sound)
    (ht : Turn s r l r') : r'.Settled := by
  have hhired := hn.hired
  have hlive := hn.live
  cases ht with
  | stay => exact h
  | tick now => exact h.mono rfl id fun _ => id
  | cancel => exact h.mono rfl id fun _ => id
  | watch h' hw log => exact h.mono rfl id fun _ => id
  | expire h' => exact h.mono rfl id fun _ => id
  | pass hp log => exact h.mono rfl id fun _ => id
  | hireWatchdog hc hf => exact h.mono rfl id fun _ => id
  | tell hc ht ho => exact h.mono rfl id fun _ => id
  | announce hc log =>
    -- there is no consumer yet
    rw [hc] at hhired
    intro i c hi
    simp [Array.eq_empty_of_size_eq_zero hhired.1] at hi
  | hireConsumer hc hi =>
    intro i c hi
    rw [Array.getElem?_push] at hi
    split at hi
    · obtain rfl := Option.some.inj hi
      trivial
    · exact h hi
  | disarm hc => exact h.mono rfl (fun _ => rfl) fun _ => id
  | hireProducer hc hi => exact h.mono rfl id fun _ => id
  | cancelRest hc => exact h.mono rfl id fun _ => id
  | @uncountRest i e hc =>
    -- the producers that are not created yet are still counted
    rw [hc] at hhired hlive
    have hpos : r.arena.live ≠ 0 := by
      intro h0
      have hi := hhired.2
      rw [h0, Caller.pending, UInt64.toNat_zero] at hlive
      omega
    exact h.mono rfl (fun h0 => absurd h0 hpos) fun _ => id
  | @consumer i c hc word =>
    have ho := Consumer.advance_outcome hq s.config i word c
    have hempty : r.arena.queue.toList = [] →
        (c.advance s.config i word r.arena).1.queue.toList = [] := by
      intro hnil
      rcases ho.items with ⟨-, hsame⟩ | ⟨item, hlist, -⟩
      · rw [hsame, hnil]
      · rw [hnil] at hlist
        cases hlist
    intro j d hj
    rw [ho.live]
    rw [getElem?_set hc] at hj
    split at hj
    · obtain rfl := Option.some.inj hj
      exact ho.settled (h hc)
    · exact (h hj).mono id fun _ => hempty
  | @producer i p hp hne word =>
    have hpos := hn.live_ne_zero hp
    have ho := Producer.step_outcome hq s.config i word p
    exact h.mono rfl (fun h0 => absurd h0 hpos) fun h0 => absurd h0 hpos
  | retire hp =>
    have hpos := hn.live_ne_zero hp
    exact h.mono rfl (fun h0 => absurd h0 hpos) fun _ => id

end Race

end QueueRace
