import QueueRace.Proofs.Race.Live
import QueueRace.Proofs.Report.Shares

/-! Where the items of a run come from and where they go. At every moment the items that were in
the queue at the start, followed by those the producers have enqueued, are the items that have
been dequeued, followed by those still in the queue. What a consumer holds is its share of the
former, and what a producer has enqueued is the beginning of its sequence. -/

namespace QueueRace

namespace ProducerThread

/-- The producer that a thread runs, or has run to its end. -/
def state : ProducerThread → Producer
  | .running p => p
  | .gone exit => .ended exit

end ProducerThread

namespace Race

variable {s : Setup} {r r' : Race} {l : Label}

/-! ### Threads that have ended -/

theorem Turn.queue_grew (ht : Turn s r l r') (hq : r.arena.queue.Sound) :
    r.arena.queue.Grew r'.arena.queue := by
  cases ht with
  | consumer hc word => exact (Consumer.advance_outcome hq _ _ word _).grew
  | producer hp hne word => exact (Producer.step_outcome hq _ _ word _).grew
  | _ => exact .refl _

theorem Turn.now_le (ht : Turn s r l r') (hq : r.arena.queue.Sound) : r.arena.now ≤ r'.arena.now := by
  cases ht with
  | tick span => exact Nat.le_add_right _ span
  | consumer hc word => exact Nat.le_of_eq (Consumer.advance_outcome hq _ _ word _).now.symm
  | producer hp hne word => exact Nat.le_of_eq (Producer.step_outcome hq _ _ word _).now.symm
  | _ => exact Nat.le_refl _

/-- A producer that is gone stays gone. -/
theorem Turn.gone (ht : Turn s r l r') {i : ℕ} {exit : Exit UInt64}
    (h : r.producers[i]? = some (.gone exit)) : r'.producers[i]? = some (.gone exit) := by
  have hset : ∀ {j : ℕ} {p : Producer} (th : ProducerThread),
      r.producers[j]? = some (.running p) →
        (r.producers.setIfInBounds j th)[i]? = some (.gone exit) := by
    intro j p th hj
    rw [Array.getElem?_setIfInBounds_ne, h]
    rintro rfl
    rw [h] at hj
    cases hj
  cases ht with
  | hireProducer hc hi =>
    rw [Array.getElem?_push_lt (Array.getElem?_eq_some_iff.mp h).1]
    exact congrArg some (Array.getElem?_eq_some_iff.mp h).2
  | producer hp hne word => exact hset _ hp
  | retire hp => exact hset _ hp
  | _ => exact h

/-- A consumer that has ended keeps what it got. -/
theorem Turn.exited (ht : Turn s r l r') (hq : r.arena.queue.Sound) {i : ℕ} {c : Consumer}
    {exit : Exit (List Item)} (h : r.consumers[i]? = some c) (he : c.exit? = some exit) :
    ∃ c', r'.consumers[i]? = some c' ∧ c'.exit? = some exit := by
  cases ht with
  | hireConsumer hc hi =>
    refine ⟨c, ?_, he⟩
    rw [Array.getElem?_push_lt (Array.getElem?_eq_some_iff.mp h).1]
    exact congrArg some (Array.getElem?_eq_some_iff.mp h).2
  | @consumer j d hd word =>
    by_cases hij : j = i
    · subst j
      obtain rfl := Option.some.inj (h.symm.trans hd)
      have ho := Consumer.advance_outcome hq s.config i word c
      have hi := (Array.getElem?_eq_some_iff.mp h).1
      exact ⟨_, Array.getElem?_setIfInBounds_self_of_lt hi, ho.exit he⟩
    · exact ⟨c, by rw [Array.getElem?_setIfInBounds_ne hij, h], he⟩
  | _ => exact ⟨c, h, he⟩

/-! ### The producers -/

/-- Every producer has made as many items as it should. -/
def Disciplined (s : Setup) (r : Race) : Prop :=
  ∀ ⦃i : ℕ⦄ ⦃th : ProducerThread⦄, r.producers[i]? = some th →
    th.state.Sound s.config.items r.arena.stop.cancelled

theorem Disciplined.cancel (h : r.Disciplined s) (hp : r'.producers = r.producers)
    (hc : r'.arena.stop.cancelled = true) : r'.Disciplined s := by
  intro i th hi
  rw [hp] at hi
  rw [hc]
  exact (h hi).cancel

theorem Disciplined.turn (h : r.Disciplined s) (hq : r.arena.queue.Sound) (ht : Turn s r l r') :
    r'.Disciplined s := by
  cases ht with
  | cancel => exact h.cancel rfl rfl
  | expire hw => exact h.cancel rfl rfl
  | cancelRest hc => exact h.cancel rfl rfl
  | hireProducer hc hi =>
    intro i th hth
    rw [Array.getElem?_push] at hth
    split at hth
    · obtain rfl := Option.some.inj hth
      exact UInt64.zero_le
    · exact h hth
  | @consumer j c hc word =>
    have ho := Consumer.advance_outcome hq s.config j word c
    intro i th hth
    rw [ho.stop]
    exact h hth
  | @producer j p hp hne word =>
    have ho := Producer.step_outcome hq s.config j word p
    intro i th hth
    rw [ho.stop]
    rw [getElem?_set hp] at hth
    split at hth
    · obtain rfl := Option.some.inj hth
      exact ho.sound (h hp)
    · exact h hth
  | @retire j exit hp =>
    intro i th hth
    rw [getElem?_set hp] at hth
    split at hth
    · obtain rfl := Option.some.inj hth
      have hstate := h hp
      exact hstate
    · exact h hth
  | _ => exact h

/-! ### The items -/

/-- The producers have enqueued `made`, and `line` has been dequeued, each item by the consumer it
stands beside. -/
structure Traced (initial : List Item) (r : Race) (made : List Item) (line : List (ℕ × Item)) :
    Prop where
  balance : initial ++ made = line.map Prod.snd ++ r.arena.queue.toList
  owners : ∀ e ∈ line, e.1 < r.consumers.size
  got : ∀ {i : ℕ} {c : Consumer}, r.consumers[i]? = some c → c.items.toList = shareOf line i
  makers : ∀ i ∈ made, i.producer < r.producers.size
  counts : ∀ {i : ℕ} {th : ProducerThread}, r.producers[i]? = some th →
    ∃ n, seqsOf made i = List.range n ∧ ∀ k, th.state.count? = some k → k.toNat = n

theorem start_traced (s : Setup) (queue : Chain Item) (stop : StopToken) :
    (start s queue stop).Traced queue.toList [] [] where
  balance := List.append_nil _
  owners := nofun
  got h := by simp [start] at h
  makers := nofun
  counts h := by simp [start] at h

variable {initial made : List Item} {line : List (ℕ × Item)}

theorem Traced.hireConsumer (h : r.Traced initial made line)
    (hc : r'.consumers = r.consumers.push .start) (hp : r'.producers = r.producers)
    (hq : r'.arena.queue = r.arena.queue) : r'.Traced initial made line where
  balance := by rw [hq, h.balance]
  owners e he := by
    rw [hc, Array.size_push]
    exact Nat.lt_succ_of_lt (h.owners e he)
  got := by
    intro i c hi
    rw [hc, Array.getElem?_push] at hi
    split at hi
    · subst i
      obtain rfl := Option.some.inj hi
      exact (shareOf_eq_nil h.owners).symm
    · exact h.got hi
  makers := by rw [hp]; exact h.makers
  counts := by rw [hp]; exact h.counts

theorem Traced.hireProducer (h : r.Traced initial made line)
    (hc : r'.consumers = r.consumers) (hp : r'.producers = r.producers.push (.running (.check 0)))
    (hq : r'.arena.queue = r.arena.queue) : r'.Traced initial made line where
  balance := by rw [hq, h.balance]
  owners := by rw [hc]; exact h.owners
  got := by rw [hc]; exact h.got
  makers i hi := by
    rw [hp, Array.size_push]
    exact Nat.lt_succ_of_lt (h.makers i hi)
  counts := by
    intro i th hi
    rw [hp, Array.getElem?_push] at hi
    split at hi
    · subst i
      obtain rfl := Option.some.inj hi
      refine ⟨0, seqsOf_eq_nil h.makers, fun k hk => ?_⟩
      obtain rfl : 0 = k := Option.some.inj hk
      rfl
    · exact h.counts hi

/-- A consumer takes a step: the first item of the queue may join the line. -/
theorem Traced.consumer (h : r.Traced initial made line) {i : ℕ} {c : Consumer}
    (hi : r.consumers[i]? = some c) {a : Arena} {c' : Consumer}
    (ho : Consumer.Outcome r.arena c (a, c')) :
    ∃ line', Traced initial
      { r with arena := a, consumers := r.consumers.setIfInBounds i c' } made line' := by
  have hlt := (Array.getElem?_eq_some_iff.mp hi).1
  rcases ho.items with ⟨hsame, hlist⟩ | ⟨item, hlist, hpush⟩
  · refine ⟨line, by rw [hlist, h.balance], by simpa using h.owners, ?_, h.makers, h.counts⟩
    intro j d hj
    rw [getElem?_set hi] at hj
    split at hj
    · subst j
      obtain rfl := Option.some.inj hj
      rw [hsame]
      exact h.got hi
    · exact h.got hj
  · refine ⟨line ++ [(i, item)], ?_, ?_, ?_, h.makers, h.counts⟩
    · rw [h.balance, hlist, List.map_append, List.append_assoc]
      rfl
    · intro e he
      rw [Array.size_setIfInBounds]
      rcases List.mem_append.mp he with he | he
      · exact h.owners e he
      · obtain rfl := List.mem_singleton.mp he
        exact hlt
    · intro j d hj
      rw [getElem?_set hi] at hj
      split at hj
      · subst j
        obtain rfl := Option.some.inj hj
        rw [hpush, Array.toList_push, h.got hi, shareOf_snoc_self]
      · rename_i hne
        rw [h.got hj, shareOf_snoc_of_ne hne]

/-- A producer takes a step: its next item may join the queue. -/
theorem Traced.producer (h : r.Traced initial made line) {i : ℕ} {p : Producer}
    (hi : r.producers[i]? = some (.running p)) (hs : p.Sound s.config.items r.arena.stop.cancelled)
    {a : Arena} {p' : Producer} (ho : Producer.Outcome s.config.items i r.arena p (a, p')) :
    ∃ made', Traced initial
      { r with arena := a, producers := r.producers.setIfInBounds i (.running p') } made' line := by
  have hlt := (Array.getElem?_eq_some_iff.mp hi).1
  obtain ⟨n, hn, hcount⟩ := h.counts hi
  rcases ho.items with ⟨hlist, hkept⟩ | ⟨k, value, rfl, hnext, hlist⟩
  · refine ⟨made, by rw [hlist, h.balance], h.owners, h.got, by simpa using h.makers, ?_⟩
    intro j th hj
    rw [getElem?_set hi] at hj
    split at hj
    · subst j
      obtain rfl := Option.some.inj hj
      exact ⟨n, hn, fun k hk => hcount k (hkept k hk)⟩
    · exact h.counts hj
  · obtain rfl : k.toNat = n := hcount k rfl
    refine ⟨made ++ [⟨i, k, value⟩], ?_, h.owners, h.got, ?_, ?_⟩
    · rw [hlist, ← List.append_assoc, h.balance, List.append_assoc]
    · intro e he
      rw [Array.size_setIfInBounds]
      rcases List.mem_append.mp he with he | he
      · exact h.makers e he
      · obtain rfl := List.mem_singleton.mp he
        exact hlt
    · intro j th hj
      rw [getElem?_set hi] at hj
      split at hj
      · subst j
        obtain rfl := Option.some.inj hj
        refine ⟨k.toNat + 1, by rw [seqsOf_snoc_self, hn, List.range_succ], fun m hm => ?_⟩
        obtain rfl := Option.some.inj (hnext.symm.trans hm)
        -- the next number still fits, as the number of items does
        exact Producer.toNat_succ (show k < s.config.items from hs)
      · rename_i hne
        obtain ⟨m, hm, hcount'⟩ := h.counts hj
        exact ⟨m, by rw [seqsOf_snoc_of_ne hne, hm], hcount'⟩

theorem Traced.retire (h : r.Traced initial made line) {i : ℕ} {exit : Exit UInt64}
    (hi : r.producers[i]? = some (.running (.ended exit))) {a : Arena}
    (hq : a.queue = r.arena.queue) :
    Traced initial { r with arena := a, producers := r.producers.setIfInBounds i (.gone exit) } made
      line where
  balance := by rw [hq, h.balance]
  owners := h.owners
  got := h.got
  makers := by simpa using h.makers
  counts := by
    intro j th hj
    rw [getElem?_set hi] at hj
    split at hj
    · subst j
      obtain rfl := Option.some.inj hj
      have hstate := h.counts hi
      exact hstate
    · exact h.counts hj

theorem Traced.turn (h : r.Traced initial made line) (hq : r.arena.queue.Sound)
    (hd : r.Disciplined s) (ht : Turn s r l r') : ∃ made' line', r'.Traced initial made' line' := by
  cases ht with
  | hireConsumer hc hi => exact ⟨made, line, h.hireConsumer rfl rfl rfl⟩
  | hireProducer hc hi => exact ⟨made, line, h.hireProducer rfl rfl rfl⟩
  | consumer hc word =>
    obtain ⟨line', hl⟩ := h.consumer hc (Consumer.advance_outcome hq s.config _ word _)
    exact ⟨made, line', hl⟩
  | producer hp hne word =>
    obtain ⟨made', hm⟩ := h.producer hp (hd hp) (Producer.step_outcome hq s.config _ word _)
    exact ⟨made', line, hm⟩
  | retire hp => exact ⟨made, line, h.retire hp rfl⟩
  | _ => exact ⟨made, line, h.balance, h.owners, h.got, h.makers, h.counts⟩

end Race

end QueueRace
