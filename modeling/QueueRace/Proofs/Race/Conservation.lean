import QueueRace.Proofs.Race.Account

/-! Whole runs. A run that returns a report has emptied the queue, and the report tells where every
item has gone: those that were there at the start and those that were made stand in one line, in
the order in which they passed the queue, and each consumer got its share of this line. -/

namespace QueueRace

/-! ### What the caller has collected -/

/-- The caller has been told what the first producers and the first consumers returned. -/
structure Joins (producers : Array ProducerThread) (consumers : Array Consumer)
    (produced : List UInt64) (consumed : List (List Item)) : Prop where
  producers : ∀ {i : ℕ} {n : UInt64}, produced[i]? = some n →
    producers[i]? = some (.gone (.returned n))
  consumers : ∀ {i : ℕ} {items : List Item}, consumed[i]? = some items →
    ∃ c, consumers[i]? = some c ∧ c.exit? = some (.returned items)

/-- A report of all producers and all consumers. -/
structure Report.Covers (producers : Array ProducerThread) (consumers : Array Consumer)
    (report : Report) : Prop where
  joins : Joins producers consumers report.produced report.consumed
  producers : report.produced.length = producers.size
  consumers : report.consumed.length = consumers.size

def Outcome.Joined (producers : Array ProducerThread) (consumers : Array Consumer) : Outcome → Prop
  | .ok report => report.Covers producers consumers
  | _ => True

def Caller.Joined (producers : Array ProducerThread) (consumers : Array Consumer) : Caller → Prop
  | .joinProducers produced => Joins producers consumers produced []
  | .joinConsumers produced consumed =>
    Joins producers consumers produced consumed ∧ produced.length = producers.size
  | .summarize report => report.Covers producers consumers
  | .close _ _ o | .dismiss o | .joinWatchdog o | .ended o => o.Joined producers consumers
  | _ => True

section
variable {producers producers' : Array ProducerThread} {consumers consumers' : Array Consumer}

theorem Caller.Joined.mono {c : Caller} (h : c.Joined producers consumers)
    (hj : ∀ {produced consumed}, Joins producers consumers produced consumed →
      Joins producers' consumers' produced consumed)
    (hp : producers'.size = producers.size) (hc : consumers'.size = consumers.size) :
    c.Joined producers' consumers' := by
  have hcovers : ∀ {report : Report}, report.Covers producers consumers →
      report.Covers producers' consumers' :=
    fun hr => ⟨hj hr.joins, hr.producers.trans hp.symm, hr.consumers.trans hc.symm⟩
  have houtcome : ∀ {o : Outcome}, o.Joined producers consumers → o.Joined producers' consumers' := by
    intro o ho
    cases o with
    | ok report => exact hcovers ho
    | error e => trivial
    | panicked p => trivial
  cases c with
  | joinProducers produced => exact hj h
  | joinConsumers produced consumed => exact ⟨hj h.1, h.2.trans hp.symm⟩
  | summarize report => exact hcovers h
  | close i j o => exact houtcome h
  | dismiss o => exact houtcome h
  | joinWatchdog o => exact houtcome h
  | ended o => exact houtcome h
  | _ => trivial

theorem Joins.length_producers_le {produced : List UInt64} {consumed : List (List Item)}
    (h : Joins producers consumers produced consumed) : produced.length ≤ producers.size := by
  by_contra hlt
  have hi := h.producers (List.getElem?_eq_getElem (Nat.not_le.mp hlt))
  exact Nat.lt_irrefl _ (Array.getElem?_eq_some_iff.mp hi).1

theorem Joins.length_consumers_le {produced : List UInt64} {consumed : List (List Item)}
    (h : Joins producers consumers produced consumed) : consumed.length ≤ consumers.size := by
  by_contra hlt
  obtain ⟨c, hi, -⟩ := h.consumers (List.getElem?_eq_getElem (Nat.not_le.mp hlt))
  exact Nat.lt_irrefl _ (Array.getElem?_eq_some_iff.mp hi).1

end

namespace Race

variable {s : Setup} {r r' : Race} {l : Label} {c c' : Caller}

theorem Passes.joined (h : Passes s r c c') (hj : c.Joined r.producers r.consumers) :
    c'.Joined r.producers r.consumers := by
  cases h with
  | producersReady hi => exact ⟨nofun, nofun⟩
  | producerJoined hp =>
    refine ⟨fun hi => ?_, nofun⟩
    rcases getElem?_snoc hi with hi | ⟨rfl, rfl⟩
    · exact hj.producers hi
    · exact hp
  | producersJoined hp =>
    exact ⟨hj, Nat.le_antisymm hj.length_producers_le (Array.getElem?_eq_none_iff.mp hp)⟩
  | consumerJoined hc he =>
    refine ⟨⟨hj.1.producers, fun hi => ?_⟩, hj.2⟩
    rcases getElem?_snoc hi with hi | ⟨rfl, rfl⟩
    · exact hj.1.consumers hi
    · exact ⟨_, hc, he⟩
  | consumersJoined hc =>
    exact ⟨hj.1, hj.2, Nat.le_antisymm hj.1.length_consumers_le (Array.getElem?_eq_none_iff.mp hc)⟩
  | summarized => exact hj
  | closed _ => exact hj
  | unwatchedEnd => exact hj
  | watchdogJoined => exact hj
  | _ => trivial

theorem Turn.joins (ht : Turn s r l r') (hq : r.arena.queue.Sound) {produced : List UInt64}
    {consumed : List (List Item)} (h : Joins r.producers r.consumers produced consumed) :
    Joins r'.producers r'.consumers produced consumed where
  producers hi := ht.gone (h.producers hi)
  consumers hi := by
    obtain ⟨c, hc, he⟩ := h.consumers hi
    exact ht.exited hq hc he

theorem Turn.joined (ht : Turn s r l r') (hq : r.arena.queue.Sound)
    (h : r.caller.Joined r.producers r.consumers) : r'.caller.Joined r'.producers r'.consumers := by
  have hj : ∀ {produced consumed}, Joins r.producers r.consumers produced consumed →
      Joins r'.producers r'.consumers produced consumed := fun h => ht.joins hq h
  cases ht with
  | pass hp log => exact hp.joined h
  | hireWatchdog hc hf => trivial
  | announce hc log => trivial
  | hireConsumer hc hi => trivial
  | disarm hc => trivial
  | hireProducer hc hi => trivial
  | cancelRest hc => trivial
  | uncountRest hc => trivial
  | tell hc ht ho =>
    rw [hc] at h
    exact h
  | consumer hc word => exact h.mono hj rfl (Array.size_setIfInBounds ..)
  | producer hp hne word => exact h.mono hj (Array.size_setIfInBounds ..) rfl
  | retire hp => exact h.mono hj (Array.size_setIfInBounds ..) rfl
  | _ => exact h

/-! ### Everything a run keeps -/

structure Sound (s : Setup) (initial : List Item) (r : Race) : Prop where
  queue : r.arena.queue.Sound
  counted : r.Counted s
  settled : r.Settled
  disciplined : r.Disciplined s
  traced : ∃ made line, r.Traced initial made line
  joined : r.caller.Joined r.producers r.consumers

theorem start_sound (s : Setup) {queue : Chain Item} (hq : queue.Sound) (stop : StopToken) :
    (start s queue stop).Sound s queue.toList where
  queue := hq
  counted := start_counted s queue stop
  settled := start_settled s queue stop
  disciplined := by
    intro i th hi
    simp [start] at hi
  traced := ⟨[], [], start_traced s queue stop⟩
  joined := by
    simp only [start]
    split <;> trivial

theorem Sound.turn {initial : List Item} (h : r.Sound s initial) (ht : Turn s r l r') :
    r'.Sound s initial where
  queue := h.queue.grew (ht.queue_grew h.queue)
  counted := h.counted.turn h.queue ht
  settled := h.settled.turn h.counted h.queue ht
  disciplined := h.disciplined.turn h.queue ht
  traced := by
    obtain ⟨made, line, hl⟩ := h.traced
    exact hl.turn h.queue h.disciplined ht
  joined := ht.joined h.queue h.joined

theorem run_sound (s : Setup) {queue : Chain Item} (hq : queue.Sound) (stop : StopToken)
    (schedule : List Label) : ((start s queue stop).run s schedule).Sound s queue.toList :=
  run_induction (fun h ht => h.turn ht) (start_sound s hq stop) schedule

/-! ### Reports -/

section
variable {initial : List Item} {report : Report}

/-- Where a report is about to be returned, every consumer has found the queue empty for good. -/
theorem Sound.drained (h : r.Sound s initial) (hr : report.Covers r.producers r.consumers)
    (hpos : 0 < r.consumers.size) : r.arena.queue.toList = [] := by
  rw [← hr.consumers] at hpos
  obtain ⟨c, hc, he⟩ := hr.joins.consumers (List.getElem?_eq_getElem hpos)
  have hs := h.settled hc
  obtain ⟨phase, items⟩ := c
  cases phase with
  | ended => exact hs.2
  | _ => cases he

theorem Traced.interleaves {made : List Item} {line : List (ℕ × Item)}
    (h : r.Traced initial made line) (hr : report.Covers r.producers r.consumers) :
    Interleaves report.produced made where
  makers i hi := by
    rw [hr.producers]
    exact h.makers i hi
  seqs hn := by
    obtain ⟨k, hk, hcount⟩ := h.counts (hr.joins.producers hn)
    rw [hk, hcount _ rfl]

theorem Traced.shares {made : List Item} {line : List (ℕ × Item)} (h : r.Traced initial made line)
    (hr : report.Covers r.producers r.consumers) : Shares line report.consumed where
  owners e he := by
    rw [hr.consumers]
    exact h.owners e he
  shares hi := by
    obtain ⟨c, hc, he⟩ := hr.joins.consumers hi
    rw [← h.got hc]
    obtain ⟨phase, items⟩ := c
    cases phase with
    | ended =>
      obtain rfl := (Exit.returned.inj (Option.some.inj he))
      rfl
    | _ => cases he

theorem Sound.produced_eq (h : r.Sound s initial) (hr : report.Covers r.producers r.consumers)
    {n : UInt64} (hn : n ∈ report.produced) : n ≤ s.config.items ∧
      (r.arena.stop.cancelled = false → n = s.config.items) := by
  obtain ⟨i, hi⟩ := List.mem_iff_getElem?.mp hn
  exact h.disciplined (hr.joins.producers hi)

end

/-- A run that returns a report leaves the queue empty. What was in it at the start and what was
made, in some interleaving of the producers, went through it in one line; every place of the line
belongs to one consumer, who got its share in the order of the line. No producer made more than it
should, and none fewer unless the token was cancelled. The check accepts the report if and only if
the queue was empty at the start. -/
theorem run_conserves {s : Setup} {queue : Chain Item} (hq : queue.Sound) {stop : StopToken}
    {schedule : List Label} {report : Report}
    (h : ((start s queue stop).run s schedule).outcome? = some (.ok report)) :
    ((start s queue stop).run s schedule).arena.queue.toList = [] ∧
      report.produced.length = s.config.producers.val ∧
      report.consumed.length = s.config.consumers.val ∧
      (∃ made line, line.map Prod.snd = queue.toList ++ made ∧
        Interleaves report.produced made ∧ Shares line report.consumed) ∧
      (∀ n ∈ report.produced, n ≤ s.config.items ∧
        (((start s queue stop).run s schedule).arena.stop.cancelled = false →
          n = s.config.items)) ∧
      ((∀ n ∈ report.produced, n.toNat ≤ Report.markLimit) →
        (report.verify = .accepted ↔ queue.toList = [])) := by
  have hs := run_sound s hq stop schedule
  generalize (start s queue stop).run s schedule = r at h hs
  have hend : r.caller = .ended (.ok report) := by
    rw [outcome?] at h
    split at h
    · rename_i hc
      rw [hc, Option.some.inj h]
    · cases h
  have hjoined := hs.joined
  have hhired := hs.counted.hired
  rw [hend] at hjoined hhired
  have hr : report.Covers r.producers r.consumers := hjoined
  obtain ⟨hm, hn⟩ : r.consumers.size = _ ∧ r.producers.size = _ := hhired
  have hnil := hs.drained hr (hm ▸ s.config.consumers.pos)
  obtain ⟨made, line, htraced⟩ := hs.traced
  have hline : line.map Prod.snd = queue.toList ++ made := by
    rw [htraced.balance, hnil, List.append_nil]
  have hmade := htraced.interleaves hr
  have hshares := htraced.shares hr
  refine ⟨hnil, hr.producers.trans hn, hr.consumers.trans hm, ⟨made, line, hline, hmade, hshares⟩,
    fun n hn => hs.produced_eq hr hn, fun hroom => ?_⟩
  rw [Report.verify_eq_accepted_iff hroom, Report.correct_iff hline hmade hshares]

/-- Two workers of a kind. -/
def pair : WorkerCount := ⟨2, by decide, by decide⟩

/-- A producer of three items and two consumers. -/
def trio : Setup := ⟨.burst 3 .one ⟨2, by decide, by decide⟩, none, none, true⟩

/-- The token is cancelled after the second item has been enqueued. -/
def trioSchedule : List Label :=
  List.replicate 7 Label.caller ++ List.replicate 5 (Label.producer 0 7) ++
    List.replicate 3 (Label.consumer 1 0) ++ Label.cancel :: List.replicate 9 (Label.consumer 0 0) ++
    List.replicate 5 (Label.producer 0 7) ++ List.replicate 9 (Label.consumer 0 0) ++
    List.replicate 9 (Label.consumer 1 0) ++ List.replicate 8 Label.caller

/-- A cancelled run over a queue that held an item: nothing is lost, but the check objects. -/
theorem run_conserves_cancelled :
    ((start trio (.ofList [⟨9, 4, 1⟩]) .new).run trio trioSchedule).outcome? =
        some (.ok ⟨[2], [[⟨0, 0, 7⟩, ⟨0, 1, 7⟩], [⟨9, 4, 1⟩]]⟩) ∧
      (∃ made line, line.map Prod.snd = ⟨9, 4, 1⟩ :: made ∧ Interleaves [2] made ∧
        Shares line [[⟨0, 0, 7⟩, ⟨0, 1, 7⟩], [⟨9, 4, 1⟩]]) ∧
      Report.verify ⟨[2], [[⟨0, 0, 7⟩, ⟨0, 1, 7⟩], [⟨9, 4, 1⟩]]⟩ ≠ .accepted := by
  have h : ((start trio (.ofList [⟨9, 4, 1⟩]) .new).run trio trioSchedule).outcome? =
      some (.ok ⟨[2], [[⟨0, 0, 7⟩, ⟨0, 1, 7⟩], [⟨9, 4, 1⟩]]⟩) := by
    decide +kernel
  obtain ⟨hsound, hlist⟩ := Chain.ofList_sound [(⟨9, 4, 1⟩ : Item)]
  obtain ⟨-, -, -, ⟨made, line, hl, hm, hs⟩, -, hv⟩ := run_conserves hsound h
  have hroom : ∀ n ∈ ([2] : List UInt64), n.toNat ≤ Report.markLimit := by
    intro n hn
    rw [List.mem_singleton.mp hn]
    decide
  rw [hlist] at hl hv
  refine ⟨h, ⟨made, line, hl, hm, hs⟩, fun haccepted => ?_⟩
  exact List.cons_ne_nil _ _ ((hv hroom).mp haccepted)

end Race

end QueueRace
