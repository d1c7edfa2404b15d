import QueueRace.Proofs.Race.Token

/-! The count of live producers as a signal. Only the thread of a producer that has ended and a
caller that could not create a thread take something off the count, and they take off what has been
counted. When the count is zero, all producers that were created are gone and no more are created,
so from then on items only leave the queue; and a consumer that has found the queue empty after it
has read zero has seen the end. Conversely the count is zero as soon as there is nothing left to
wait for. -/

namespace QueueRace

namespace Caller

/-- The run has been announced, and the count has been set. -/
def Begun : Caller → Prop
  | .spawnWatchdog | .announce => False
  | _ => True

def Mends : Caller → Prop
  | .disarm _ | .uncountRest _ _ => True
  | _ => False

/-- How many of `n` producers the caller counts out with its next step. -/
def countsOut (n : ℕ) : Caller → ℕ
  | .disarm _ => n
  | .uncountRest i _ => n - i
  | _ => 0

end Caller

/-- How many producers a thread counts out with its next step: itself, if it has come to its end. -/
def ProducerThread.countsOut : ProducerThread → ℕ
  | .running (.ended _) => 1
  | _ => 0

namespace Race

def Enqueues (r : Race) : Label → Prop
  | .producer i _ => ∃ n, r.producers[i]? = some (.running (.enqueue n))
  | _ => False

def countsOut (s : Setup) (r : Race) : Label → ℕ
  | .caller => r.caller.countsOut s.config.producers.val
  | .producer i _ => (r.producers[i]?.map ProducerThread.countsOut).getD 0
  | _ => 0

variable {s : Setup} {r r' : Race} {l : Label} {c c' : Caller}

/-! ### The arithmetic of the count -/

theorem countsOut_caller (hc : r.caller = c) :
    r.countsOut s .caller = c.countsOut s.config.producers.val := by
  rw [countsOut, hc]

theorem Passes.countsOut_eq_zero (h : Passes s r c c') (n : ℕ) : c.countsOut n = 0 := by
  cases h <;> rfl

theorem countsOut_running {p : Producer} (hp : ∀ exit, p ≠ .ended exit) :
    (ProducerThread.running p).countsOut = 0 := by
  cases p with
  | ended exit => exact absurd rfl (hp exit)
  | _ => rfl

theorem Stuck.countsOut_eq_zero (h : Stuck s r l) : r.countsOut s l = 0 := by
  cases h with
  | producerRuns hc => exact countsOut_caller hc
  | consumerRuns hc => exact countsOut_caller hc
  | workersRun hc => exact countsOut_caller hc
  | watchdogRuns hc => exact countsOut_caller hc
  | returned hc => exact countsOut_caller hc
  | @noProducer i hp word =>
    rw [countsOut]
    cases hi : r.producers[i]? with
    | none => rfl
    | some th =>
      cases th with
      | running p => exact absurd hi (hp p)
      | gone exit => rfl
  | _ => rfl

/-- After the announcement a step takes off the count what it counts out, and nothing wraps. -/
theorem Turn.live_add_countsOut (ht : Turn s r l r') (hn : r.Counted s)
    (hq : r.arena.queue.Sound) (ha : r.caller ≠ .announce) :
    r'.arena.live.toNat + r.countsOut s l = r.arena.live.toNat := by
  -- before and after, the count is what the law says
  have hlive := hn.live
  have hlive' := (hn.turn hq ht).live
  have hhired := hn.hired
  cases ht with
  | stay hs => rw [hs.countsOut_eq_zero, Nat.add_zero]
  | pass hp log hlog => rw [countsOut, hp.countsOut_eq_zero, Nat.add_zero]
  | hireWatchdog hc hf =>
    rw [countsOut_caller hc]
    rfl
  | announce hc => exact absurd hc ha
  | hireConsumer hc =>
    rw [countsOut_caller hc]
    rfl
  | disarm hc =>
    rw [hc] at hlive hhired
    rw [hlive, running_eq_zero hhired, countsOut_caller hc]
    exact Nat.zero_add _
  | hireProducer hc =>
    rw [countsOut_caller hc]
    rfl
  | cancelRest hc =>
    rw [countsOut_caller hc]
    rfl
  | uncountRest hc =>
    rw [hc] at hlive
    rw [countsOut_caller hc]
    simp only [Caller.countsOut, Caller.pending, Outcome.pending] at hlive hlive' ⊢
    omega
  | tell hc =>
    rw [countsOut_caller hc]
    rfl
  | consumer hc word =>
    rw [(Consumer.advance_outcome hq s.config _ word _).live]
    rfl
  | @producer i p hp hne word =>
    rw [(Producer.step_outcome hq s.config i word p).live, countsOut, hp, Option.map_some,
      countsOut_running hne]
    rfl
  | @retire i exit hp word =>
    have hless : running (r.producers.setIfInBounds i (.gone exit)) + 1 = running r.producers + 0 :=
      countP_setIfInBounds hp (.gone exit) _
    have hnow : (r.arena.live - 1).toNat = r.caller.pending s.config.producers.val +
        running (r.producers.setIfInBounds i (.gone exit)) := hlive'
    rw [countsOut, hp, Option.map_some, Option.getD_some, ProducerThread.countsOut]
    show (r.arena.live - 1).toNat + 1 = r.arena.live.toNat
    omega
  | _ => rfl

/-! ### Items come from producers only -/

theorem Turn.items_suffix (ht : Turn s r l r') (hq : r.arena.queue.Sound) (h : ¬ r.Enqueues l) :
    r'.arena.queue.toList <:+ r.arena.queue.toList := by
  cases ht with
  | @consumer i c hc word =>
    rcases (Consumer.advance_outcome hq s.config i word c).items with ⟨-, hsame⟩ | ⟨item, hlist, -⟩
    · exact hsame ▸ List.suffix_refl _
    · exact ⟨[item], hlist.symm⟩
  | @producer i p hp hne word =>
    rcases (Producer.step_outcome hq s.config i word p).items with ⟨hsame, -⟩ | ⟨n, value, rfl, -⟩
    · exact hsame ▸ List.suffix_refl _
    · exact absurd ⟨n, hp⟩ h
  | _ => exact List.suffix_refl _

/-! ### The end of production -/

/-- No producer is left: those that were created are gone, and the caller creates no more. -/
structure Spent (s : Setup) (r : Race) : Prop where
  begun : r.caller.Begun
  pending : r.caller.pending s.config.producers.val = 0
  gone : ∀ (i : ℕ) (th : ProducerThread), r.producers[i]? = some th → ∃ exit, th = .gone exit

theorem Passes.begun (h : Passes s r c c') : c'.Begun := by
  cases h <;> trivial

theorem Turn.begun (ht : Turn s r l r') (h : r.caller.Begun) : r'.caller.Begun := by
  cases ht with
  | pass hp => exact hp.begun
  | hireWatchdog hc =>
    rw [hc] at h
    exact h.elim
  | announce => trivial
  | hireConsumer => trivial
  | disarm => trivial
  | hireProducer => trivial
  | cancelRest => trivial
  | uncountRest => trivial
  | tell => trivial
  | _ => exact h

theorem Turn.pending_eq_zero (ht : Turn s r l r') (hn : r.Counted s) (hb : r.caller.Begun)
    (h : r.caller.pending s.config.producers.val = 0) :
    r'.caller.pending s.config.producers.val = 0 ∧ r'.producers.size = r.producers.size := by
  have hhired := hn.hired
  have hpos := s.config.producers.pos
  cases ht with
  | pass hp log => exact ⟨hp.pending_eq.trans h, rfl⟩
  | hireWatchdog hc =>
    rw [hc] at hb
    exact hb.elim
  | announce hc =>
    rw [hc] at hb
    exact hb.elim
  | hireConsumer hc =>
    rw [hc] at h
    exact absurd h hpos.ne'
  | disarm hc => exact ⟨rfl, rfl⟩
  | hireProducer hc hi =>
    rw [hc, Caller.pending] at h
    omega
  | cancelRest hc =>
    rw [hc] at h
    exact ⟨h, rfl⟩
  | uncountRest hc => exact ⟨rfl, rfl⟩
  | tell hc =>
    rw [hc] at h
    exact ⟨h, rfl⟩
  | consumer hc word => exact ⟨h, rfl⟩
  | producer hp hne word => exact ⟨h, Array.size_setIfInBounds ..⟩
  | retire hp word => exact ⟨h, Array.size_setIfInBounds ..⟩
  | _ => exact ⟨h, rfl⟩

theorem Turn.spent (ht : Turn s r l r') (hn : r.Counted s) (h : r.Spent s) :
    r'.Spent s ∧ r'.producers.size = r.producers.size := by
  obtain ⟨hpending, hsize⟩ := ht.pending_eq_zero hn h.begun h.pending
  refine ⟨⟨ht.begun h.begun, hpending, fun i th hi => ?_⟩, hsize⟩
  have hlt : i < r.producers.size := hsize ▸ (Array.getElem?_eq_some_iff.mp hi).1
  obtain ⟨exit, he⟩ := h.gone i _ (Array.getElem?_eq_getElem hlt)
  have hgone := ht.gone ((Array.getElem?_eq_getElem hlt).trans (congrArg some he))
  exact ⟨exit, Option.some.inj (hi.symm.trans hgone)⟩

theorem Counted.spent (h : r.Counted s) (hb : r.caller.Begun) (h0 : r.arena.live = 0) :
    r.Spent s where
  begun := hb
  pending := by
    have hlive := h.live
    rw [h0, UInt64.toNat_zero] at hlive
    omega
  gone i th hi := by
    cases th with
    | gone exit => exact ⟨exit, rfl⟩
    | running p => exact absurd h0 (h.live_ne_zero hi)

theorem Spent.live (h : r.Spent s) (hn : r.Counted s) : r.arena.live = 0 := by
  refine hn.live_eq_zero h.pending fun i p hp => ?_
  obtain ⟨exit, he⟩ := h.gone i _ hp
  cases he

theorem Spent.not_enqueues (h : r.Spent s) (l : Label) : ¬ r.Enqueues l := by
  cases l with
  | producer i word =>
    rintro ⟨n, hn⟩
    obtain ⟨exit, he⟩ := h.gone i _ hn
    cases he
  | _ => exact id

/-- Whatever the schedule `later` makes of `r`: the count is zero, the producers are those of `r`
and all gone, the next step puts no item into the queue, and none before it has done so. -/
structure Silent (s : Setup) (r : Race) (later : List Label) : Prop where
  live : (r.run s later).arena.live = 0
  size : (r.run s later).producers.size = r.producers.size
  gone : ∀ (i : ℕ) (th : ProducerThread), (r.run s later).producers[i]? = some th →
    ∃ exit, th = .gone exit
  quiet : ∀ l, ¬ (r.run s later).Enqueues l
  items : (r.run s later).arena.queue.toList <:+ r.arena.queue.toList

theorem Spent.silent {initial : List Item} (h : r.Spent s) (hs : r.Sound s initial)
    (later : List Label) : Silent s r later := by
  obtain ⟨hsound, hspent, hsize, hitems⟩ := run_induction (s := s) (r := r)
    (P := fun r' => r'.Sound s initial ∧ r'.Spent s ∧ r'.producers.size = r.producers.size ∧
      r'.arena.queue.toList <:+ r.arena.queue.toList)
    (fun ⟨hsound, hspent, hsize, hitems⟩ ht =>
      ⟨hsound.turn ht, (ht.spent hsound.counted hspent).1,
        (ht.spent hsound.counted hspent).2.trans hsize,
        (ht.items_suffix hsound.queue (hspent.not_enqueues _)).trans hitems⟩)
    ⟨hs, h, rfl, List.suffix_refl _⟩ later
  exact ⟨hspent.live hsound.counted, hsize, hspent.gone, hspent.not_enqueues, hitems⟩

theorem Counted.begun (h : r.Counted s) {i : ℕ} {c : Consumer} (hc : r.consumers[i]? = some c) :
    r.caller.Begun := by
  have hpos := (Array.getElem?_eq_some_iff.mp hc).1
  have hhired := h.hired
  generalize r.caller = caller at hhired
  cases caller with
  | spawnWatchdog => exact absurd hpos (hhired.1 ▸ Nat.not_lt_zero i)
  | announce => exact absurd hpos (hhired.1 ▸ Nat.not_lt_zero i)
  | _ => trivial

/-! ### Whole runs -/

/-- In the course of the schedule a creation has failed and the caller has mended the count. -/
def Mended (s : Setup) (r : Race) (schedule : List Label) : Prop :=
  ∃ earlier later, schedule = earlier ++ .caller :: later ∧ (r.run s earlier).caller.Mends

theorem step_of_mends (h : r.caller.Mends) :
    ∃ e, (r.step s .caller).caller = .close 0 0 (.error e) := by
  obtain ⟨arena, finished, caller, watchdog, consumers, producers, created⟩ := r
  cases caller with
  | disarm e => exact ⟨e, rfl⟩
  | uncountRest i e => exact ⟨e, rfl⟩
  | _ => exact h.elim

theorem Mended.pending_eq_zero {initial : List Item} {schedule : List Label}
    (h : Mended s r schedule) (hs : r.Sound s initial) :
    (r.run s schedule).caller.Begun ∧
      (r.run s schedule).caller.pending s.config.producers.val = 0 := by
  obtain ⟨earlier, later, rfl, hm⟩ := h
  have hsound : (r.run s earlier).Sound s initial :=
    run_induction (fun hs ht => hs.turn ht) hs earlier
  obtain ⟨e, hclose⟩ := step_of_mends (s := s) hm
  rw [run_append]
  refine (run_induction (s := s) (r := (r.run s earlier).step s .caller)
    (P := fun r' => r'.Sound s initial ∧ r'.caller.Begun ∧
      r'.caller.pending s.config.producers.val = 0)
    (fun ⟨hsound, hbegun, hpending⟩ ht =>
      ⟨hsound.turn ht, ht.begun hbegun, (ht.pending_eq_zero hsound.counted hbegun hpending).1⟩)
    ⟨hsound.turn (step_turn s _ .caller), ?_, ?_⟩ later).2
  · rw [hclose]
    trivial
  · rw [hclose]
    rfl

/-- What the count of live producers stands for in a state `r` that a schedule leads to, and what
it says about all that may still come. -/
structure Signals (s : Setup) (queue : Chain Item) (stop : StopToken) (schedule : List Label)
    (r : Race) : Prop where
  exact : r.caller ≠ .announce →
    ∀ l, (r.step s l).arena.live.toNat + r.countsOut s l = r.arena.live.toNat
  le : r.arena.live.toNat ≤ s.config.producers.val
  items : ∀ l, ¬ r.Enqueues l → (r.step s l).arena.queue.toList <:+ r.arena.queue.toList
  zero : r.caller.Begun → r.arena.live = 0 → ∀ later, Silent s r later
  left : ∀ (i : ℕ) (c : Consumer), r.consumers[i]? = some c → c.phase = .leave ∨ c.phase = .ended →
    r.arena.queue.toList = [] ∧ ∀ later, Silent s r later
  ended : r.producers.size = s.config.producers.val ∨ Mended s (start s queue stop) schedule →
    (∀ (i : ℕ) (th : ProducerThread), r.producers[i]? = some th → ∃ exit, th = .gone exit) →
      r.arena.live = 0

/-- Under every schedule the count of live producers is a signal that the queue is drained. It does
not wrap and does not exceed the number of producers. Once the run has been announced, it is zero
only if every producer that was created is gone and none will be created; then nobody enqueues any
more. So the queue is empty for good when a consumer leaves its loop. And the count is zero when
all producers that are to be created, be it all of the run or those before a creation that failed,
have ended. -/
theorem run_signals_drained (s : Setup) {queue : Chain Item} (hq : queue.Sound) (stop : StopToken)
    (schedule : List Label) :
    Signals s queue stop schedule ((start s queue stop).run s schedule) := by
  have hs := run_sound s hq stop schedule
  have hmended : Mended s (start s queue stop) schedule → _ :=
    fun h => h.pending_eq_zero (start_sound s hq stop)
  generalize (start s queue stop).run s schedule = r at hs hmended
  refine
    { exact := fun ha l => (step_turn s r l).live_add_countsOut hs.counted hs.queue ha
      le := hs.counted.live_le
      items := fun l => (step_turn s r l).items_suffix hs.queue
      zero := fun hb h0 => (hs.counted.spent hb h0).silent hs
      left := ?left
      ended := ?ended }
  case left =>
    intro i c hc hphase
    obtain ⟨h0, hnil⟩ : r.arena.live = 0 ∧ r.arena.queue.toList = [] := by
      have hsettled := hs.settled hc
      rcases hphase with hphase | hphase <;>
      · rw [hphase] at hsettled
        exact hsettled
    exact ⟨hnil, (hs.counted.spent (hs.counted.begun hc) h0).silent hs⟩
  case ended =>
    intro hall hgone
    refine hs.counted.live_eq_zero ?_ fun i p hp => ?_
    · rcases hall with hsize | hm
      · have hle := hs.counted.hired.pending_add_le
        omega
      · exact (hmended hm).2
    · obtain ⟨exit, he⟩ := hgone i _ hp
      cases he

/-- The producer is cancelled before it has made anything; one consumer finds the end behind the
item that was there at the start, and the other one is still to look. -/
def earlyEnd : List Label :=
  List.replicate 7 Label.caller ++ Label.cancel :: List.replicate 3 (Label.producer 0 7) ++
    List.replicate 5 (Label.consumer 1 0)

/-- Whatever comes after a consumer has left its loop, nobody enqueues, and the queue stays empty. -/
theorem run_signals_drained_early :
    (((start trio (.ofList [⟨9, 4, 1⟩]) .new).run trio earlyEnd).consumers[1]?.map
        Consumer.phase = some .leave) ∧
      ∀ later, ((start trio (.ofList [⟨9, 4, 1⟩]) .new).run trio
          (earlyEnd ++ later)).arena.queue.toList = [] ∧
        ∀ l, ¬ ((start trio (.ofList [⟨9, 4, 1⟩]) .new).run trio (earlyEnd ++ later)).Enqueues l := by
  have hphase : ((start trio (.ofList [⟨9, 4, 1⟩]) .new).run trio earlyEnd).consumers[1]?.map
      Consumer.phase = some .leave := by
    decide +kernel
  obtain ⟨c, hc, hleave⟩ := Option.map_eq_some_iff.mp hphase
  have hsignals := run_signals_drained trio (Chain.ofList_sound [(⟨9, 4, 1⟩ : Item)]).1 .new earlyEnd
  obtain ⟨hnil, hsilent⟩ := hsignals.left 1 c hc (.inl hleave)
  refine ⟨hphase, fun later => ?_⟩
  have hlater := hsilent later
  rw [run_append]
  exact ⟨List.suffix_nil.mp (hnil ▸ hlater.items), hlater.quiet⟩

end Race

end QueueRace
