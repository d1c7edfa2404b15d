import QueueRace.Proofs.Chain.Alone
import QueueRace.Worker.Consumer
import QueueRace.Worker.Producer

/-! One step of a consumer and one step of a producer, as far as the others can tell: what it does
to the items of the queue, and what its phase stands for afterwards. Neither of them touches the
count of producers, the token or the clock. -/

namespace QueueRace

/-! ### Consumers -/

namespace Consumer

/-- What the phase of a consumer says about the count of producers and about the queue. One that
has found the queue empty after it has seen no producer left relies on both to stay so. -/
def Phase.Settled (live : UInt64) (queue : List Item) : Phase → Prop
  | .poll drained => drained = true → live = 0
  | .leave | .ended => live = 0 ∧ queue = []
  | .look | .rest | .idle | .asleep _ | .panicked => True

theorem Phase.Settled.mono {live live' : UInt64} {queue queue' : List Item} {p : Phase}
    (h : p.Settled live queue) (hl : live = 0 → live' = 0)
    (hq : live = 0 → queue = [] → queue' = []) : p.Settled live' queue' := by
  cases p with
  | poll drained => exact fun hd => hl (h hd)
  | leave => exact ⟨hl h.1, hq h.1 h.2⟩
  | ended => exact ⟨hl h.1, hq h.1 h.2⟩
  | _ => trivial

theorem Phase.settled_ofPause (pause : Pause) (live : UInt64) (queue : List Item) :
    (Phase.ofPause pause).Settled live queue := by
  cases pause <;> trivial

structure Outcome (a : Arena) (c : Consumer) (r : Arena × Consumer) : Prop where
  grew : a.queue.Grew r.1.queue
  live : r.1.live = a.live
  stop : r.1.stop = a.stop
  now : r.1.now = a.now
  items : (r.2.items = c.items ∧ r.1.queue.toList = a.queue.toList) ∨
    ∃ item, a.queue.toList = item :: r.1.queue.toList ∧ r.2.items = c.items.push item
  settled : c.phase.Settled a.live a.queue.toList → r.2.phase.Settled a.live r.1.queue.toList
  exit : ∀ {e}, c.exit? = some e → r.2.exit? = some e

variable {a : Arena} {phase phase' : Phase} {items : Array Item}

/-- A step that leaves the queue alone. -/
theorem Outcome.quiet (log : Array (Who × Notice))
    (hs : phase.Settled a.live a.queue.toList → phase'.Settled a.live a.queue.toList)
    (he : ∀ {e}, exit? ⟨phase, items⟩ = some e → exit? ⟨phase', items⟩ = some e) :
    Outcome a ⟨phase, items⟩ ({ a with log }, ⟨phase', items⟩) :=
  ⟨.refl _, rfl, rfl, rfl, .inl ⟨rfl, rfl⟩, hs, he⟩

theorem advance_outcome (hq : a.queue.Sound) (cfg : Config) (id : ℕ) (word : UInt64)
    (c : Consumer) : Outcome a c (c.advance cfg id word a) := by
  obtain ⟨phase, items⟩ := c
  cases phase with
  | look =>
    refine .quiet a.log (fun _ hd => ?_) nofun
    simpa using hd
  | poll drained =>
    obtain ⟨queue, stop, live, now, log⟩ := a
    simp only [advance, step]
    rcases hq.dequeue_cases with ⟨queue', hd, g, hnil, hnil'⟩ | ⟨queue', item, hd, g, hlist⟩
    · simp only at hd
      rw [hd]
      refine ⟨g, rfl, rfl, rfl, .inl ⟨rfl, hnil'.trans hnil.symm⟩, fun hs => ?_, nofun⟩
      cases drained with
      | true => exact ⟨hs rfl, hnil'⟩
      | false => trivial
    · simp only at hd
      rw [hd]
      exact ⟨g, rfl, rfl, rfl, .inr ⟨item, hlist, rfl⟩, fun _ => trivial, nofun⟩
  | rest => exact .quiet a.log (fun _ => Phase.settled_ofPause _ _ _) nofun
  | idle => exact .quiet a.log (fun _ => Phase.settled_ofPause _ _ _) nofun
  | asleep deadline =>
    refine .quiet a.log (fun _ => ?_) nofun
    split <;> trivial
  | leave => exact .quiet _ (fun hs => hs) nofun
  | ended => exact .quiet a.log (fun hs => hs) fun he => he
  | panicked => exact .quiet a.log (fun hs => hs) fun he => he

end Consumer

/-! ### Producers -/

namespace Producer

/-- How many items a producer has enqueued. One that panics takes the number with it. -/
def count? : Producer → Option UInt64
  | .check n | .enqueue n | .rest n | .asleep n _ | .leave n => some n
  | .ended (.returned n) => some n
  | .ended .panicked => none

/-- No producer makes more than the given number of items, and one that makes fewer has seen the
token cancelled. -/
def Sound (items : UInt64) (cancelled : Bool) : Producer → Prop
  | .check n | .rest n | .asleep n _ => n ≤ items
  | .enqueue n => n < items
  | .leave n | .ended (.returned n) => n ≤ items ∧ (cancelled = false → n = items)
  | .ended .panicked => True

theorem Sound.cancel {items : UInt64} {cancelled : Bool} {p : Producer}
    (h : p.Sound items cancelled) : p.Sound items true := by
  cases p with
  | leave n => exact ⟨h.1, nofun⟩
  | ended exit =>
    cases exit with
    | returned n => exact ⟨h.1, nofun⟩
    | panicked => trivial
  | _ => exact h

/-- Below the number of items there is room to count on. -/
theorem toNat_succ {n items : UInt64} (h : n < items) : (n + 1).toNat = n.toNat + 1 := by
  have hmax := items.toNat_lt
  have hlt := UInt64.lt_iff_toNat_lt.mp h
  rw [UInt64.toNat_add]
  simp only [UInt64.reduceToNat]
  omega

/-- How a producer goes on when it pauses. -/
def ofPause (seq : UInt64) : Pause → Producer
  | .yielded => .check seq
  | .asleep deadline => .asleep seq deadline
  | .panicked => .ended .panicked

theorem step_rest (c : Config) (id : ℕ) (word : UInt64) (a : Arena) (seq : UInt64) :
    (Producer.rest seq).step c id word a =
      (a, ofPause seq (a.pause (jitter c.produceDelay word))) := by
  rw [step]
  cases a.pause (jitter c.produceDelay word) <;> rfl

structure Outcome (items : UInt64) (id : ℕ) (a : Arena) (p : Producer) (r : Arena × Producer) :
    Prop where
  grew : a.queue.Grew r.1.queue
  live : r.1.live = a.live
  stop : r.1.stop = a.stop
  now : r.1.now = a.now
  sound : p.Sound items a.stop.cancelled → r.2.Sound items a.stop.cancelled
  items : (r.1.queue.toList = a.queue.toList ∧ ∀ n, r.2.count? = some n → p.count? = some n) ∨
    ∃ n value, p = .enqueue n ∧ r.2.count? = some (n + 1) ∧
      r.1.queue.toList = a.queue.toList ++ [⟨id, n, value⟩]

variable {a : Arena} {p p' : Producer} {items : UInt64} {id : ℕ}

theorem Outcome.quiet (log : Array (Who × Notice))
    (hs : p.Sound items a.stop.cancelled → p'.Sound items a.stop.cancelled)
    (hc : ∀ n, p'.count? = some n → p.count? = some n) :
    Outcome items id a p ({ a with log }, p') :=
  ⟨.refl _, rfl, rfl, rfl, hs, .inl ⟨rfl, hc⟩⟩

theorem step_outcome (hq : a.queue.Sound) (cfg : Config) (id : ℕ) (word : UInt64) (p : Producer) :
    Outcome cfg.items id a p (p.step cfg id word a) := by
  cases p with
  | check n =>
    simp only [step]
    by_cases hn : n < cfg.items ∧ ¬ a.stop.cancelled
    · rw [if_pos hn]
      exact .quiet a.log (fun _ => hn.1) fun _ hc => hc
    · rw [if_neg hn]
      refine .quiet a.log (fun hle => ⟨hle, fun hc => ?_⟩) fun _ hc => hc
      have hlt : ¬ n < cfg.items := fun hlt => hn ⟨hlt, by simp [hc]⟩
      exact UInt64.le_antisymm hle (UInt64.not_lt.mp hlt)
  | enqueue n =>
    obtain ⟨g, hlist⟩ := hq.enqueue ⟨id, n, (pick (valueBound - 1) word).toNat⟩
    refine ⟨g, rfl, rfl, rfl, fun hlt => ?_, .inr ⟨n, _, rfl, rfl, hlist⟩⟩
    have hlt : n < cfg.items := hlt
    show n + 1 ≤ cfg.items
    rw [UInt64.le_iff_toNat_le, toNat_succ hlt]
    exact UInt64.lt_iff_toNat_lt.mp hlt
  | rest n =>
    rw [step_rest]
    cases a.pause (jitter cfg.produceDelay word) with
    | yielded => exact .quiet a.log (fun h => h) fun _ hc => hc
    | asleep deadline => exact .quiet a.log (fun h => h) fun _ hc => hc
    | panicked => exact .quiet a.log (fun _ => trivial) nofun
  | asleep n deadline =>
    simp only [step]
    split
    · exact .quiet a.log (fun h => h) fun _ hc => hc
    · exact .quiet a.log (fun h => h) fun _ hc => hc
  | leave n => exact .quiet _ (fun h => h) fun _ hc => hc
  | ended exit => exact .quiet a.log (fun h => h) fun _ hc => hc

end Producer

end QueueRace
