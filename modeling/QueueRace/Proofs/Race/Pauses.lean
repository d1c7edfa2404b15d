import QueueRace.Proofs.Race.Panics
import QueueRace.Proofs.Race.Token

/-! Which pauses can panic. The deadline of a pause is worked out before the token is looked at, so
all that counts is how long a span can be. Random spans are cut to whole microseconds in a machine
word and always fit. What does not is the pause of a consumer that has found nothing, and how it
came to that pause is traced back through its own steps. -/

namespace QueueRace

theorem Arena.pause_of_limit_le {a : Arena} {span : Duration} (h : Instant.limit ≤ span.toNanos) :
    a.pause span = .panicked := by
  have hpos : 0 < Instant.limit := by decide
  have hzero : ¬ span.isZero := by
    intro hzero
    rw [Duration.toNanos_eq_zero hzero] at h
    exact absurd h (Nat.not_le.mpr hpos)
  have hadd : a.now.add? span = none := if_neg (Nat.not_lt.mpr (h.trans (Nat.le_add_left _ _)))
  rw [pause, if_neg hzero, hadd]

/-! ### The steps of a consumer, backwards -/

namespace Consumer

/-- Where a step takes a consumer. -/
inductive Goes (cfg : Config) (word : UInt64) (a : Arena) : Phase → Phase → Prop
  | looks : Goes cfg word a .look (.poll (a.live = 0))
  | gets (drained : Bool) : Goes cfg word a (.poll drained) .rest
  | gives (h : a.queue.toList = []) : Goes cfg word a (.poll true) .leave
  | misses (h : a.queue.toList = []) : Goes cfg word a (.poll false) .idle
  | rests : Goes cfg word a .rest (.ofPause (a.pause (jitter cfg.consumeDelay word)))
  | idles : Goes cfg word a .idle (.ofPause (a.pause cfg.pollInterval))
  | wakes (deadline : Instant) : Goes cfg word a (.asleep deadline) .look
  | sleeps (deadline : Instant) : Goes cfg word a (.asleep deadline) (.asleep deadline)
  | exits : Goes cfg word a .leave .ended
  | remains {p : Phase} (h : p = .ended ∨ p = .panicked) : Goes cfg word a p p

variable {cfg : Config} {word : UInt64} {a : Arena} {p q : Phase}

theorem advance_goes (hq : a.queue.Sound) (id : ℕ) (c : Consumer) :
    Goes cfg word a c.phase (c.advance cfg id word a).2.phase := by
  obtain ⟨phase, items⟩ := c
  cases phase with
  | look => exact .looks
  | poll drained =>
    obtain ⟨queue, stop, live, now, log⟩ := a
    simp only [advance, step]
    rcases hq.dequeue_cases with ⟨queue', hd, -, hnil, -⟩ | ⟨queue', item, hd, -, -⟩
    · simp only at hd
      rw [hd]
      cases drained with
      | true => exact .gives hnil
      | false => exact .misses hnil
    · simp only at hd
      rw [hd]
      exact .gets drained
  | rest => exact .rests
  | idle => exact .idles
  | asleep deadline =>
    simp only [advance, step]
    split
    · exact .wakes deadline
    · exact .sleeps deadline
  | leave => exact .exits
  | ended => exact .remains (.inl rfl)
  | panicked => exact .remains (.inr rfl)

theorem Phase.ofPause_ne (pause : Pause) :
    Phase.ofPause pause ≠ .poll false ∧ Phase.ofPause pause ≠ .idle ∧
      (Phase.ofPause pause = .panicked → pause = .panicked) := by
  cases pause <;> simp [Phase.ofPause]

theorem Goes.of_poll (h : Goes cfg word a p q) (hq : q = .poll false) : p = .look ∧ a.live ≠ 0 := by
  cases h with
  | looks => simpa using hq
  | rests | idles => exact absurd hq (Phase.ofPause_ne _).1
  | remains h => rcases h with rfl | rfl <;> cases hq
  | _ => cases hq

theorem Goes.of_idle (h : Goes cfg word a p q) (hq : q = .idle) :
    p = .poll false ∧ a.queue.toList = [] := by
  cases h with
  | misses h => exact ⟨rfl, h⟩
  | rests | idles => exact absurd hq (Phase.ofPause_ne _).2.1
  | remains h => rcases h with rfl | rfl <;> cases hq
  | _ => cases hq

theorem Goes.of_panicked (h : Goes cfg word a p q) (hq : q = .panicked)
    (ha : a.now + UInt64.size * 1000 ≤ Instant.limit) :
    p = .panicked ∨ p = .idle ∧ a.now.add? cfg.pollInterval = none := by
  cases h with
  | rests =>
    exact absurd ((Phase.ofPause_ne _).2.2 hq) (Arena.pause_jitter_ne_panicked ha _ word)
  | idles => exact .inr ⟨rfl, Arena.pause_eq_panicked ((Phase.ofPause_ne _).2.2 hq)⟩
  | remains h => exact .inl hq
  | _ => cases hq

end Consumer

namespace Race

variable {s : Setup} {r r' : Race} {l : Label} {i : ℕ} {past : List Label} {word : UInt64}

def phase? (r : Race) (i : ℕ) : Option Consumer.Phase := r.consumers[i]?.map Consumer.phase

/-- Steps of others do not touch a consumer. -/
theorem Turn.phase_of_ne (ht : Turn s r l r') (hl : ∀ word, l ≠ .consumer i word)
    {p : Consumer.Phase} (h : r'.phase? i = some p) : r.phase? i = some p ∨ p = .look := by
  cases ht with
  | hireConsumer hc hi hf =>
    simp only [phase?, Array.getElem?_push] at h
    split at h
    · exact .inr (Option.some.inj h).symm
    · exact .inl h
  | @consumer j c hc word =>
    simp only [phase?, getElem?_set hc] at h
    rw [if_neg fun hj : j = i => hl word (hj ▸ rfl)] at h
    exact .inl h
  | _ => exact .inl h

theorem Turn.goes (ht : Turn s r (.consumer i word) r') (hq : r.arena.queue.Sound)
    {q : Consumer.Phase} (h : r'.phase? i = some q) :
    ∃ p, r.phase? i = some p ∧ Consumer.Goes s.config word r.arena p q := by
  cases ht with
  | stay hs =>
    cases hs with
    | noConsumer hnone =>
      rw [phase?, hnone] at h
      cases h
  | @consumer _ c hc word =>
    rw [phase?, getElem?_set hc, if_pos rfl] at h
    obtain rfl := Option.some.inj h
    exact ⟨c.phase, by rw [phase?, hc]; rfl, Consumer.advance_goes hq i c⟩

/-! ### What a consumer has been through -/

/-- `P` was the case when consumer `i` was about to make the last of its steps in `past`. -/
def Before (i : ℕ) (past : List Label) (P : List Label → Prop) : Prop :=
  ∃ earlier word later, past = earlier ++ .consumer i word :: later ∧
    (∀ word, .consumer i word ∉ later) ∧ P earlier

/-- It has read a count of producers that is not zero. -/
def Looked (s : Setup) (r : Race) (i : ℕ) (past : List Label) : Prop :=
  Before i past fun earlier =>
    (r.run s earlier).phase? i = some .look ∧ (r.run s earlier).arena.live ≠ 0

/-- After that it has found the queue empty. -/
def FoundNothing (s : Setup) (r : Race) (i : ℕ) (past : List Label) : Prop :=
  Before i past fun earlier =>
    (r.run s earlier).phase? i = some (.poll false) ∧ (r.run s earlier).arena.queue.toList = [] ∧
      Looked s r i earlier

/-- After that it was about to pause, and the clock had no room for the end of the pause. -/
def Overslept (s : Setup) (r : Race) (i : ℕ) (past : List Label) : Prop :=
  ∃ earlier word later, past = earlier ++ .consumer i word :: later ∧
    (r.run s earlier).phase? i = some .idle ∧
    (r.run s earlier).arena.now.add? s.config.pollInterval = none ∧ FoundNothing s r i earlier

structure Remembers (s : Setup) (r : Race) (i : ℕ) (past : List Label) : Prop where
  looked : (r.run s past).phase? i = some (.poll false) → Looked s r i past
  found : (r.run s past).phase? i = some .idle → FoundNothing s r i past
  overslept : (r.run s past).phase? i = some .panicked → Overslept s r i past

theorem Before.now (P : List Label → Prop) (h : P past) (word : UInt64) :
    Before i (past ++ [.consumer i word]) P :=
  ⟨past, word, [], rfl, fun _ => List.not_mem_nil, h⟩

theorem Before.snoc {P : List Label → Prop} (h : Before i past P)
    (hl : ∀ word, l ≠ .consumer i word) : Before i (past ++ [l]) P := by
  obtain ⟨earlier, word, later, rfl, hlater, hp⟩ := h
  refine ⟨earlier, word, later ++ [l], by simp, fun v hv => ?_, hp⟩
  rcases List.mem_append.mp hv with hv | hv
  · exact hlater v hv
  · exact hl v (List.mem_singleton.mp hv).symm

theorem Overslept.snoc (h : Overslept s r i past) (l : Label) : Overslept s r i (past ++ [l]) := by
  obtain ⟨earlier, word, later, rfl, hend⟩ := h
  exact ⟨earlier, word, later ++ [l], by simp, hend⟩

theorem Remembers.snoc (h : Remembers s r i past) (hq : (r.run s past).arena.queue.Sound)
    (hroom : (r.run s past).arena.now + UInt64.size * 1000 ≤ Instant.limit) (l : Label) :
    Remembers s r i (past ++ [l]) := by
  have hrun : r.run s (past ++ [l]) = (r.run s past).step s l := run_append s r past [l]
  have ht := step_turn s (r.run s past) l
  rw [← hrun] at ht
  by_cases hl : ∃ word, l = .consumer i word
  · obtain ⟨word, rfl⟩ := hl
    constructor
    · intro hp
      obtain ⟨p, hpast, hgoes⟩ := ht.goes hq hp
      obtain ⟨rfl, hlive⟩ := hgoes.of_poll rfl
      exact .now _ ⟨hpast, hlive⟩ word
    · intro hp
      obtain ⟨p, hpast, hgoes⟩ := ht.goes hq hp
      obtain ⟨rfl, hnil⟩ := hgoes.of_idle rfl
      exact .now _ ⟨hpast, hnil, h.looked hpast⟩ word
    · intro hp
      obtain ⟨p, hpast, hgoes⟩ := ht.goes hq hp
      rcases hgoes.of_panicked rfl hroom with rfl | ⟨rfl, hadd⟩
      · exact (h.overslept hpast).snoc _
      · exact ⟨past, word, [], rfl, hpast, hadd, h.found hpast⟩
  · have hne : ∀ word, l ≠ .consumer i word := fun word hw => hl ⟨word, hw⟩
    constructor
    · intro hp
      exact (h.looked ((ht.phase_of_ne hne hp).resolve_right nofun)).snoc hne
    · intro hp
      exact (h.found ((ht.phase_of_ne hne hp).resolve_right nofun)).snoc hne
    · intro hp
      exact (h.overslept ((ht.phase_of_ne hne hp).resolve_right nofun)).snoc l

theorem run_remembers (s : Setup) {queue : Chain Item} (hq : queue.Sound) (stop : StopToken)
    (schedule : List Label) (i : ℕ)
    (hroom : ((start s queue stop).run s schedule).arena.now + UInt64.size * 1000 ≤ Instant.limit) :
    Remembers s (start s queue stop) i schedule := by
  induction schedule using List.reverseRecOn with
  | nil => exact ⟨nofun, nofun, nofun⟩
  | append_singleton past l ih =>
    have hsound := (run_sound s hq stop past).queue
    have hle := (step_turn s ((start s queue stop).run s past) l).now_le hsound
    rw [run_append] at hroom
    have hpast := (Nat.add_le_add_right hle _).trans hroom
    exact (ih hpast).snoc hsound hpast l

theorem run_steady (s : Setup) {queue : Chain Item} (hq : queue.Sound) (stop : StopToken)
    (schedule : List Label)
    (htimeout : ∀ span, s.timeout = some span →
      ((start s queue stop).run s schedule).arena.now + span.toNanos < Instant.limit)
    (hroom : ((start s queue stop).run s schedule).arena.now + UInt64.size * 1000 ≤ Instant.limit) :
    ((start s queue stop).run s schedule).Steady := by
  induction schedule using List.reverseRecOn with
  | nil => exact start_steady s queue stop
  | append_singleton past l ih =>
    have ht := step_turn s ((start s queue stop).run s past) l
    have hle := ht.now_le (run_sound s hq stop past).queue
    rw [run_append] at htimeout hroom ⊢
    have htimeout' := fun span hspan =>
      (Nat.add_le_add_right hle span.toNanos).trans_lt (htimeout span hspan)
    have hroom' := (Nat.add_le_add_right hle _).trans hroom
    exact ht.steady htimeout' hroom' (ih htimeout' hroom')

/-- What is so of the pauses of a run. -/
structure Pauses (s : Setup) (r : Race) (schedule : List Label) : Prop where
  calm : s.config.pollInterval ≤ .ample → (r.run s schedule).Calm
  random : ∀ earlier, earlier <+: schedule → ∀ longest word,
    ((r.run s earlier).arena.now.add? (jitter longest word)).isSome
  steady : (r.run s schedule).Steady
  overslept : ∀ i, (r.run s schedule).phase? i = some .panicked → Overslept s r i schedule
  /-- Whether the token is cancelled makes no difference. -/
  doomed : Instant.limit ≤ s.config.pollInterval.toNanos → ∀ i word,
    (r.run s schedule).phase? i = some .idle →
      (r.run s (schedule ++ [.consumer i word])).phase? i = some .panicked

theorem phase_of_doomed (hlimit : Instant.limit ≤ s.config.pollInterval.toNanos)
    (h : r.phase? i = some .idle) (word : UInt64) :
    (r.step s (.consumer i word)).phase? i = some .panicked := by
  obtain ⟨⟨phase, items⟩, hc, hp⟩ := Option.map_eq_some_iff.mp h
  obtain rfl : phase = .idle := hp
  have ht := step_turn s r (.consumer i word)
  generalize r.step s (.consumer i word) = r' at ht
  cases ht with
  | stay hs =>
    cases hs with
    | noConsumer hnone => cases hnone.symm.trans hc
  | consumer hc' word =>
    obtain rfl := Option.some.inj (hc'.symm.trans hc)
    rw [phase?, getElem?_set hc, if_pos rfl]
    simp only [Consumer.advance, Consumer.step, Arena.pause_of_limit_le hlimit]
    rfl

/-- Where the clock has ample room for the poll interval and the timeout, nobody panics in a pause,
however long the delays of the configuration are, and without the bound on the poll interval no
producer and no watchdog does. A consumer that panics has read a count of producers that is not
zero, then found the queue empty, and then paused for longer than the clock had room for. An
interval of `2 ^ 63` seconds or more is too long always, also when the token is cancelled. -/
theorem run_pauses (s : Setup) {queue : Chain Item} (hq : queue.Sound) (stop : StopToken)
    (schedule : List Label) (htimeout : ∀ span, s.timeout = some span → span ≤ .ample)
    (hclock : (((start s queue stop).run s schedule).arena.now.add? .ample).isSome) :
    Pauses s (start s queue stop) schedule where
  calm hpoll := run_calm s hq stop schedule (Setup.fits_of_ample hpoll htimeout hclock)
  random := by
    rintro earlier ⟨later, rfl⟩ longest word
    have hle := run_now_le (run_sound s hq stop earlier) later
    rw [run_append] at hclock
    have hroom := (Nat.add_le_add_right hle _).trans (Instant.random_of_ample hclock)
    have hlt := Nat.add_lt_add_left (toNanos_jitter_lt longest word)
      ((start s queue stop).run s earlier).arena.now
    rw [Instant.add?_of_lt (Nat.lt_of_lt_of_le hlt hroom)]
    rfl
  steady := run_steady s hq stop schedule
    (fun span hspan => Nat.lt_of_le_of_lt (Nat.add_le_add_left (htimeout span hspan) _)
      (Instant.lt_of_add?_isSome hclock)) (Instant.random_of_ample hclock)
  overslept i := (run_remembers s hq stop schedule i (Instant.random_of_ample hclock)).overslept
  doomed hlimit i word h := by
    rw [run_append]
    exact phase_of_doomed hlimit h word

/-- The same with a poll interval that just fits. -/
def patient : Setup :=
  { impatient with config := { impatient.config with pollInterval := .ample } }

/-- The token is cancelled from the beginning, and the consumer panics all the same. With a shorter
poll interval it does not. -/
theorem run_pauses_impatient :
    ((start impatient .empty ⟨true, false⟩).run impatient impatientBeginning).phase? 0 =
        some .panicked ∧
      Overslept impatient (start impatient .empty ⟨true, false⟩) 0 impatientBeginning ∧
      ((start patient .empty ⟨true, false⟩).run patient impatientBeginning).Calm := by
  have hclock : (((start impatient .empty ⟨true, false⟩).run impatient
      impatientBeginning).arena.now.add? .ample).isSome := by
    decide +kernel
  have hclock' : (((start patient .empty ⟨true, false⟩).run patient
      impatientBeginning).arena.now.add? .ample).isSome := by
    decide +kernel
  have hp : ((start impatient .empty ⟨true, false⟩).run impatient impatientBeginning).phase? 0 =
      some .panicked := by
    decide +kernel
  exact ⟨hp, (run_pauses impatient Chain.empty_sound ⟨true, false⟩ _ nofun hclock).overslept 0 hp,
    (run_pauses patient Chain.empty_sound ⟨true, false⟩ _ nofun hclock').calm
      (Nat.le_refl _)⟩

end Race

end QueueRace
