import Mathlib.Data.Nat.Notation
import Mathlib.Logic.Function.Basic
import QueueRace.Proofs.Slots
import QueueRace.Proofs.StopToken.Completion
import QueueRace.Proofs.StopToken.Poison

/-! Tokens in slots, and which of them a cancellation reaches. Slots are overwritten and emptied and
clones go anywhere, so what counts is not where a token lies but where it comes from: the clones of
a token share its state, whoever holds them, and no other token has a part in it. A cancellation
outlives the token that it was made through. -/

namespace QueueRace

namespace TokenScript

def Step.renews : Step → Bool
  | .renew => true
  | _ => false

/-- The slot whose token a step cancels that is made with slot `q`. -/
def Step.target? (q : Slot) : Step → Option Slot
  | .act .cancel => some q
  | .act (.sleepUntilCancelled _ canceller _) => some canceller
  | _ => none

/-- The tokens in the slots after a step, which may make the token `made`. -/
def Step.deal (made : ℕ) (q : Slot) (held : Slot → Option ℕ) : Step → Slot → Option ℕ
  | .renew => Function.update held q (some made)
  | .drop => Function.update held q none
  | .act (.clone target) =>
    if (held q).isSome then Function.update held target (some made) else held
  | .act _ => held

section
variable (script : List (Slot × Step))

/-- The token in each slot after `n` steps. Token 0 is there at the start, and token `n + 1` is the
one that step `n` makes. -/
def held : ℕ → Slot → Option ℕ
  | 0 => Function.update (fun _ => none) 0 (some 0)
  | n + 1 => script[n]?.elim (held n) fun (q, step) => step.deal (n + 1) q (held n)

/-- The token is not a clone of another one. -/
def IsNew (t : ℕ) : Prop := t = 0 ∨ ∃ n q, t = n + 1 ∧ script[n]? = some (q, .renew)

/-- Token `o` is new, and token `t` is `o` itself or comes from it by clones. -/
inductive Descends (o : ℕ) : ℕ → Prop
  | new (h : IsNew script o) : Descends o o
  | clone {n t : ℕ} {q target : Slot} (hn : script[n]? = some (q, .act (.clone target)))
    (hq : held script n q = some t) (ht : Descends o t) : Descends o (n + 1)

/-- Step `n` cancels token `t`, or another thread does so while step `n` sleeps. -/
def Cancels (n t : ℕ) : Prop :=
  ∃ q step p, script[n]? = some (q, step) ∧ (held script n q).isSome = true ∧
    step.target? q = some p ∧ held script n p = some t

/-- One of the first `n` steps cancels a token that comes from the same new one as `t`. -/
def Cancelled (n t : ℕ) : Prop :=
  ∃ o, Descends script o t ∧ ∃ i < n, ∃ u, Cancels script i u ∧ Descends script o u

/-- What is shown of slot `q` after `n` steps. -/
def shown? : ℕ → Slot → Option Bool
  | 0, q => Slots.get? State.start.view q
  | n + 1, q => (run .start script)[n]?.bind fun answer => Slots.get? answer.2 q

/-- What the script shows of cancellations and poisonings. -/
structure Shares : Prop where
  origin : ∀ {n q t}, held script n q = some t → ∃! o, Descends script o t
  /-- A token is cancelled if a token of the same origin was, and only then. -/
  shows : ∀ {n}, n ≤ script.length → ∀ q b, shown? script n q = some b ↔
    ∃ t, held script n q = some t ∧ (b = true ↔ Cancelled script n t)
  asked : ∀ {n q t}, script[n]? = some (q, .act .isCancelled) → held script n q = some t →
    ∃ b view, (run .start script)[n]? = some (.flag b, view) ∧ (b = true ↔ Cancelled script n t)
  finished : ∀ e ∈ run .start script, e.1 ≠ .unfinished
  /-- A cancellation is not taken back, wherever the clones go. -/
  kept : ∀ {n n' q q' t t' o}, n ≤ n' → n' ≤ script.length → shown? script n q = some true →
    held script n q = some t → held script n' q' = some t' → Descends script o t →
    Descends script o t' → shown? script n' q' = some true
  /-- A cancellation leaves the tokens of another origin as they are. -/
  apart : ∀ {n q t u o}, Cancels script n u → held script n q = some t → Descends script o t →
    ¬Descends script o u → shown? script (n + 1) q = shown? script n q
  /-- Without its poisonings the script answers the same, and shows the same of all slots. -/
  unpoisoned : List.Forall₂ (fun a b => a.1.Alike b.1 ∧ a.2 = b.2)
    (((script.zip (run .start script)).filter fun e => !e.1.2.poisons).map Prod.snd)
    (run .start (script.filter fun e => !e.2.poisons))
  /-- Every lock and every wait goes on whether or not the mutex is poisoned, in every interleaving.
  -/
  recovers : ∀ {m m' : Monitor}, m.unpoisoned = m'.unpoisoned → ∀ moves,
    (m.follow moves).map Monitor.unpoisoned = (m'.follow moves).map Monitor.unpoisoned

/-- The state after `n` steps. -/
def after (n : ℕ) : State := (script.take n).foldl (fun s e => (runStep s e.1 e.2).1) .start

/-- Where the state of a new token lies. -/
def place (o : ℕ) : ℕ := (script.take o).countP fun e => e.2.renews

/-- What the state `s` after `n` steps knows of the tokens. -/
structure Lies (n : ℕ) (s : State) : Prop where
  size : s.states.size = place script n + 1
  tokens : ∀ {q i}, s.tokens.get? q = some i ↔
    ∃ t o, held script n q = some t ∧ Descends script o t ∧ place script o = i
  flags : ∀ {o}, IsNew script o → o ≤ n → ((s.state (place script o)).cancelled = true ↔
    ∃ i < n, ∃ u, Cancels script i u ∧ Descends script o u)

end

section
variable {script : List (Slot × Step)} {n o o' t u : ℕ} {q : Slot} {step : Step} {s : State}

/-! ### Descent -/

theorem Descends.isNew (h : Descends script o t) : IsNew script o := by
  induction h with
  | new h => exact h
  | clone _ _ _ ih => exact ih

theorem held_zero (h : held script 0 q = some t) : t = 0 := by
  rw [held, Function.update_apply] at h
  split at h
  · exact (Option.some.inj h).symm
  · cases h

theorem held_succ (hn : script[n]? = some (q, step)) :
    held script (n + 1) = step.deal (n + 1) q (held script n) := by
  rw [held, hn, Option.elim_some]

/-- A token lies where it lay before, or was made by the last step. -/
theorem held_cases (h : held script (n + 1) q = some t) : held script n q = some t ∨
    t = n + 1 ∧ ∃ p, script[n]? = some (p, .renew) ∨
      ∃ target u, script[n]? = some (p, .act (.clone target)) ∧ held script n p = some u := by
  have hupdate : ∀ {p : Slot} {x : Option ℕ}, Function.update (held script n) p x q = some t →
      x = some t ∨ held script n q = some t := by
    intro p x h
    rw [Function.update_apply] at h
    split at h
    · exact .inl h
    · exact .inr h
  cases hn : script[n]? with
  | none =>
    rw [held, hn] at h
    exact .inl h
  | some e =>
    obtain ⟨p, step⟩ := e
    rw [held_succ hn] at h
    cases step with
    | renew => exact (hupdate h).symm.imp_right fun h => ⟨(Option.some.inj h).symm, p, .inl rfl⟩
    | drop => exact .inl ((hupdate h).resolve_left nofun)
    | act action =>
      cases action with
      | clone target =>
        simp only [Step.deal] at h
        split at h
        · rename_i hp
          obtain ⟨u, hu⟩ := Option.isSome_iff_exists.mp hp
          exact (hupdate h).symm.imp_right fun h =>
            ⟨(Option.some.inj h).symm, p, .inr ⟨target, u, rfl, hu⟩⟩
        · exact .inl h
      | _ => exact .inl h

theorem held_le (h : held script n q = some t) : t ≤ n := by
  induction n generalizing q with
  | zero => exact (held_zero h).le
  | succ n ih =>
    rcases held_cases h with h | ⟨rfl, -⟩
    · exact (ih h).trans (Nat.le_succ n)
    · exact le_rfl

theorem exists_descends (h : held script n q = some t) : ∃ o, Descends script o t := by
  induction n generalizing q t with
  | zero =>
    obtain rfl := held_zero h
    exact ⟨0, .new (.inl rfl)⟩
  | succ n ih =>
    rcases held_cases h with h | ⟨rfl, p, hn | ⟨target, u, hn, hu⟩⟩
    · exact ih h
    · exact ⟨n + 1, .new (.inr ⟨n, p, rfl, hn⟩)⟩
    · obtain ⟨o, ho⟩ := ih hu
      exact ⟨o, .clone hn hu ho⟩

theorem Descends.le (h : Descends script o t) : o ≤ t := by
  induction h with
  | new => exact le_rfl
  | clone _ hq _ ih => exact ih.trans ((held_le hq).trans (Nat.le_succ _))

theorem not_isNew (hn : script[n]? = some (q, step)) (hs : step ≠ .renew) :
    ¬IsNew script (n + 1) := by
  rintro (h | ⟨n', q', h, hn'⟩)
  · cases h
  · obtain rfl := Nat.succ.inj h
    cases hn.symm.trans hn'
    exact hs rfl

/-- A clone is made from one token, and is not new. -/
theorem Descends.unique (h : Descends script o t) (h' : Descends script o' t) : o = o' := by
  induction h with
  | new h =>
    cases h' with
    | new => rfl
    | clone hn => exact absurd h (not_isNew hn nofun)
  | clone hn hq _ ih =>
    cases h' with
    | new h' => exact absurd h' (not_isNew hn nofun)
    | clone hn' hq' ht' =>
      cases hn.symm.trans hn'
      obtain rfl := Option.some.inj (hq.symm.trans hq')
      exact ih ht'

theorem Cancels.unique (h : Cancels script n t) (h' : Cancels script n u) : t = u := by
  obtain ⟨q, step, p, hn, -, hp, ht⟩ := h
  obtain ⟨q', step', p', hn', -, hp', hu⟩ := h'
  cases hn.symm.trans hn'
  obtain rfl := Option.some.inj (hp.symm.trans hp')
  exact Option.some.inj (ht.symm.trans hu)

theorem Cancels.le (h : Cancels script n t) : t ≤ n := by
  obtain ⟨q, step, p, -, -, -, ht⟩ := h
  exact held_le ht

theorem Descends.cancelled_iff (h : Descends script o t) : Cancelled script n t ↔
    ∃ i < n, ∃ u, Cancels script i u ∧ Descends script o u := by
  constructor
  · rintro ⟨o', ho', hc⟩
    exact h.unique ho' ▸ hc
  · exact fun hc => ⟨o, h, hc⟩

/-- A token of another origin has no part in a cancellation. -/
theorem Cancels.cancelled_succ_iff (hu : Cancels script n u) (ho : Descends script o t)
    (hne : ¬Descends script o u) : Cancelled script (n + 1) t ↔ Cancelled script n t := by
  rw [ho.cancelled_iff, ho.cancelled_iff, Nat.exists_lt_succ_right, or_iff_left]
  rintro ⟨v, hv, hov⟩
  exact hne (hv.unique hu ▸ hov)

/-! ### Where the states lie -/

theorem place_mono (h : o ≤ n) : place script o ≤ place script n := by
  have hprefix : script.take o <+: script.take n := List.take_prefix_take_left h
  exact hprefix.sublist.countP_le

theorem place_succ (hn : script[n]? = some (q, step)) :
    place script (n + 1) = place script n + if step.renews then 1 else 0 := by
  rw [place, place, List.take_add_one, hn, Option.toList_some, List.countP_append,
    List.countP_singleton]

theorem place_lt (h : o < o') (ho' : IsNew script o') : place script o < place script o' := by
  rcases ho' with rfl | ⟨n, q, rfl, hn⟩
  · cases h
  · rw [place_succ hn]
    exact Nat.lt_succ_of_le (place_mono (Nat.le_of_lt_succ h))

theorem place_inj (ho : IsNew script o) (ho' : IsNew script o')
    (h : place script o = place script o') : o = o' := by
  rcases Nat.lt_trichotomy o o' with hlt | heq | hlt
  · exact absurd h (place_lt hlt ho').ne
  · exact heq
  · exact absurd h (place_lt hlt ho).ne'

theorem Descends.some_place_iff {i : ℕ} (ht : Descends script o t) : some (place script o) = some i ↔
    ∃ t' o', some t = some t' ∧ Descends script o' t' ∧ place script o' = i := by
  constructor
  · exact fun hi => ⟨t, o, rfl, ht, Option.some.inj hi⟩
  · rintro ⟨t', o', heq, ht', rfl⟩
    obtain rfl := Option.some.inj heq
    rw [ht.unique ht']

/-! ### One step -/

namespace State

/-- A visit cancels the state that it is made to, if anybody is to cancel it. -/
theorem state_visit (s : State) {i : ℕ} (hi : i < s.states.size) {threads : List Monitor.Thread}
    (h : threads.all Monitor.Thread.opens = true) (j : ℕ) :
    ((s.visit i threads).1.state j).cancelled = true ↔ (s.state j).cancelled = true ∨
      threads.any (·.kind = .canceller) = true ∧ i = j := by
  have hget : s.states[i]? = some (s.state i) := by
    rw [state, Array.getElem?_eq_getElem hi, Option.getD_some]
  have hrun := Monitor.run_cancelled (s.state i) s.now (List.all_eq_true.mp h)
  show ((s.states.setIfInBounds i (s.visit i threads).2.token)[j]?.getD .new).cancelled = true ↔ _
  rw [getElem?_set hget]
  by_cases hj : i = j
  · subst j
    rw [if_pos rfl, Option.getD_some, and_iff_left rfl, ← Bool.or_eq_true_iff, ← hrun]
    rfl
  · rw [if_neg hj, ← state, or_iff_left fun h => hj h.2]

theorem state_visit_quiet (s : State) {i : ℕ} (hi : i < s.states.size)
    {threads : List Monitor.Thread} (h : threads.all Monitor.Thread.opens = true)
    (hc : threads.any (·.kind = .canceller) = false) (j : ℕ) :
    ((s.visit i threads).1.state j).cancelled = true ↔ (s.state j).cancelled = true := by
  rw [s.state_visit hi h, hc]
  exact or_iff_left fun hj => Bool.false_ne_true hj.1

theorem size_visit (s : State) (i : ℕ) (threads : List Monitor.Thread) :
    (s.visit i threads).1.states.size = s.states.size :=
  Array.size_setIfInBounds

theorem state_renew (s : State) (q : Slot) (j : ℕ) : (s.renew q).state j = s.state j := by
  rw [state, state, renew, Array.getElem?_push]
  split
  · rename_i h
    rw [h, Array.getElem?_eq_none le_rfl]
    rfl
  · rfl

end State

theorem state_runAction {i : ℕ} (hs : ∀ {p i}, s.tokens.get? p = some i → i < s.states.size)
    (hq : s.tokens.get? q = some i) (action : Action) (j : ℕ) :
    ((runAction s i action).1.state j).cancelled = true ↔ (s.state j).cancelled = true ∨
      ((Step.act action).target? q).bind s.tokens.get? = some j := by
  have hi := hs hq
  have hnone : ∀ {x : Prop}, x ↔ x ∨ none = some j :=
    (or_iff_left (Option.some_ne_none j).symm).symm
  cases action with
  | cancel =>
    refine (s.state_visit hi rfl j).trans (or_congr_right ?_)
    show _ ↔ s.tokens.get? q = some j
    rw [hq, Option.some.injEq]
    exact and_iff_right rfl
  | poison => exact (s.state_visit_quiet hi rfl rfl j).trans hnone
  | sleep span => exact (s.state_visit_quiet hi rfl rfl j).trans hnone
  | sleepUntilCancelled span canceller delay =>
    simp only [runAction]
    show _ ↔ _ ∨ s.tokens.get? canceller = some j
    cases hk : s.tokens.get? canceller with
    | none => exact hnone
    | some k =>
      rw [Option.some.injEq]
      by_cases hki : k = i
      · simp only [if_pos hki]
        rw [s.state_visit hi rfl j, hki]
        exact or_congr_right (and_iff_right rfl)
      · simp only [if_neg hki]
        have hk' := hs hk
        rw [← s.size_visit i [.sleeper (.start span)]] at hk'
        rw [State.state_visit _ hk' rfl j, s.state_visit_quiet hi rfl rfl j]
        exact or_congr_right (and_iff_right rfl)
  | _ => exact hnone

/-- No action makes or loses a state, and only a clone is put anywhere. -/
theorem runAction_frame (s : State) (i : ℕ) (action : Action) :
    (runAction s i action).1.states.size = s.states.size ∧
      (runAction s i action).1.tokens = match action with
        | .clone target => s.tokens.put target i
        | _ => s.tokens := by
  cases action with
  | cancel => exact ⟨s.size_visit i _, rfl⟩
  | poison => exact ⟨s.size_visit i _, rfl⟩
  | sleep span => exact ⟨s.size_visit i _, rfl⟩
  | sleepUntilCancelled span canceller delay =>
    simp only [runAction]
    split
    · exact ⟨rfl, rfl⟩
    · split
      · exact ⟨s.size_visit i _, rfl⟩
      · exact ⟨(State.size_visit _ _ _).trans (s.size_visit i _), rfl⟩
  | _ => exact ⟨rfl, rfl⟩

/-- The state that a step cancels. -/
def State.reached? (s : State) (q : Slot) (step : Step) : Option ℕ :=
  (s.tokens.get? q).bind fun _ => (step.target? q).bind s.tokens.get?

/-- A step that cancels reaches one state, and every other step leaves all of them as they are. -/
theorem state_runStep (s : State) (q : Slot) (step : Step)
    (hs : ∀ {p i}, s.tokens.get? p = some i → i < s.states.size) (j : ℕ) :
    ((runStep s q step).1.state j).cancelled = true ↔ (s.state j).cancelled = true ∨
      s.reached? q step = some j := by
  have hquiet : s.reached? q step = none → ((s.state j).cancelled = true ↔
      (s.state j).cancelled = true ∨ s.reached? q step = some j) := by
    intro h
    rw [h]
    exact (or_iff_left (Option.some_ne_none j).symm).symm
  have htarget : step.target? q = none → s.reached? q step = none := by
    intro h
    rw [State.reached?, h]
    exact Option.bind_fun_none _
  cases step with
  | renew =>
    rw [← hquiet (htarget rfl), ← State.state_renew s q j]
    rfl
  | drop => exact hquiet (htarget rfl)
  | act action =>
    cases hq : s.tokens.get? q with
    | none =>
      rw [← hquiet (by rw [State.reached?, hq]; rfl), runStep, hq]
    | some i =>
      simp only [runStep, State.reached?, hq]
      exact state_runAction hs hq action j

end

/-! ### Answers -/

theorem ofSleep_ne_unfinished (s : State) (i : ℕ) {threads : List Monitor.Thread}
    (h : ∀ th ∈ threads, th.opens = true) {p : Monitor.Sleep}
    (hs : threads[0]? = some (.sleeper p)) (span : Duration) (start : Instant) :
    Reply.ofSleep span start (s.visit i threads).2 ≠ .unfinished := by
  rcases Monitor.run_sleeper (s.state i) s.now h hs with ⟨answer, hend⟩ | hend
  · simp [Reply.ofSleep, State.visit, hend]
  · simp [Reply.ofSleep, State.visit, hend]

theorem runAction_ne_unfinished (s : State) (i : ℕ) (action : Action) :
    (runAction s i action).2 ≠ .unfinished := by
  cases action with
  | sleep span => exact ofSleep_ne_unfinished s i (by simp [Monitor.Thread.opens]) rfl _ _
  | sleepUntilCancelled span canceller delay =>
    simp only [runAction]
    split
    · exact Reply.noConfusion
    · split
      · exact ofSleep_ne_unfinished s i (by simp [Monitor.Thread.opens]) rfl _ _
      · exact ofSleep_ne_unfinished s i (by simp [Monitor.Thread.opens]) rfl _ _
  | _ => exact Reply.noConfusion

theorem runStep_ne_unfinished (s : State) (q : Slot) (step : Step) :
    (runStep s q step).2 ≠ .unfinished := by
  cases step with
  | act action =>
    simp only [runStep]
    split
    · exact Reply.noConfusion
    · exact runAction_ne_unfinished s _ action
  | _ => exact Reply.noConfusion

/-- No sleep of a script is cut short. -/
theorem run_ne_unfinished (s : State) (script : List (Slot × Step)) :
    ∀ e ∈ run s script, e.1 ≠ .unfinished := by
  induction script generalizing s with
  | nil => exact List.forall_mem_nil _
  | cons e script ih =>
    rw [run]
    exact List.forall_mem_cons.mpr ⟨runStep_ne_unfinished s e.1 e.2, ih _⟩

/-! ### All steps -/

namespace Lies

variable {script : List (Slot × Step)} {n o : ℕ} {q : Slot} {step : Step} {s : State}

theorem lt_size (h : Lies script n s) {i : ℕ} (hq : s.tokens.get? q = some i) :
    i < s.states.size := by
  obtain ⟨t, o, ht, ho, rfl⟩ := h.tokens.mp hq
  rw [h.size]
  exact Nat.lt_succ_of_le (place_mono (ho.le.trans (held_le ht)))

theorem get?_iff (h : Lies script n s) (ho : IsNew script o) :
    s.tokens.get? q = some (place script o) ↔
      ∃ t, held script n q = some t ∧ Descends script o t := by
  rw [h.tokens]
  constructor
  · rintro ⟨t, o', ht, ho', hp⟩
    exact ⟨t, ht, place_inj ho'.isNew ho hp ▸ ho'⟩
  · rintro ⟨t, ht, ht'⟩
    exact ⟨t, o, ht, ht', rfl⟩

theorem get?_none (h : Lies script n s) : s.tokens.get? q = none ↔ held script n q = none := by
  constructor
  · intro hq
    refine Option.eq_none_iff_forall_ne_some.mpr fun t ht => ?_
    obtain ⟨o, ho⟩ := exists_descends ht
    cases hq.symm.trans (h.tokens.mpr ⟨t, o, ht, ho, rfl⟩)
  · intro hq
    refine Option.eq_none_iff_forall_ne_some.mpr fun i hi => ?_
    obtain ⟨t, o, ht, -⟩ := h.tokens.mp hi
    cases hq.symm.trans ht

theorem isSome_iff (h : Lies script n s) :
    (s.tokens.get? q).isSome = true ↔ (held script n q).isSome = true := by
  rw [Option.isSome_iff_ne_none, Option.isSome_iff_ne_none, ne_eq, ne_eq, h.get?_none]

/-- The state that a step cancels is that of the token that it cancels. -/
theorem reached?_iff (h : Lies script n s) (hn : script[n]? = some (q, step))
    (ho : IsNew script o) :
    s.reached? q step = some (place script o) ↔ ∃ t, Cancels script n t ∧ Descends script o t := by
  simp only [State.reached?, Option.bind_eq_some_iff]
  constructor
  · rintro ⟨i, hi, p, hp, hp'⟩
    obtain ⟨t, ht, ht'⟩ := (h.get?_iff ho).mp hp'
    exact ⟨t, ⟨q, step, p, hn, h.isSome_iff.mp (by rw [hi]; rfl), hp, ht⟩, ht'⟩
  · rintro ⟨t, ⟨q', step', p, hn', hq, hp, ht⟩, ht'⟩
    cases hn.symm.trans hn'
    obtain ⟨i, hi⟩ := Option.isSome_iff_exists.mp (h.isSome_iff.mpr hq)
    exact ⟨i, hi, p, hp, (h.get?_iff ho).mpr ⟨t, ht, ht'⟩⟩

theorem flags_step (h : Lies script n s) (hn : script[n]? = some (q, step)) (ho : IsNew script o)
    (hle : o ≤ n + 1) : (((runStep s q step).1.state (place script o)).cancelled = true ↔
      ∃ i < n + 1, ∃ u, Cancels script i u ∧ Descends script o u) := by
  rw [state_runStep s q step h.lt_size, h.reached?_iff hn ho]
  rcases Nat.le_succ_iff.mp hle with hle | rfl
  · rw [h.flags ho hle, Nat.exists_lt_succ_right]
  · -- the token is made by this step, and nobody has cancelled it
    have hnever : ¬∃ i < n + 1, ∃ u, Cancels script i u ∧ Descends script (n + 1) u := by
      rintro ⟨i, hi, u, hu, ho⟩
      have := ho.le
      have := hu.le
      omega
    have hsize : place script (n + 1) = s.states.size := by
      rcases ho with ho | ⟨n', q', ho, hn'⟩
      · cases ho
      · obtain rfl := Nat.succ.inj ho
        rw [place_succ hn', h.size]
        rfl
    refine iff_of_false ?_ hnever
    rintro (hc | ⟨u, hu, ho⟩)
    · rw [State.state, hsize, Array.getElem?_eq_none le_rfl] at hc
      cases hc
    · exact hnever ⟨n, Nat.lt_succ_self n, u, hu, ho⟩

theorem size_step (h : Lies script n s) (hn : script[n]? = some (q, step)) :
    (runStep s q step).1.states.size = place script (n + 1) + 1 := by
  rw [place_succ hn]
  cases step with
  | renew =>
    show (s.states.push .new).size = _
    rw [Array.size_push, h.size]
    rfl
  | drop => exact h.size
  | act action =>
    simp only [runStep]
    split
    · exact h.size
    · exact (runAction_frame s _ action).1.trans h.size

/-- A step puts the token that it makes where it says, and moves no other token. -/
theorem tokens_step (h : Lies script n s) (hn : script[n]? = some (q, step)) {p : Slot} {i : ℕ} :
    (runStep s q step).1.tokens.get? p = some i ↔
      ∃ t o, held script (n + 1) p = some t ∧ Descends script o t ∧ place script o = i := by
  rw [held_succ hn]
  cases step with
  | renew =>
    show Slots.get? (s.tokens.put q s.states.size) p = some i ↔ _
    simp only [Slots.get?_put, Step.deal, Function.update_apply]
    split
    · have hplace : s.states.size = place script (n + 1) := by
        rw [place_succ hn, h.size]
        rfl
      rw [hplace]
      exact (Descends.new (.inr ⟨n, q, rfl, hn⟩)).some_place_iff
    · exact h.tokens
  | drop =>
    show Slots.get? (s.tokens.remove q) p = some i ↔ _
    simp only [Slots.get?_remove, Step.deal, Function.update_apply]
    split
    · exact ⟨nofun, fun ⟨_, _, hp, _⟩ => nomatch hp⟩
    · exact h.tokens
  | act action =>
    simp only [runStep]
    cases hq : s.tokens.get? q with
    | none =>
      have hdeal : (Step.act action).deal (n + 1) q (held script n) = held script n := by
        cases action <;> simp [Step.deal, h.get?_none.mp hq]
      rw [hdeal]
      exact h.tokens
    | some k =>
      simp only [(runAction_frame s k action).2]
      cases action with
      | clone target =>
        obtain ⟨t, o, ht, ho, rfl⟩ := h.tokens.mp hq
        simp only [Slots.get?_put, Step.deal, ht, Option.isSome_some, if_true,
          Function.update_apply]
        split
        · exact (Descends.clone hn ht ho).some_place_iff
        · exact h.tokens
      | _ => exact h.tokens

theorem next (h : Lies script n s) (hn : script[n]? = some (q, step)) :
    Lies script (n + 1) (runStep s q step).1 :=
  ⟨h.size_step hn, h.tokens_step hn, h.flags_step hn⟩

end Lies

section
variable {script : List (Slot × Step)} {n o t u : ℕ} {q : Slot} {step : Step} {b : Bool}

theorem lies_start : Lies script 0 .start := by
  constructor
  case size => rfl
  case tokens =>
    intro q i
    rw [State.start, Slots.get?_cons, held, Function.update_apply]
    split
    · exact (Descends.new (o := 0) (.inl rfl)).some_place_iff
    · exact ⟨nofun, fun ⟨_, _, hq, _⟩ => nomatch hq⟩
  case flags =>
    intro o ho hle
    obtain rfl := Nat.le_zero.mp hle
    exact ⟨nofun, fun ⟨_, hi, _⟩ => absurd hi (Nat.not_lt_zero _)⟩

theorem after_succ (hn : script[n]? = some (q, step)) :
    after script (n + 1) = (runStep (after script n) q step).1 := by
  rw [after, after, List.take_add_one, hn, Option.toList_some, List.foldl_append]
  rfl

theorem lies_after (hn : n ≤ script.length) : Lies script n (after script n) := by
  induction n with
  | zero => exact lies_start
  | succ n ih =>
    have hget := List.getElem?_eq_getElem hn
    rw [after_succ hget]
    exact (ih (Nat.le_of_succ_le hn)).next hget

theorem run_getElem? (hn : script[n]? = some (q, step)) : (run .start script)[n]? =
    some ((runStep (after script n) q step).2, (runStep (after script n) q step).1.view) := by
  rw [after]
  generalize State.start = s
  induction script generalizing s n with
  | nil => cases hn
  | cons e script ih =>
    cases n with
    | zero =>
      obtain rfl := Option.some.inj hn
      rfl
    | succ n => exact ih hn _

/-- The state of a token knows of the cancellations. -/
theorem flag_iff (hn : n ≤ script.length) (ht : held script n q = some t)
    (ho : Descends script o t) :
    ((after script n).state (place script o)).cancelled = true ↔ Cancelled script n t := by
  rw [(lies_after hn).flags ho.isNew (ho.le.trans (held_le ht)), ho.cancelled_iff]

theorem shown?_eq (hn : n ≤ script.length) :
    shown? script n q = ((after script n).tokens.get? q).map fun i =>
      ((after script n).state i).cancelled := by
  have hview : ∀ s : State, Slots.get? s.view q = (s.tokens.get? q).map fun i =>
      (s.state i).cancelled := fun s => Slots.get?_map (fun i => (s.state i).cancelled) s.tokens q
  cases n with
  | zero => exact hview _
  | succ n =>
    have hget := List.getElem?_eq_getElem hn
    rw [after_succ hget, ← hview, shown?, run_getElem? hget]
    rfl

theorem shown?_iff (hn : n ≤ script.length) : shown? script n q = some b ↔
    ∃ t, held script n q = some t ∧ (b = true ↔ Cancelled script n t) := by
  have h := lies_after hn
  rw [shown?_eq hn, Option.map_eq_some_iff]
  constructor
  · rintro ⟨i, hi, rfl⟩
    obtain ⟨t, o, ht, ho, rfl⟩ := h.tokens.mp hi
    exact ⟨t, ht, flag_iff hn ht ho⟩
  · rintro ⟨t, ht, hb⟩
    obtain ⟨o, ho⟩ := exists_descends ht
    exact ⟨place script o, h.tokens.mpr ⟨t, o, ht, ho, rfl⟩,
      Bool.eq_iff_iff.mpr ((flag_iff hn ht ho).trans hb.symm)⟩

theorem Cancels.held_eq (h : Cancels script n u) : held script (n + 1) = held script n := by
  obtain ⟨q, step, p, hn, -, hp, -⟩ := h
  rw [held_succ hn]
  cases step with
  | act action =>
    cases action with
    | clone => cases hp
    | _ => rfl
  | _ => cases hp

theorem Cancels.lt (h : Cancels script n u) : n < script.length := by
  obtain ⟨q, step, p, hn, -⟩ := h
  exact (List.getElem?_eq_some_iff.mp hn).1

/-- The clones of a token share one cancellation, and nothing else has a part in it. -/
theorem run_shares (script : List (Slot × Step)) : Shares script := by
  constructor
  case origin =>
    intro n q t ht
    obtain ⟨o, ho⟩ := exists_descends ht
    exact ⟨o, ho, fun o' ho' => ho'.unique ho⟩
  case shows => exact fun hn q b => shown?_iff hn
  case asked =>
    intro n q t hn ht
    have hle := (List.getElem?_eq_some_iff.mp hn).1.le
    obtain ⟨o, ho⟩ := exists_descends ht
    have hq := (lies_after hle).tokens.mpr ⟨t, o, ht, ho, rfl⟩
    have hstep : runStep (after script n) q (.act .isCancelled) =
        (after script n, .flag ((after script n).state (place script o)).cancelled) := by
      rw [runStep, hq]
      rfl
    exact ⟨_, (after script n).view, by rw [run_getElem? hn, hstep], flag_iff hle ht ho⟩
  case finished => exact run_ne_unfinished .start script
  case kept =>
    intro n n' q q' t t' o hle hn' hq ht ht' ho ho'
    obtain ⟨t₁, ht₁, hc⟩ := (shown?_iff (hle.trans hn')).mp hq
    obtain rfl := Option.some.inj (ht₁.symm.trans ht)
    obtain ⟨i, hi, hu⟩ := ho.cancelled_iff.mp (hc.mp rfl)
    exact (shown?_iff hn').mpr
      ⟨t', ht', iff_of_true rfl (ho'.cancelled_iff.mpr ⟨i, hi.trans_le hle, hu⟩)⟩
  case apart =>
    intro n q t u o hu ht ho hne
    refine Option.ext fun b => ?_
    rw [shown?_iff hu.lt, shown?_iff hu.lt.le, hu.held_eq]
    refine exists_congr fun t' => and_congr_right fun ht' => ?_
    obtain rfl := Option.some.inj (ht'.symm.trans ht)
    rw [hu.cancelled_succ_iff ho hne]
  case unpoisoned => exact run_alike script rfl
  case recovers => exact fun h moves => Monitor.follow_alike h moves

/-- The first token is dropped and poisoned, and cancelled through its clone. The new one in its
slot is not. -/
example : run .start [(0, .act (.clone 1)), (0, .drop), (1, .act .poison), (0, .renew),
      (1, .act .cancel)] =
    [(.done, [(0, false), (1, false)]), (.flag true, [(1, false)]), (.done, [(1, false)]),
      (.done, [(0, false), (1, false)]), (.done, [(0, false), (1, true)])] := by
  with_unfolding_all rfl

end

end TokenScript

end QueueRace
