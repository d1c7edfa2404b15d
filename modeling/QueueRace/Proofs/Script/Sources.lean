import QueueRace.Proofs.Script.Deeds
import QueueRace.Proofs.Script.Lag

/-! Queues and sources that may panic. A loop asks a source for one value after the other and
enqueues it at once, so a panic finds the values before it in the queue, and nothing else of the
queue is touched. A queue that was being made of them is dropped by the panic, and gives up these
values in their order. -/

namespace QueueRace

variable {α : Type}

namespace Source

inductive Pull (α : Type) where
  | value (v : α)
  | exhausted
  | panic

def pull (source : Source α) (i : ℕ) : Pull α :=
  if source.panicAt = some i then .panic
  else match source.values[i]? with
    | some v => .value v
    | none => if source.panics then .panic else .exhausted

/-- From the question number `i` on, a loop asks a source for values and goes with each from `b` to
`f b v`. It ends with what the third argument says, and panics if the source does. -/
inductive Feeds {β : Type} (source : Source α) (f : β → α → β) : ℕ → β → β → Bool → Prop
  | exhausted {i : ℕ} {b : β} (h : source.pull i = .exhausted) : Feeds source f i b b false
  | panic {i : ℕ} {b : β} (h : source.pull i = .panic) : Feeds source f i b b true
  | value {i : ℕ} {b b' : β} {v : α} {panicked : Bool} (h : source.pull i = .value v)
    (rest : Feeds source f (i + 1) (f b v) b' panicked) : Feeds source f i b b' panicked

variable {β : Type} {source : Source α} {f : β → α → β} {i : ℕ} {b b₁ b₂ : β} {p₁ p₂ : Bool}

theorem Feeds.unique (h₁ : source.Feeds f i b b₁ p₁) (h₂ : source.Feeds f i b b₂ p₂) :
    b₁ = b₂ ∧ p₁ = p₂ := by
  induction h₁ with
  | exhausted h =>
    cases h₂ with
    | exhausted => exact ⟨rfl, rfl⟩
    | panic h' => cases h.symm.trans h'
    | value h' => cases h.symm.trans h'
  | panic h =>
    cases h₂ with
    | exhausted h' => cases h.symm.trans h'
    | panic => exact ⟨rfl, rfl⟩
    | value h' => cases h.symm.trans h'
  | value h _ ih =>
    cases h₂ with
    | exhausted h' => cases h.symm.trans h'
    | panic h' => cases h.symm.trans h'
    | value h' rest =>
      obtain rfl := Pull.value.inj (h.symm.trans h')
      exact ih rest

theorem pull_of_le (h : i ≤ source.yielded.length) :
    source.pull i = match source.yielded[i]? with
      | some v => .value v
      | none => if source.panics then .panic else .exhausted := by
  obtain ⟨values, _ | k⟩ := source
  · rfl
  · simp only [yielded, List.length_take] at h
    simp only [pull, yielded, Option.some.injEq]
    by_cases hk : k = i
    · subst k
      rw [if_pos rfl, List.getElem?_take_eq_none (Nat.le_refl i)]
      rfl
    · rw [if_neg hk, List.getElem?_take_of_lt (by omega)]

/-- The loop gets the values that the source yields before it is over or panics. -/
theorem feeds_yielded (source : Source α) (f : β → α → β) (b : β) :
    source.Feeds f 0 b (source.yielded.foldl f b) source.panics := by
  have hfrom : ∀ (vs : List α) (i : ℕ) (b : β), i ≤ source.yielded.length →
      source.yielded.drop i = vs → source.Feeds f i b (vs.foldl f b) source.panics := by
    intro vs
    induction vs with
    | nil =>
      intro i b hi hvs
      have hnone : source.yielded[i]? = none :=
        List.getElem?_eq_none (List.drop_eq_nil_iff.mp hvs)
      have hpull := pull_of_le hi
      rw [hnone] at hpull
      cases hp : source.panics with
      | true => exact .panic (by rw [hpull, hp]; rfl)
      | false => exact .exhausted (by rw [hpull, hp]; rfl)
    | cons v vs ih =>
      intro i b hi hvs
      have hv : source.yielded[i]? = some v := by
        rw [← Nat.add_zero i, ← List.getElem?_drop, hvs, List.getElem?_cons_zero]
      have hpull := pull_of_le hi
      rw [hv] at hpull
      refine .value hpull (ih (i + 1) (f b v) (List.getElem?_eq_some_iff.mp hv).1 ?_)
      rw [← List.tail_drop, hvs, List.tail_cons]
  exact hfrom _ 0 b (Nat.zero_le _) List.drop_zero

end Source

namespace Chain

variable {c : Chain α}

theorem Sound.head_enqueue (h : c.Sound) (v : α) : (c.enqueue v).head = c.head := by
  obtain ⟨y, hy⟩ := h
  have hgrown := (hy.grows_enqueued c.nodes.size).getElem? hy.head_eq
  exact Option.some.inj ((hy.enqueue v).1.head_eq.symm.trans hgrown)

theorem Sound.head_extend (h : c.Sound) (vs : List α) : (c.extend vs).head = c.head := by
  induction vs generalizing c with
  | nil => rfl
  | cons v vs ih => exact (ih (h.grew (h.enqueue v).1)).trans (h.head_enqueue v)

theorem Sound.length_extend (h : c.Sound) (vs : List α) :
    (c.extend vs).length = c.length + vs.length := by
  obtain ⟨g, hlist⟩ := h.extend vs
  rw [(h.grew g).length, hlist, List.length_append, h.length]

/-- One value more is enough to have no lag. -/
theorem Sound.extend_lag (h : c.Sound) {vs : List α} (hvs : vs ≠ []) : (c.extend vs).lag = 0 := by
  obtain ⟨ws, v, rfl⟩ := (List.eq_nil_or_concat vs).resolve_left hvs
  rw [Chain.extend, List.concat_eq_append, List.foldl_append]
  exact ((h.grew (h.extend ws).1).enqueue_lag v).2

end Chain

namespace Script

open State (Leads)

def enqueues (q : Slot) (vs : List α) : Script α := vs.foldr (fun v => .step q (.enqueue v)) .done

/-- What becomes of the queue in slot `q`, which was `c`, when it is extended by a source. -/
structure Extended (scope : Scope) (s : State α) (q : Slot) (c : Chain α) (source : Source α)
    (r : State α × Reply α) : Prop where
  reply : r.2 = if source.panics then .panicked Source.panicText else .done
  chain : ∃ c', r.1 = s.set q c' ∧ source.Feeds Chain.enqueue 0 c c' source.panics ∧
    c'.toList = c.toList ++ source.yielded ∧ c'.head = c.head ∧
    c'.length = c.length + source.yielded.length ∧
    (source.yielded = [] → c' = c) ∧
    (source.yielded ≠ [] → c'.next c'.tail = none ∧ c'.lag = 0)
  /-- So are the queues after as many single enqueues. -/
  queues : r.1.queues = (run scope (enqueues q source.yielded) s).1.queues

structure Collected (s : State α) (q : Slot) (source : Source α) (r : State α × Reply α) : Prop where
  reply : r.2 = if source.panics then .panicked Source.panicText else .done
  /-- All queues stay, and what there is of the new one is dropped. -/
  panicked : source.panics = true → r.1 = s.destroy source.yielded ∧
    ∃ c, source.Feeds Chain.enqueue 0 .empty c true ∧ c.toList = source.yielded ∧
      Deed.Clean ⟨.drop, c⟩
  collected : source.panics = false → ∃ c, r.1 = s.replace q c ∧
    source.Feeds Chain.enqueue 0 .empty c false ∧ c.toList = source.yielded

structure SourceLaw (scope : Scope) (s : State α) (source : Source α) : Prop where
  extend : ∀ {q c} (borrow : Borrow), s.get? q = some c → (borrow = .exclusive → q ∉ scope.busy) →
    Extended scope s q c source (runAction scope q (.extend source borrow) s)
  collect : ∀ {q}, q ∉ scope.busy →
    Collected s q source (runAction scope q (.collect source) s)

section
variable {s : State α} {scope : Scope} {q : Slot} {c : Chain α} {source : Source α}

theorem run_enqueues (hs : s.Sound) (hq : s.get? q = some c) (scope : Scope) (vs : List α) :
    (run scope (enqueues q vs) s).1.queues = (s.set q (c.extend vs)).queues := by
  induction vs generalizing s c with
  | nil => exact congrArg State.queues (hs.set_self hq).symm
  | cons v vs ih =>
    have hc := hs.queues hq
    have hsound := hs.set (q := q) (hc.grew (hc.enqueue v).1)
    have hrest := ih (s := ((s.set q (c.enqueue v)).observe q .done).1)
      ⟨hsound.sorted, hsound.queues⟩ (State.get?_set_self s q (c.enqueue v))
    calc (run scope (enqueues q (v :: vs)) s).1.queues
      _ = (run scope (enqueues q vs) ((s.set q (c.enqueue v)).observe q .done).1).1.queues := by
          rw [enqueues, List.foldr_cons, run, runAction, hs.update_some hq]
          rfl
      _ = ((s.queues.put q (c.enqueue v)).put q ((c.enqueue v).extend vs)) := hrest
      _ = s.queues.put q (c.extend (v :: vs)) := Slots.put_put q _ _ s.queues

theorem extended (hs : s.Sound) (hq : s.get? q = some c) {borrow : Borrow}
    (hb : borrow = .exclusive → q ∉ scope.busy) :
    Extended scope s q c source (runAction scope q (.extend source borrow) s) := by
  have hc := hs.queues hq
  have hrun : runAction scope q (.extend source borrow) s =
      (s.set q (c.extend source.yielded),
        if source.panics then .panicked Source.panicText else .done) := by
    rw [runAction, hq]
    dsimp only
    rw [if_neg fun hbusy => hb hbusy.1 hbusy.2, hs.update_some hq]
  rw [hrun]
  obtain ⟨g, hlist⟩ := hc.extend source.yielded
  refine ⟨rfl, ⟨_, rfl, source.feeds_yielded _ c, hlist, hc.head_extend _, hc.length_extend _,
    fun hnil => by rw [hnil]; rfl, fun hne => ?_⟩, (run_enqueues hs hq scope _).symm⟩
  have hlag := hc.extend_lag hne
  exact ⟨(hc.grew g).lag_eq_zero_iff.mp hlag, hlag⟩

theorem collected (hq : q ∉ scope.busy) :
    Collected s q source (runAction scope q (.collect source) s) := by
  obtain ⟨hc, hlist⟩ := Chain.ofList_sound source.yielded
  have hfeeds := source.feeds_yielded Chain.enqueue .empty
  rw [runAction, if_neg hq]
  cases hp : source.panics with
  | true =>
    rw [hp] at hfeeds
    refine ⟨by rw [hp]; rfl, fun _ => ⟨?_, _, hfeeds, hlist, Deed.clean_of_sound hc⟩, fun h => ?_⟩
    · simp [hc.drain, hlist]
    · rw [hp] at h; cases h
  | false =>
    rw [hp] at hfeeds
    refine ⟨by rw [hp]; rfl, fun h => ?_, fun _ => ⟨_, rfl, hfeeds, hlist⟩⟩
    rw [hp] at h; cases h

end

/-- Whether or not a source panics, and wherever it does: what it has yielded before is in the queue
that is extended by it, in every state inside a run of any script, however `tail` lags there. A
queue that was being made of it is dropped, and destroys just these values in their order. -/
theorem runAlone_sources (script : Script α) {scope : Scope} {s : State α}
    (hs : (scope, s) ∈ script.passes ⟨[], []⟩ .start) (source : Source α) :
    SourceLaw scope s source := by
  have hsound := (script_passes script ⟨[], []⟩ State.start_sound _ hs).1.sound
  exact ⟨fun borrow hq hb => extended hsound hq hb, fun hq => collected hq⟩

/-- The queue holds one item, over which `tail` was not moved, and the source panics instead of its
last value. -/
theorem runAlone_sources_interrupted :
    SourceLaw ⟨[], []⟩ (run ⟨[], []⟩ (.step 0 (.suspend 1 .done true) .done) (.start : State ℕ)).1
        ⟨[2, 3, 4], some 2⟩ ∧
      (run ⟨[], []⟩ (.step 0 (.suspend 1 .done true) .done) (.start : State ℕ)).1.size? 0 =
        some ⟨1, 1⟩ ∧
      (runAction ⟨[], []⟩ 0 (.extend ⟨[2, 3, 4], some 2⟩ .exclusive)
        (run ⟨[], []⟩ (.step 0 (.suspend 1 .done true) .done) .start).1).1.ledger.lists =
        [(0, [1, 2, 3])] := by
  refine ⟨runAlone_sources (.step 0 (.suspend 1 .done true) .done) ?_ _, by decide, by decide⟩
  exact end_mem_passes _ ⟨[], []⟩ .start

end Script

end QueueRace
