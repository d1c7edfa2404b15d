import QueueRace.Proofs.Race.Inner

/-! What a timeout adds to a run. The watchdog waits, and if its time is over before it is told that
the run is, it cancels the token; this is all that the plain run inside ever sees of it. The caller
returns what the plain run has returned, when the watchdog has ended. -/

open Filter

namespace QueueRace

theorem Watchdog.Over.eq_ended {w : Watchdog} (h : w.Over) (hp : some w ≠ some .panicked) :
    w = .ended := by
  cases w with
  | ended => rfl
  | panicked => exact absurd rfl hp
  | _ => exact h.elim

namespace Race

variable {s : Setup} {r r' : Race} {l : Label} {schedule : List Label} {timeout : Duration}
  {initial : List Item}

/-! ### The wait of the watchdog -/

/-- Behind `began` the watchdog begins to wait. -/
def Begins (s : Setup) (r : Race) (schedule began : List Label) : Prop :=
  began ++ [.watchdog] <+: schedule ∧ (r.run s began).watchdog = some .start

/-- The clock has room for the timeout when the watchdog begins to wait. -/
def Timed (s : Setup) (r : Race) (schedule : List Label) : Prop :=
  ∀ timeout began, s.timeout = some timeout → Begins s r schedule began →
    ((r.run s began).arena.now.add? timeout).isSome

/-- The watchdog cancels the token. -/
def Fires (s : Setup) (r : Race) (schedule : List Label) : Prop :=
  ∃ earlier, earlier ++ [.watchdog] <+: schedule ∧ (r.run s earlier).watchdog = some .cancel

/-- The watchdog finds that its wait has passed the deadline, before it is told that the run is
over. -/
def Expires (s : Setup) (r : Race) (timeout : Duration) (schedule : List Label) : Prop :=
  ∃ began late, Begins s r late began ∧ late ++ [.watchdog] <+: schedule ∧
    (r.run s late).finished = false ∧
      (timeout.isZero ∨
        (r.run s began).arena.now + timeout.toNanos < (r.run s late).arena.now)

theorem Begins.mono {began later : List Label} (h : Begins s r schedule began)
    (hs : schedule <+: later) : Begins s r later began :=
  ⟨h.1.trans hs, h.2⟩

theorem Timed.mono {earlier : List Label} (h : Timed s r schedule) (hs : earlier <+: schedule) :
    Timed s r earlier :=
  fun timeout began ht hb => h timeout began ht (hb.mono hs)

theorem Expires.mono {later : List Label} (h : Expires s r timeout schedule)
    (hs : schedule <+: later) : Expires s r timeout later := by
  obtain ⟨began, late, hbegins, hlate, hexpired⟩ := h
  exact ⟨began, late, hbegins, hlate.trans hs, hexpired⟩

/-- What has happened to a watchdog on its way to the cancellation. -/
def Clocked (s : Setup) (r : Race) (timeout : Duration) (schedule : List Label) : Watchdog → Prop
  | .yielded => timeout.isZero ∧ ∃ began, Begins s r schedule began
  | .asleep deadline => ∃ began, Begins s r schedule began ∧
      deadline = (r.run s began).arena.now + timeout.toNanos
  | .check | .warn | .cancel => Expires s r timeout schedule
  | .start | .ended | .panicked => True

theorem Clocked.mono {w : Watchdog} {later : List Label} (h : Clocked s r timeout schedule w)
    (hs : schedule <+: later) : Clocked s r timeout later w := by
  cases w with
  | yielded =>
    obtain ⟨hzero, began, hbegins⟩ := h
    exact ⟨hzero, began, hbegins.mono hs⟩
  | asleep deadline =>
    obtain ⟨began, hbegins, hdeadline⟩ := h
    exact ⟨began, hbegins.mono hs, hdeadline⟩
  | check => exact Expires.mono h hs
  | warn => exact Expires.mono h hs
  | cancel => exact Expires.mono h hs
  | _ => trivial

theorem Watches.clocked {v w : Watchdog} (hw : Watches s (r.run s schedule) v w)
    (ht : s.timeout = some timeout) (hv : (r.run s schedule).watchdog = some v)
    (h : Clocked s r timeout schedule v) : Clocked s r timeout (schedule ++ [.watchdog]) w := by
  have hprefix : schedule <+: schedule ++ [.watchdog] := List.prefix_append _ _
  cases hw with
  | yields ht' hp =>
    obtain rfl := Option.some.inj (ht.symm.trans ht')
    exact ⟨Arena.pause_eq_yielded hp, schedule, List.prefix_refl _, hv⟩
  | sleeps ht' hp =>
    obtain rfl := Option.some.inj (ht.symm.trans ht')
    exact ⟨schedule, ⟨List.prefix_refl _, hv⟩, Arena.pause_eq_asleep hp⟩
  | timesOut hf hw =>
    have hfinished := Bool.eq_false_iff.mpr hf
    rcases hw with rfl | ⟨deadline, rfl, hlt⟩
    · obtain ⟨hzero, began, hbegins⟩ := h
      exact ⟨began, schedule, hbegins, List.prefix_refl _, hfinished, .inl hzero⟩
    · obtain ⟨began, hbegins, rfl⟩ := h
      exact ⟨began, schedule, hbegins, List.prefix_refl _, hfinished, .inr hlt⟩
  | warns => exact Expires.mono h hprefix
  | goes => exact Expires.mono h hprefix
  | _ => trivial

theorem Turn.clocked (hturn : Turn s (r.run s schedule) l r') (ht : s.timeout = some timeout)
    (h : ∀ w, (r.run s schedule).watchdog = some w → Clocked s r timeout schedule w) :
    ∀ w, r'.watchdog = some w → Clocked s r timeout (schedule ++ [l]) w := by
  have hkeep : ∀ w, (r.run s schedule).watchdog = some w →
      Clocked s r timeout (schedule ++ [l]) w :=
    fun w hw => (h w hw).mono (List.prefix_append _ _)
  cases hturn with
  | watch hv hw log => exact fun w hsome => Option.some.inj hsome ▸ hw.clocked ht hv (h _ hv)
  | expire hv => exact fun w hsome => Option.some.inj hsome ▸ trivial
  | hireWatchdog hc hf => exact fun w hsome => Option.some.inj hsome ▸ trivial
  | _ => exact hkeep

theorem run_clocked (ht : s.timeout = some timeout) (queue : Chain Item) (stop : StopToken)
    (schedule : List Label) : ∀ w, ((start s queue stop).run s schedule).watchdog = some w →
      Clocked s (start s queue stop) timeout schedule w := by
  induction schedule using List.reverseRecOn with
  | nil => nofun
  | append_singleton schedule l ih =>
    rw [run_append]
    exact (step_turn s _ l).clocked ht ih

theorem Fires.expires (ht : s.timeout = some timeout) {queue : Chain Item} {stop : StopToken}
    (h : Fires s (start s queue stop) schedule) :
    Expires s (start s queue stop) timeout schedule := by
  obtain ⟨earlier, hearlier, hw⟩ := h
  have hexpires : Expires s (start s queue stop) timeout earlier :=
    run_clocked ht queue stop earlier _ hw
  exact hexpires.mono ((List.prefix_append _ _).trans hearlier)

theorem Turn.watchdog_panicked (ht : Turn s r l r') (h : r'.watchdog = some .panicked) :
    r.watchdog = some .panicked ∨ l = .watchdog ∧ r.watchdog = some .start ∧
      ∃ timeout, s.timeout = some timeout ∧ r.arena.now.add? timeout = none := by
  cases ht with
  | watch hv hw log =>
    obtain rfl := Option.some.inj h
    cases hw with
    | overflows ht hp => exact .inr ⟨rfl, hv, _, ht, Arena.pause_eq_panicked hp⟩
  | expire hv => cases h
  | hireWatchdog hc hf => cases h
  | _ => exact .inl h

theorem Timed.watchdog_ne_panicked {queue : Chain Item} {stop : StopToken}
    (h : Timed s (start s queue stop) schedule) :
    ((start s queue stop).run s schedule).watchdog ≠ some .panicked := by
  induction schedule using List.reverseRecOn with
  | nil => nofun
  | append_singleton schedule l ih =>
    rw [run_append]
    intro hp
    rcases (step_turn s _ l).watchdog_panicked hp with hp | ⟨rfl, hw, timeout, ht, hnone⟩
    · exact ih (h.mono (List.prefix_append _ _)) hp
    · have hroom := h timeout schedule ht ⟨List.prefix_refl _, hw⟩
      rw [hnone] at hroom
      cases hroom

/-- The watchdog's wait begins in time if all pauses do. -/
theorem timed_of_fits {queue : Chain Item} (hq : queue.Sound) (stop : StopToken)
    {schedule : List Label} (hs : s.Fits ((start s queue stop).run s schedule).arena.now) :
    Timed s (start s queue stop) schedule := by
  rintro timeout began ht ⟨⟨rest, rfl⟩, -⟩
  rw [List.append_assoc, run_append] at hs
  have hle := run_now_le (run_sound s hq stop began) ([.watchdog] ++ rest)
  rw [Instant.add?_of_lt ((hs.mono hle).timeout timeout ht)]
  rfl

theorem Timed.append {queue : Chain Item} (hq : queue.Sound) {stop : StopToken}
    {earlier : List Label} (h : Timed s (start s queue stop) earlier)
    (hw : watchdogRank ((start s queue stop).run s earlier).watchdog < Watchdog.start.rank)
    (later : List Label) : Timed s (start s queue stop) (earlier ++ later) := by
  intro timeout began ht hbegins
  have hsplit : earlier <+: began ∨ began ++ [.watchdog] <+: earlier := by
    rcases List.prefix_or_prefix_of_prefix (List.prefix_append earlier later) hbegins.1 with
      hle | hle
    · rcases List.prefix_concat_iff.mp hle with rfl | hle
      · exact .inr (List.prefix_refl _)
      · exact .inl hle
    · exact .inr hle
  rcases hsplit with ⟨rest, rfl⟩ | hle
  · have hbegun := (run_induction (s := s)
      (P := fun r => r.Orderly s queue.toList ∧ watchdogRank r.watchdog < Watchdog.start.rank)
      (fun ⟨ho, hless⟩ hturn => ⟨ho.turn hturn, (hturn.watchdog_rank ho.watched).elim
        (fun h => h.trans hless) fun h => h.1 ▸ hless⟩)
      ⟨run_orderly s hq stop earlier, hw⟩ rest).2
    rw [← run_append, hbegins.2] at hbegun
    exact absurd hbegun (Nat.lt_irrefl _)
  · exact h timeout began ht ⟨hle, hbegins.2⟩

/-! ### The token -/

theorem Fires.cons (h : Fires s (r.step s l) schedule) : Fires s r (l :: schedule) := by
  obtain ⟨earlier, hearlier, hw⟩ := h
  exact ⟨l :: earlier, List.cons_prefix_cons.mpr ⟨rfl, hearlier⟩, hw⟩

theorem shadow_sublist (h : l = .watchdog → r.watchdog ≠ some .cancel) :
    (r.shadow l).Sublist [l] := by
  cases l with
  | caller =>
    rw [shadow]
    split
    · exact List.nil_sublist _
    · exact List.Sublist.refl _
  | watchdog =>
    rw [shadow, if_neg (h rfl)]
    exact List.nil_sublist _
  | _ => exact List.Sublist.refl _

/-- As long as the watchdog does not cancel the token, the plain run takes no step that is not a
step of the run. -/
theorem shadows_sublist (h : ¬ Fires s r schedule) : (shadows s r schedule).Sublist schedule := by
  induction schedule generalizing r with
  | nil => exact List.Sublist.refl _
  | cons l schedule ih =>
    have hfirst : (r.shadow l).Sublist [l] := by
      refine shadow_sublist ?_
      rintro rfl hw
      exact h ⟨[], List.cons_prefix_cons.mpr ⟨rfl, List.nil_prefix⟩, hw⟩
    exact hfirst.append (ih fun hfires => h hfires.cons)

/-- Nobody cancels the token but the watchdog, a caller that cannot create a producer, and others
who hold it. -/
theorem run_stop_eq (s : Setup) {queue : Chain Item} (hq : queue.Sound) (stop : StopToken)
    (hproducers : ∀ i, ¬ s.Lacks (.producer i)) {schedule : List Label}
    (hnot : ¬ Fires s (start s queue stop) schedule) (hcancel : .cancel ∉ schedule) :
    ((start s queue stop).run s schedule).arena.stop = stop := by
  induction schedule using List.reverseRecOn with
  | nil => rfl
  | append_singleton schedule l ih =>
    have hprefix : schedule <+: schedule ++ [l] := List.prefix_append _ _
    have hsame := ih
      (fun ⟨earlier, hearlier, hw⟩ => hnot ⟨earlier, hearlier.trans hprefix, hw⟩)
      fun hmem => hcancel (List.mem_append_left _ hmem)
    rw [run_append]
    rcases (step_turn s _ l).stop_cases (run_sound s hq stop schedule).queue with
      hstop | ⟨-, rfl | ⟨rfl, hw⟩ | ⟨i, e, hc⟩⟩
    · exact hstop.trans hsame
    · exact absurd (List.mem_append_right _ (List.mem_singleton_self _)) hcancel
    · exact absurd ⟨schedule, List.prefix_refl _, hw⟩ hnot
    · have hexplained := run_explained s hq stop schedule
      rw [hc] at hexplained
      obtain ⟨cause, -, hrefuses⟩ := hexplained
      exact absurd ⟨cause, hrefuses⟩ (hproducers i)

/-! ### The return of the caller -/

theorem outcome?_inner {o : Outcome} : (r.inner s).outcome? = some o ↔
    r.caller = .joinWatchdog o ∨ r.caller = .ended o := by
  obtain ⟨arena, finished, caller, watchdog, consumers, producers, created⟩ := r
  cases caller <;> simp [inner, Caller.inner, outcome?]

theorem Turn.keeps_outcome (ht : Turn s r l r') {o : Outcome}
    (hp : r.watchdog ≠ some .panicked) (h : r.caller = .joinWatchdog o ∨ r.caller = .ended o) :
    r'.caller = .joinWatchdog o ∨ r'.caller = .ended o := by
  have hnot : ∀ {c}, r.caller = c → c.inner ≠ .ended o → False := by
    rintro _ rfl hne
    rcases h with h | h <;>
    · rw [h] at hne
      exact hne rfl
  cases ht with
  | pass hpass log hlog =>
    rcases h with h | h
    · rw [h] at hpass
      cases hpass with
      | watchdogJoined hw => exact .inr rfl
      | watchdogPanicked ho hw => exact absurd hw hp
    · rw [h] at hpass
      cases hpass
  | hireWatchdog hc hf => exact (hnot hc nofun).elim
  | announce hc log => exact (hnot hc nofun).elim
  | hireConsumer hc hi hf => exact (hnot hc nofun).elim
  | disarm hc => exact (hnot hc nofun).elim
  | hireProducer hc hi hf => exact (hnot hc nofun).elim
  | cancelRest hc => exact (hnot hc nofun).elim
  | uncountRest hc => exact (hnot hc nofun).elim
  | tell hc ht ho => exact (hnot hc nofun).elim
  | _ => exact h

/-- A caller that has returned has joined the watchdog. -/
theorem Attended.watchdog_ended (h : r.Attended s initial) (hp : r.watchdog ≠ some .panicked)
    {o : Outcome} (ho : r.outcome? = some o) : r.watchdog = s.timeout.map fun _ => .ended := by
  have hc := caller_of_outcome? ho
  have hattended := h.attended (hc ▸ nofun)
  have hwatched := h.watched
  rw [hc] at hwatched
  cases hw : r.watchdog with
  | none =>
    rw [hw, Option.isSome_none] at hattended
    have ht : s.timeout = none := Option.not_isSome_iff_eq_none.mp (by rw [← hattended]; nofun)
    rw [ht, Option.map_none]
  | some w =>
    rw [hw, Option.isSome_some] at hattended
    obtain ⟨timeout, ht⟩ := Option.isSome_iff_exists.mp hattended.symm
    rw [ht, Option.map_some, (hwatched w hw).eq_ended (hw ▸ hp)]

theorem Fair.returns {σ : ℕ → Label} (h : Fair s r σ)
    (ho : ∀ k, (r.after s σ k).Orderly s initial)
    (hp : ∀ k, (r.after s σ k).watchdog ≠ some .panicked) {n : ℕ} {o : Outcome}
    (hn : ((r.after s σ n).inner s).outcome? = some o) :
    ∃ m, (r.after s σ m).outcome? = some o := by
  have hkeeps : ∀ m, n ≤ m → (r.after s σ m).caller = .joinWatchdog o ∨
      (r.after s σ m).caller = .ended o := by
    intro m hm
    induction m, hm using Nat.le_induction with
    | base => exact outcome?_inner.mp hn
    | succ m hm ih => exact (after_turn s r σ m).keeps_outcome (hp m) ih
  obtain ⟨m, hturn, hover, hm⟩ :=
    (h.caller.and_eventually ((h.watchdog_over ho).and (eventually_ge_atTop n))).exists
  rcases hkeeps m hm with hjoin | hended
  · have hwatched := (ho m).watched
    rw [hjoin] at hwatched
    obtain ⟨w, hw⟩ := Option.isSome_iff_exists.mp hwatched.2
    refine ⟨m + 1, ?_⟩
    rw [after_succ, hturn, step, stepCaller, hjoin, hw, (hover w hw).eq_ended (hw ▸ hp m)]
    rfl
  · exact ⟨m, by rw [outcome?, hended]⟩

/-! ### What a timeout adds -/

/-- The plain run inside a run, under the schedule that it sees. -/
def plain (s : Setup) (queue : Chain Item) (stop : StopToken) (schedule : List Label) : Race :=
  (start s.inner queue stop).run s.inner (shadows s (start s queue stop) schedule)

theorem run_inner_eq_plain (hlack : ¬ s.Lacks .watchdog) {queue : Chain Item} (hq : queue.Sound)
    (stop : StopToken) (ht : Timed s (start s queue stop) schedule) :
    ((start s queue stop).run s schedule).inner s = plain s queue stop schedule := by
  rw [plain, ← start_inner]
  exact (start_attended s hq stop).run_inner hlack schedule ht.watchdog_ne_panicked

/-- How a run `r` under a schedule stands to the plain run inside. -/
structure AddsTimeout (s : Setup) (queue : Chain Item) (stop : StopToken) (schedule : List Label)
    (r : Race) : Prop where
  inside : r.inner s = plain s queue stop schedule
  returns : ∀ o, r.outcome? = some o → (plain s queue stop schedule).outcome? = some o ∧
    r.watchdog = s.timeout.map fun _ => .ended
  token : r.arena.stop = (plain s queue stop schedule).arena.stop
  expires : ∀ timeout, s.timeout = some timeout → Fires s (start s queue stop) schedule →
    Expires s (start s queue stop) timeout schedule
  /-- If the watchdog does not cancel the token, all that the plain run sees is the schedule's. -/
  unseen : ¬ Fires s (start s queue stop) schedule →
    (shadows s (start s queue stop) schedule).Sublist schedule
  untouched : ¬ Fires s (start s queue stop) schedule → .cancel ∉ schedule →
    (∀ i, ¬ s.Lacks (.producer i)) → r.arena.stop = stop
  succeeds : ∀ o, r.outcome? = some o → (∀ who, ¬ s.Lacks who) → (∀ w, r.fate w ≠ some true) →
    (r.produced.map UInt64.toNat).sum < UInt64.size →
      ∃ report, o = .ok report ∧ report.produced = r.produced ∧ r.arena.queue.toList = []

/-- A timeout adds only the watchdog to a run. Without a timeout a run is its own plain run. With
one, under every schedule, the run is the plain run inside, step by step, and the caller returns
what the plain run has returned when the watchdog has ended. The watchdog cancels the token only if
it finds its time over before it is told that the run is; else the plain run and others who hold the
token decide how it is left, and nobody else touches it. Wherever the watchdog cancels, the run
returns a report and leaves the queue empty, unless a thread could not be created, a worker has
panicked or the total does not fit. And a caller whose plain run has returned does not hang. -/
theorem run_adds_timeout (hlack : ¬ s.Lacks .watchdog) {queue : Chain Item} (hq : queue.Sound)
    (stop : StopToken) :
    (s.timeout = none → s.inner = s ∧ ∀ schedule,
      ((start s queue stop).run s schedule).inner s = (start s queue stop).run s schedule) ∧
    (∀ schedule, Timed s (start s queue stop) schedule →
      AddsTimeout s queue stop schedule ((start s queue stop).run s schedule)) ∧
    ∀ σ, Fair s (start s queue stop) σ →
      (∀ n, Timed s (start s queue stop) ((List.range n).map σ)) →
        (∀ n o, (plain s queue stop ((List.range n).map σ)).outcome? = some o →
          ∃ m, ((start s queue stop).after s σ m).outcome? = some o) ∧
        (s.config.producers.val ≤ maxProducers →
          ∃ n, ((start s queue stop).after s σ n).outcome?.isSome) := by
  refine ⟨fun ht => ⟨inner_eq_self ht, run_inner_eq_self ht hq stop⟩, fun schedule htimed => ?_,
    fun σ hfair htimed => ⟨fun n o hn => ?_, fun hcap => hfair.ends hq hcap⟩⟩
  · have hinside := run_inner_eq_plain hlack hq stop htimed
    have hcalm := htimed.watchdog_ne_panicked
    have hattended := run_attended hlack hq stop schedule
    refine
      { inside := hinside
        returns := fun o ho => ⟨?outcome, ?ended⟩
        token := hinside ▸ rfl
        expires := fun timeout ht hfires => hfires.expires ht
        unseen := shadows_sublist
        untouched := fun hnot hcancel hproducers => run_stop_eq s hq stop hproducers hnot hcancel
        succeeds := fun o ho hcreated hfate hsum => ?succeeds }
    case outcome =>
      rw [← hinside]
      exact outcome?_inner.mpr (.inr (caller_of_outcome? ho))
    case ended => exact hattended.watchdog_ended hcalm ho
    case succeeds =>
      have hcleared := hattended.cleared
      rw [caller_of_outcome? ho] at hcleared
      obtain ⟨report, rfl, hcovers, hnil⟩ := hattended.succeeds ho (run_cause s hq stop schedule ho)
        hcreated (calm_of_allGone hcleared hfate hcalm) hsum
      exact ⟨report, rfl, produced_eq hcovers, hnil⟩
  · rw [← run_inner_eq_plain hlack hq stop (htimed n)] at hn
    exact hfair.returns (fun k => run_orderly s hq stop _)
      (fun k => (htimed k).watchdog_ne_panicked) hn

def hurried : Setup := ⟨.burst 3 .one pair, some (.ofMillis 500), none, true⟩

/-- The time is over when the first item has been enqueued. -/
def hurriedSchedule : List Label :=
  List.replicate 8 Label.caller ++ Label.watchdog :: List.replicate 3 (Label.producer 0 7) ++
    Label.tick 500000001 :: List.replicate 4 Label.watchdog ++
    List.replicate 3 (Label.producer 0 7) ++ List.replicate 9 (Label.consumer 0 0) ++
    List.replicate 3 (Label.consumer 1 0) ++ List.replicate 9 Label.caller

/-- The watchdog cancels the token in the middle of the production, when its time has passed. The
run returns what the plain run inside returns, a report of one item more than there were at the
start; and the run ends under the schedule in which all take turns. -/
theorem run_adds_timeout_hurried :
    Fires hurried (start hurried (.ofList [⟨9, 4, 1⟩]) .new) hurriedSchedule ∧
      Expires hurried (start hurried (.ofList [⟨9, 4, 1⟩]) .new) (.ofMillis 500) hurriedSchedule ∧
      AddsTimeout hurried (.ofList [⟨9, 4, 1⟩]) .new hurriedSchedule
        ((start hurried (.ofList [⟨9, 4, 1⟩]) .new).run hurried hurriedSchedule) ∧
      (plain hurried (.ofList [⟨9, 4, 1⟩]) .new hurriedSchedule).outcome? =
        some (.ok ⟨[1], [[⟨9, 4, 1⟩, ⟨0, 0, 7⟩], []]⟩) ∧
      ∃ n, ((start hurried (.ofList [⟨9, 4, 1⟩]) .new).after hurried dovetail n).outcome?.isSome := by
  have hq := (Chain.ofList_sound [(⟨9, 4, 1⟩ : Item)]).1
  have hlack : ¬ hurried.Lacks .watchdog := Setup.not_lacks rfl _
  obtain ⟨-, hadds, hends⟩ := run_adds_timeout hlack hq .new
  have hfits : hurried.Fits (clockStart + 500000001) := by
    refine ⟨by decide +kernel, fun span hspan => ?_, by decide +kernel⟩
    obtain rfl := Option.some.inj hspan
    decide +kernel
  have htimed : Timed hurried (start hurried (.ofList [⟨9, 4, 1⟩]) .new) hurriedSchedule := by
    have hnow : ((start hurried (.ofList [⟨9, 4, 1⟩]) .new).run hurried
        hurriedSchedule).arena.now = clockStart + 500000001 := by
      decide +kernel
    exact timed_of_fits hq .new (hnow ▸ hfits)
  have hfires : Fires hurried (start hurried (.ofList [⟨9, 4, 1⟩]) .new) hurriedSchedule :=
    ⟨hurriedSchedule.take 16, ⟨hurriedSchedule.drop 17, rfl⟩, by decide +kernel⟩
  have ho : ((start hurried (.ofList [⟨9, 4, 1⟩]) .new).run hurried hurriedSchedule).outcome? =
      some (.ok ⟨[1], [[⟨9, 4, 1⟩, ⟨0, 0, 7⟩], []]⟩) := by
    decide +kernel
  -- the seventh step is the one with which the watchdog begins to wait
  have hfair : ∀ n, Timed hurried (start hurried (.ofList [⟨9, 4, 1⟩]) .new)
      ((List.range n).map dovetail) := by
    intro n
    have hbegun : ((start hurried (.ofList [⟨9, 4, 1⟩]) .new).run hurried
          ((List.range 7).map dovetail)).arena.now = clockStart ∧
        watchdogRank ((start hurried (.ofList [⟨9, 4, 1⟩]) .new).run hurried
          ((List.range 7).map dovetail)).watchdog < Watchdog.start.rank := by
      decide +kernel
    have hbeginning := timed_of_fits hq .new (hbegun.1 ▸ hfits.mono (Nat.le_add_right _ _))
    have hlater : Timed hurried (start hurried (.ofList [⟨9, 4, 1⟩]) .new)
        ((List.range (7 + n)).map dovetail) := by
      rw [List.range_add, List.map_append]
      exact hbeginning.append hq hbegun.2 _
    refine hlater.mono ?_
    rw [Nat.add_comm, List.range_add, List.map_append]
    exact List.prefix_append _ _
  have hrun := hadds hurriedSchedule htimed
  exact ⟨hfires, hrun.expires _ rfl hfires, hrun, (hrun.returns _ ho).1,
    (hends dovetail (dovetail_fair _ _) hfair).2 (by decide +kernel)⟩

end Race

end QueueRace
