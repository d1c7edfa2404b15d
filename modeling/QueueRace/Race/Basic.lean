import QueueRace.Report.Verify
import QueueRace.Worker.Consumer
import QueueRace.Worker.Producer

/-! A whole run. The caller creates a watchdog if there is a timeout, then the consumers,
then the producers, and waits for them; any one creation may fail. A run is a list of
labels, each of which lets one thread take one step or lets the clock go on, so the
lists are the schedules. -/

namespace QueueRace

/-- A thread creation that fails, by its number, and what the system says about it. -/
structure SpawnFailure where
  place : Nat
  cause : String

structure Setup where
  config : Config
  timeout : Option Duration
  spawnFailure : Option SpawnFailure
  /-- Whether the totals are worked out for the notice at the end. -/
  announced : Bool

inductive RunError where
  | notSpawned (who : Who) (cause : String)
  | workerPanicked (who : Who)
  deriving DecidableEq

namespace RunError

def message : RunError → String
  | .notSpawned who _ => "failed to spawn " ++ who.name
  | .workerPanicked who => who.name ++ " panicked"

/-- What the system said, if it was the cause. -/
def causes : RunError → List String
  | .notSpawned _ cause => [cause]
  | .workerPanicked _ => []

end RunError

inductive RunPanic where
  | overflow
  /-- A worker panicked that nobody waited for. -/
  | scopedThread
  /-- There can be no list of that many producers. -/
  | capacity
  deriving DecidableEq

namespace RunPanic

def text : RunPanic → String
  | .overflow => Report.overflowText
  | .scopedThread => "a scoped thread panicked"
  | .capacity => "capacity overflow"

end RunPanic

inductive Outcome where
  | ok (report : Report)
  | error (e : RunError)
  | panicked (p : RunPanic)
  deriving DecidableEq

/-! ### The threads -/

inductive Watchdog where
  | start
  | yielded
  | asleep (deadline : Instant)
  /-- The time is over; the token is looked at before it is cancelled. -/
  | check
  | warn
  | cancel
  | ended
  | panicked
  deriving DecidableEq

namespace Watchdog

def alarm? : Watchdog → Option Instant
  | .asleep deadline => some deadline
  | _ => none

end Watchdog

/-- A producer's thread counts the producer out when it ends, however it ends. -/
inductive ProducerThread where
  | running (p : Producer)
  | gone (exit : Exit UInt64)
  deriving DecidableEq

namespace ProducerThread

def exit? : ProducerThread → Option (Exit UInt64)
  | .running _ => none
  | .gone exit => some exit

def alarm? : ProducerThread → Option Instant
  | .running p => p.alarm?
  | .gone _ => none

end ProducerThread

/-- What the caller does next. In `close` it waits for all workers, of which the first
`producers` and `consumers` have been joined already. -/
inductive Caller where
  | spawnWatchdog
  | announce
  | spawnConsumer (i : Nat)
  | disarm (e : RunError)
  | reserve
  | spawnProducer (i : Nat)
  | cancelRest (i : Nat) (e : RunError)
  | uncountRest (i : Nat) (e : RunError)
  | joinProducers (produced : List UInt64)
  | joinConsumers (produced : List UInt64) (consumed : List (List Item))
  | summarize (report : Report)
  | close (producers consumers : Nat) (outcome : Outcome)
  /-- The run itself is over; the watchdog is not needed any more. -/
  | dismiss (outcome : Outcome)
  | joinWatchdog (outcome : Outcome)
  | ended (outcome : Outcome)

structure Race where
  arena : Arena
  finished : Bool
  caller : Caller
  watchdog : Option Watchdog
  consumers : Array Consumer
  producers : Array ProducerThread
  created : Nat

inductive Label where
  | caller
  | watchdog
  | consumer (i : Nat) (word : UInt64)
  | producer (i : Nat) (word : UInt64)
  | cancel
  | tick (span : Nat)

namespace Race

/-- The clock does not start at zero. -/
def clockStart : Instant := 1000000000000

def start (s : Setup) (queue : Chain Item) (stop : StopToken) : Race where
  arena := ⟨queue, stop, 0, clockStart, #[]⟩
  finished := false
  caller := if s.timeout.isSome then .spawnWatchdog else .announce
  watchdog := none
  consumers := #[]
  producers := #[]
  created := 0

/-- Why the next thread creation fails, if it does. -/
def refusal? (s : Setup) (r : Race) : Option String :=
  match s.spawnFailure with
  | some failure => if failure.place = r.created then some failure.cause else none
  | none => none

/-! ### Steps -/

def allGone (r : Race) : Bool :=
  r.producers.all (·.exit?.isSome) &&
    r.consumers.all (·.exit?.isSome)

/-- Whether a worker panicked that is not among the first `producers` and `consumers`. -/
def anyPanicked (r : Race) (producers consumers : Nat) : Bool :=
  (r.producers.toList.drop producers).any (·.exit? = some .panicked) ||
    (r.consumers.toList.drop consumers).any (·.phase = .panicked)

/-- The length of the longest list of producers: each takes 24 bytes, and memory is
addressed with 63 bits. -/
def maxProducers : Nat := 9223372036854775807 / 24

def stepCaller (s : Setup) (r : Race) : Race :=
  let c := s.config
  match r.caller with
  | .spawnWatchdog =>
    match r.refusal? s with
    | some cause => { r with caller := .ended (.error (.notSpawned .watchdog cause)) }
    | none => { r with watchdog := some .start, created := r.created + 1, caller := .announce }
  | .announce =>
    let n := .started c.producers.val c.consumers.val c.items
    { r with
      arena := { r.arena.record .main n with live := c.producers.val.toUInt64 }
      caller := .spawnConsumer 0 }
  | .spawnConsumer i =>
    if i < c.consumers.val then
      match r.refusal? s with
      | some cause => { r with caller := .disarm (.notSpawned (.consumer i) cause) }
      | none =>
        { r with
          consumers := r.consumers.push .start
          created := r.created + 1
          caller := .spawnConsumer (i + 1) }
    else { r with caller := .reserve }
  -- no producer is running yet
  | .disarm e =>
    { r with arena := { r.arena with live := 0 }, caller := .close 0 0 (.error e) }
  | .reserve =>
    if c.producers.val ≤ maxProducers then { r with caller := .spawnProducer 0 }
    else { r with caller := .close 0 0 (.panicked .capacity) }
  | .spawnProducer i =>
    if i < c.producers.val then
      match r.refusal? s with
      | some cause => { r with caller := .cancelRest i (.notSpawned (.producer i) cause) }
      | none =>
        { r with
          producers := r.producers.push (.running (.check 0))
          created := r.created + 1
          caller := .spawnProducer (i + 1) }
    else { r with caller := .joinProducers [] }
  | .cancelRest i e => { r with arena := r.arena.cancel, caller := .uncountRest i e }
  | .uncountRest i e =>
    { r with
      arena := { r.arena with live := r.arena.live - (c.producers.val - i).toUInt64 }
      caller := .close 0 0 (.error e) }
  | .joinProducers produced =>
    let i := produced.length
    match r.producers[i]? with
    | none => { r with caller := .joinConsumers produced [] }
    | some (.gone (.returned n)) => { r with caller := .joinProducers (produced ++ [n]) }
    | some (.gone .panicked) =>
      { r with caller := .close (i + 1) 0 (.error (.workerPanicked (.producer i))) }
    | some (.running _) => r
  | .joinConsumers produced consumed =>
    let i := consumed.length
    match r.consumers[i]? with
    | none => { r with caller := .summarize ⟨produced, consumed⟩ }
    | some consumer => match consumer.exit? with
      | some (.returned items) =>
        { r with caller := .joinConsumers produced (consumed ++ [items]) }
      | some .panicked =>
        let e := .workerPanicked (.consumer i)
        { r with caller := .close produced.length (i + 1) (.error e) }
      | none => r
  | .summarize report =>
    let close := Caller.close report.produced.length report.consumed.length
    if s.announced then
      match report.totalProduced? with
      | none => { r with caller := close (.panicked .overflow) }
      | some total =>
        { r with
          arena := r.arena.record .main (.finished total report.totalConsumed)
          caller := close (.ok report) }
    else { r with caller := close (.ok report) }
  | .close producers consumers outcome =>
    if r.allGone then
      match outcome with
      | .panicked p => { r with caller := .dismiss (.panicked p) }
      | _ =>
        if r.anyPanicked producers consumers then
          { r with caller := .dismiss (.panicked .scopedThread) }
        else { r with caller := .dismiss outcome }
    else r
  | .dismiss outcome =>
    match s.timeout, outcome with
    | none, _ => { r with caller := .ended outcome }
    -- a caller that panics waits for the watchdog without telling it
    | some _, .panicked _ => { r with caller := .joinWatchdog outcome }
    | some _, _ => { r with finished := true, caller := .joinWatchdog outcome }
  | .joinWatchdog outcome =>
    match r.watchdog, outcome with
    | some .ended, _ => { r with caller := .ended outcome }
    | some .panicked, .panicked _ => { r with caller := .ended outcome }
    | some .panicked, _ => { r with caller := .ended (.error (.workerPanicked .watchdog)) }
    | _, _ => r
  | .ended _ => r

def stepWatchdog (r : Race) (timeout : Duration) : Watchdog → Race
  | .start => match r.arena.pause timeout with
    | .yielded => { r with watchdog := some .yielded }
    | .asleep deadline => { r with watchdog := some (.asleep deadline) }
    | .panicked => { r with watchdog := some .panicked }
  | .yielded => { r with watchdog := some (if r.finished then .ended else .check) }
  | .asleep deadline =>
    if r.finished then { r with watchdog := some .ended }
    else if deadline < r.arena.now then { r with watchdog := some .check }
    else r
  | .check => { r with watchdog := some (if r.arena.stop.cancelled then .ended else .warn) }
  | .warn =>
    { r with arena := r.arena.record .watchdog (.timedOut timeout), watchdog := some .cancel }
  | .cancel => { r with arena := r.arena.cancel, watchdog := some .ended }
  | .ended => r
  | .panicked => r

def stepConsumer (s : Setup) (r : Race) (i : Nat) (word : UInt64) : Race :=
  match r with
  | ⟨arena, finished, caller, watchdog, consumers, producers, created⟩ =>
    match consumers[i]? with
    | none => ⟨arena, finished, caller, watchdog, consumers, producers, created⟩
    | some consumer =>
      -- the slot is emptied meanwhile so that the items can be extended in place
      let consumers := consumers.setIfInBounds i .start
      let (arena, consumer) := consumer.advance s.config i word arena
      let consumers := consumers.setIfInBounds i consumer
      ⟨arena, finished, caller, watchdog, consumers, producers, created⟩

def stepProducer (s : Setup) (r : Race) (i : Nat) (word : UInt64) : Race :=
  match r with
  | ⟨arena, finished, caller, watchdog, consumers, producers, created⟩ =>
    match producers[i]? with
    | some (.running (.ended exit)) =>
      let arena := { arena with live := arena.live - 1 }
      let producers := producers.setIfInBounds i (.gone exit)
      ⟨arena, finished, caller, watchdog, consumers, producers, created⟩
    | some (.running p) =>
      let (arena, p) := p.step s.config i word arena
      let producers := producers.setIfInBounds i (.running p)
      ⟨arena, finished, caller, watchdog, consumers, producers, created⟩
    | _ => ⟨arena, finished, caller, watchdog, consumers, producers, created⟩

/-- One step of the run. Where the chosen thread cannot go on, nothing happens. -/
def step (s : Setup) (r : Race) : Label → Race
  | .caller => r.stepCaller s
  | .watchdog => match r.watchdog, s.timeout with
    | some w, some timeout => r.stepWatchdog timeout w
    | _, _ => r
  | .consumer i word => r.stepConsumer s i word
  | .producer i word => r.stepProducer s i word
  | .cancel => { r with arena := r.arena.cancel }
  | .tick span => { r with arena := r.arena.tick span }

def run (s : Setup) (r : Race) (schedule : List Label) : Race := schedule.foldl (step s) r

def outcome? (r : Race) : Option Outcome :=
  match r.caller with
  | .ended outcome => some outcome
  | _ => none

end Race

end QueueRace
