import QueueRace.Race.Basic

/-! A fair schedule. All threads that can go on take turns. A round takes a
microsecond; when every thread waits, the clock moves on to the next deadline. -/

namespace QueueRace

namespace Race

def callerReady (r : Race) : Bool :=
  match r.caller with
  | .joinProducers produced => match r.producers[produced.length]? with
    | some (.running _) => false
    | _ => true
  | .joinConsumers _ consumed => match r.consumers[consumed.length]? with
    | some consumer => consumer.exit?.isSome
    | none => true
  | .close .. => r.allGone
  | .joinWatchdog _ => match r.watchdog with
    | some .ended => true
    | some .panicked => true
    | _ => false
  | .ended _ => false
  | _ => true

def watchdogReady (r : Race) : Bool :=
  match r.watchdog with
  | none => false
  | some (.asleep deadline) => r.finished || deadline < r.arena.now
  | some .ended => false
  | some .panicked => false
  | some _ => true

def consumerReady (r : Race) (i : Nat) : Bool :=
  match r.consumers[i]? with
  | none => false
  | some c => match c.phase with
    | .asleep deadline => r.arena.wakes deadline
    | .ended => false
    | .panicked => false
    | _ => true

def producerReady (r : Race) (i : Nat) : Bool :=
  match r.producers[i]? with
  | some (.running (.asleep _ deadline)) => r.arena.wakes deadline
  | some (.running _) => true
  | _ => false

/-- The next reading of the clock at which a sleeper's time is over. -/
def nextAlarm? (r : Race) : Option Instant :=
  let watchdog := (r.watchdog.bind Watchdog.alarm?).toList
  let consumers := r.consumers.toList.filterMap Consumer.alarm?
  let producers := r.producers.toList.filterMap ProducerThread.alarm?
  (watchdog ++ consumers ++ producers).min?.map (· + 1)

/-- A run under way: how many random words were handed out, and whether any thread has
gone on in this round. -/
structure Progress where
  race : Race
  drawn : Nat
  moved : Bool

def Progress.turn (s : Setup) (p : Progress) (ready : Race → Bool) (label : Label) : Progress :=
  match p with
  | ⟨race, drawn, moved⟩ =>
    if ready race then ⟨race.step s label, drawn + 1, true⟩ else ⟨race, drawn, moved⟩

def Progress.round (s : Setup) (words : Nat → UInt64) (p : Progress) : Progress :=
  let p := { p with moved := false }
  let p := p.turn s callerReady .caller
  let p := p.turn s watchdogReady .watchdog
  let p := (List.range p.race.consumers.size).foldl
    (fun p i => p.turn s (·.consumerReady i) (.consumer i (words p.drawn))) p
  (List.range p.race.producers.size).foldl
    (fun p i => p.turn s (·.producerReady i) (.producer i (words p.drawn))) p

/-- The time of a round. -/
def roundSpan : Nat := 1000

/-- At most `n` rounds. -/
def runRounds (s : Setup) (words : Nat → UInt64) : Nat → Progress → Race
  | 0, p => p.race
  | n + 1, p =>
    if p.race.outcome?.isSome then p.race
    else
      match p.round s words with
      | ⟨race, drawn, true⟩ =>
        runRounds s words n ⟨race.step s (.tick roundSpan), drawn, true⟩
      | ⟨race, drawn, false⟩ =>
        match race.nextAlarm? with
        | none => race
        | some time =>
          let wait := time - race.arena.now
          runRounds s words n ⟨race.step s (.tick wait), drawn, true⟩

/-- More rounds than any run takes in practice. -/
def patience : Nat := 1000000000000000

/-- A whole run over `queue` under the fair schedule, with a supply of random words. -/
def execute (s : Setup) (queue : Chain Item) (stop : StopToken) (words : Nat → UInt64) : Race :=
  runRounds s words patience ⟨start s queue stop, 0, true⟩

end Race

end QueueRace
