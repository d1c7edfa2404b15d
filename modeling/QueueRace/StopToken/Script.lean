import QueueRace.Slots
import QueueRace.StopToken.Monitor

/-! Scripts over tokens in slots. A clone goes into any slot and shares the
state of the token it was made from. -/

namespace QueueRace

namespace TokenScript

inductive Action where
  | clone (target : Slot)
  | cancel
  | isCancelled
  | poison
  | debug
  | sleep (span : Duration)
  /-- Sleeps while the token of another slot is cancelled after `delay`. -/
  | sleepUntilCancelled (span : Duration) (canceller : Slot) (delay : Duration)
  | unknown

inductive Step where
  | renew
  | drop
  | act (action : Action)

inductive Reply where
  | done
  | flag (b : Bool)
  | text (s : String)
  /-- How a sleep ended; `full` says whether an uncancelled one took its time. -/
  | slept (cancelled : Bool) (full : Bool)
  | panicked (text : String)
  | unfinished
  | noToken
  | unknownStep

structure State where
  /-- The states that tokens share, and for each slot the one that its token has. -/
  states : Array StopToken
  tokens : Slots Nat
  now : Instant

namespace State

/-- The clock does not start at zero. -/
def start : State := ⟨#[.new], [(0, 0)], 1000000000000⟩

def state (s : State) (i : Nat) : StopToken := (s.states[i]?).getD .new

def renew (s : State) (q : Slot) : State :=
  { s with states := s.states.push .new, tokens := s.tokens.put q s.states.size }

def visit (s : State) (i : Nat) (threads : List Monitor.Thread) : State × Monitor :=
  let m := Monitor.run (s.state i) s.now threads
  ({ s with states := s.states.setIfInBounds i m.token, now := m.now }, m)

def view (s : State) : List (Slot × Bool) := s.tokens.map fun (q, i) => (q, (s.state i).cancelled)

end State

def Reply.ofSleep (span : Duration) (start : Instant) (m : Monitor) : Reply :=
  match (m.threads[0]? : Option Monitor.Thread) with
  | some (.sleeper (.done cancelled)) => .slept cancelled (start + span.toNanos ≤ m.now)
  | some (.sleeper .panicked) => .panicked Instant.overflowText
  | _ => .unfinished

def runAction (s : State) (i : Nat) : Action → State × Reply
  | .clone target => ({ s with tokens := s.tokens.put target i }, .done)
  | .cancel => ((s.visit i [.canceller .lock]).1, .done)
  | .isCancelled => (s, .flag (s.state i).cancelled)
  | .poison => ((s.visit i [.poisoner .lock]).1, .done)
  | .debug => (s, .text (s.state i).text)
  | .sleep span =>
    let (s', m) := s.visit i [.sleeper (.start span)]
    (s', .ofSleep span s.now m)
  | .sleepUntilCancelled span canceller delay =>
    match s.tokens.get? canceller with
    | none => (s, .noToken)
    | some k =>
      let sleeper := .sleeper (.start span)
      let cancel := .canceller (.await (s.now + delay.toNanos))
      if k = i then
        let (s', m) := s.visit i [sleeper, cancel]
        (s', .ofSleep span s.now m)
      else
        let (s', m) := s.visit i [sleeper]
        ((s'.visit k [cancel]).1, .ofSleep span s.now m)
  | .unknown => (s, .unknownStep)

def runStep (s : State) (q : Slot) : Step → State × Reply
  | .renew => (s.renew q, .done)
  | .drop => ({ s with tokens := s.tokens.remove q }, .flag (s.tokens.get? q).isSome)
  | .act action => match s.tokens.get? q with
    | none => (s, .noToken)
    | some i => runAction s i action

/-- Runs a script; after each step comes its reply and the view of all slots. -/
def run (s : State) : List (Slot × Step) → List (Reply × List (Slot × Bool))
  | [] => []
  | (q, step) :: rest =>
    let (s, reply) := runStep s q step
    (reply, s.view) :: run s rest

end TokenScript

end QueueRace
