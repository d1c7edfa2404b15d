import QueueRace.Duration
import QueueRace.StopToken.Basic

/-! Sleeping through a token and cancelling it, step by step. A cancellation sets the
flag and wakes all sleepers while it holds the mutex. A sleeper looks at the flag and
the clock while it holds the mutex, and gives the mutex up in the same step in which
it begins to wait. It may wake at any time and then looks again. -/

namespace QueueRace

namespace Monitor

inductive Sleep where
  | start (span : Duration)
  /-- A span of zero only lets others run. -/
  | yield
  | lock (deadline : Instant)
  | check (deadline : Instant)
  | measure (deadline : Instant)
  | wait (deadline : Instant) (notified : Bool)
  | unlock (answer : Bool)
  | done (answer : Bool)
  | panicked

inductive Cancel where
  | await (time : Instant)
  | lock
  | store
  | notify
  | unlock
  | done

inductive Poison where
  | lock
  | fail
  | done

inductive Thread where
  | sleeper (phase : Sleep)
  | canceller (phase : Cancel)
  | poisoner (phase : Poison)

def Thread.notify : Thread → Thread
  | .sleeper (.wait deadline _) => .sleeper (.wait deadline true)
  | thread => thread

end Monitor

structure Monitor where
  token : StopToken
  /-- The thread that holds the mutex. -/
  owner : Option Nat
  now : Instant
  threads : Array Monitor.Thread

namespace Monitor

def put (m : Monitor) (t : Nat) (thread : Thread) : Monitor :=
  { m with threads := m.threads.setIfInBounds t thread }

def acquire (m : Monitor) (t : Nat) (thread : Thread) : Option Monitor :=
  match m.owner with
  | none => some { m.put t thread with owner := some t }
  | some _ => none

def release (m : Monitor) (t : Nat) (thread : Thread) : Monitor :=
  { m.put t thread with owner := none }

def stepSleep (m : Monitor) (t : Nat) : Sleep → Option Monitor
  | .start span =>
    if span.isZero then some (m.put t (.sleeper .yield))
    else match m.now.add? span with
      | none => some (m.put t (.sleeper .panicked))
      | some deadline => some (m.put t (.sleeper (.lock deadline)))
  | .yield => some (m.put t (.sleeper (.done m.token.cancelled)))
  | .lock deadline => m.acquire t (.sleeper (.check deadline))
  | .check deadline =>
    if m.token.cancelled then some (m.put t (.sleeper (.unlock true)))
    else some (m.put t (.sleeper (.measure deadline)))
  | .measure deadline =>
    if deadline < m.now then some (m.put t (.sleeper (.unlock false)))
    else some (m.release t (.sleeper (.wait deadline false)))
  | .wait deadline _ => some (m.put t (.sleeper (.lock deadline)))
  | .unlock answer => some (m.release t (.sleeper (.done answer)))
  | .done _ => none
  | .panicked => none

def stepCancel (m : Monitor) (t : Nat) : Cancel → Option Monitor
  | .await time => if time ≤ m.now then some (m.put t (.canceller .lock)) else none
  | .lock => m.acquire t (.canceller .store)
  | .store =>
    some { m.put t (.canceller .notify) with token := { m.token with cancelled := true } }
  | .notify =>
    let m := { m with threads := m.threads.map Thread.notify }
    some (m.put t (.canceller .unlock))
  | .unlock => some (m.release t (.canceller .done))
  | .done => none

def stepPoison (m : Monitor) (t : Nat) : Poison → Option Monitor
  | .lock => m.acquire t (.poisoner .fail)
  | .fail =>
    some { m.release t (.poisoner .done) with token := { m.token with poisoned := true } }
  | .done => none

/-- A step of thread `t`, if it has one and the mutex or the clock does not hold it up. -/
def step (m : Monitor) (t : Nat) : Option Monitor :=
  match m.threads[t]? with
  | none => none
  | some (.sleeper phase) => m.stepSleep t phase
  | some (.canceller phase) => m.stepCancel t phase
  | some (.poisoner phase) => m.stepPoison t phase

def tick (m : Monitor) (span : Nat) : Monitor := { m with now := m.now + span }

/-! ### A run in which nobody wakes without a reason -/

/-- The time that a thread waits for. -/
def Thread.alarm? : Thread → Option Instant
  | .sleeper (.wait deadline false) => some (deadline + 1)
  | .canceller (.await time) => some time
  | _ => none

def isReady (m : Monitor) (t : Nat) : Bool :=
  match m.threads[t]? with
  | none => false
  | some thread => (thread.alarm?.all (· ≤ m.now)) && (m.step t).isSome

def nextAlarm? (m : Monitor) : Option Instant := (m.threads.toList.filterMap Thread.alarm?).min?

/-- Steps the first thread that is ready; if none is, lets the clock reach the next
alarm. At most `n` times. -/
def runFor : Nat → Monitor → Monitor
  | 0, m => m
  | n + 1, m =>
    match (List.range m.threads.size).find? m.isReady with
    | some t => runFor n ((m.step t).getD m)
    | none => match m.nextAlarm? with
      | some time => runFor n { m with now := max m.now time }
      | none => m

/-- No thread takes more steps than this, waiting once. -/
def stepsPerThread : Nat := 16

def run (token : StopToken) (now : Instant) (threads : List Thread) : Monitor :=
  runFor (stepsPerThread * threads.length) ⟨token, none, now, threads.toArray⟩

end Monitor

end QueueRace
