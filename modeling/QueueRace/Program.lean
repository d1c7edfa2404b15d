import QueueRace.CommandLine.Usage
import QueueRace.Log.Filter
import QueueRace.Race.Schedule

/-! The program: it reads its arguments, runs the race, checks the report, and tells how
many items each consumer got. -/

namespace QueueRace

namespace Program

structure Output where
  exitCode : UInt32
  stdout : String
  stderr : String
  log : List (Who × Notice)

def failure (message : String) (causes : List String) (log : List (Who × Notice)) : Output :=
  let trail := match causes with
    | [] => ""
    | causes => "\nCaused by:\n" ++ String.join (causes.map fun c => "    " ++ c ++ "\n")
  ⟨1, "", "Error: " ++ message ++ "\n" ++ trail, log⟩

def panic (text : String) (log : List (Who × Notice)) : Output :=
  ⟨101, "", "thread 'main' panicked:\n" ++ text ++ "\n", log⟩

def summary (report : Report) (total : UInt64) : List (Who × Notice) :=
  let shares := report.consumed.mapIdx fun id items => Notice.share id items.length
  (Notice.verified total report.totalConsumed :: shares).map fun n => (.main, n)

/-- The end of a run that has returned a report. Totals are worked out only if they are shown. -/
def conclude (shown : Bool) (report : Report) (log : List (Who × Notice)) : Output :=
  match report.verify with
  | .rejected offence => failure offence.message [] log
  | .panicked why => panic why.text log
  | .accepted =>
    match shown, report.totalProduced? with
    | true, none => panic Report.overflowText log
    | _, total => ⟨0, "", "", log ++ summary report (total.getD 0)⟩

def setup (config : Config) (timeout : Option Duration) (shows : Notice → Bool) : Setup :=
  ⟨config, timeout, none, shows (.finished 0 0)⟩

/-- What the program makes of a race that has ended, whatever its schedule was. -/
def finish (shows : Notice → Bool) (race : Race) : Output :=
  let log := race.arena.log.toList
  match race.outcome? with
  | none => panic "the run did not end" log
  | some (.error e) => failure e.message e.causes log
  | some (.panicked p) => panic p.text log
  | some (.ok report) => conclude (shows (.verified 0 0)) report log

/-- The program once its arguments have been read and it is known which notices are shown; `race`
is what becomes of the threads. -/
def runWith (a : Arguments) (shows : Notice → Bool) (race : Setup → Race) : Output :=
  match a.config with
  | .error e => failure e.message [] []
  | .ok config => finish shows (race (setup config (a.timeout.map .ofMillis) shows))

/-- What the program does with its arguments, the wanted log levels and random words. What
was wrong with the levels is told first, but only if the arguments make sense. -/
def run (arguments : List String) (levels : String) (words : Nat → UInt64) : Output :=
  match CommandLine.parse arguments with
  | .help => ⟨0, CommandLine.help ++ "\n", "", []⟩
  | .invalid e => ⟨1, "", e.message ++ "\n" ++ CommandLine.hint, []⟩
  | .run a =>
    let (filter, rejections) := Filter.read levels
    let output := runWith a filter.shows fun s => Race.execute s .empty .new words
    let warnings := String.join (rejections.map fun r => r.message ++ "\n")
    { output with
      stderr := warnings ++ output.stderr
      log := output.log.filter fun (_, n) => filter.shows n }

end Program

end QueueRace
