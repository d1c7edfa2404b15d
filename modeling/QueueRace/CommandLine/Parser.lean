import QueueRace.Config
import QueueRace.Numeral

/-! The command line: options with a number each, and a request for help. -/

namespace QueueRace

inductive CliOption where
  | items
  | producers
  | consumers
  | produceDelay
  | consumeDelay
  | pollInterval
  | timeout
  deriving DecidableEq, Repr

namespace CliOption

def all : List CliOption :=
  [.items, .producers, .consumers, .produceDelay, .consumeDelay, .pollInterval, .timeout]

def name : CliOption → String
  | .items => "--items"
  | .producers => "--producers"
  | .consumers => "--consumers"
  | .produceDelay => "--produce-delay"
  | .consumeDelay => "--consume-delay"
  | .pollInterval => "--poll-interval"
  | .timeout => "--timeout"

/-- What stands for the value in the usage line. -/
def placeholder : CliOption → String
  | .items => "<items>"
  | .producers => "<producers>"
  | .consumers => "<consumers>"
  | _ => "<ms>"

def description : CliOption → String
  | .items => "number of items enqueued by each producer"
  | .producers => "number of producer threads"
  | .consumers => "number of consumer threads"
  | .produceDelay => "max pause after each enqueue"
  | .consumeDelay => "max pause after each successful dequeue"
  | .pollInterval => "pause before polling an empty queue again"
  | .timeout => "stop producing after the given time"

def ofName? (name : String) : Option CliOption := all.find? (·.name = name)

end CliOption

/-- The values of the options; delays and the timeout are milliseconds. -/
structure Arguments where
  items : UInt64
  producers : UInt64
  consumers : UInt64
  produceDelay : UInt64
  consumeDelay : UInt64
  pollInterval : UInt64
  timeout : Option UInt64
  deriving DecidableEq

inductive ValueError where
  | duplicate
  | numeral (e : NumeralError)
  deriving DecidableEq, Repr

inductive UsageError where
  | afterHelp
  | noValue (option : CliOption)
  | badValue (option : CliOption) (value : String) (why : ValueError)
  | unrecognized (argument : String)
  deriving DecidableEq, Repr

/-- What a command line asks for. -/
inductive Request where
  | run (arguments : Arguments)
  | help
  | invalid (e : UsageError)
  deriving DecidableEq

namespace CommandLine

def programName : String := "msqueue-stress"

def helpName : String := "--help"

/-! ### Parsing -/

/-- The values given so far. -/
abbrev Given := List (CliOption × UInt64)

def Given.get? (g : Given) (option : CliOption) : Option UInt64 := g.lookup option

def Given.add (g : Given) (option : CliOption) (value : String) : Except ValueError Given :=
  if (g.get? option).isSome then .error .duplicate
  else
    match Numeral.read value.toList with
    | .error e => .error (.numeral e)
    | .ok n => .ok ((option, n) :: g)

def Given.arguments (g : Given) : Arguments where
  items := (g.get? .items).getD 10
  producers := (g.get? .producers).getD 1
  consumers := (g.get? .consumers).getD 5
  produceDelay := (g.get? .produceDelay).getD 500
  consumeDelay := (g.get? .consumeDelay).getD 800
  pollInterval := (g.get? .pollInterval).getD 10
  timeout := g.get? .timeout

def isOption (argument : String) : Bool := argument.toList.head? = some '-'

/-- Reads the arguments from left to right. Help is only noted, and given when all
arguments are accepted; after it there must be no option. There are no positional
arguments, so nothing may follow the end of the options. -/
def parseFrom (help : Bool) (given : Given) : List String → Request
  | [] => if help then .help else .run given.arguments
  | "--" :: rest => match rest with
    | [] => if help then .help else .run given.arguments
    | argument :: _ => .invalid (.unrecognized argument)
  | argument :: rest =>
    if argument = helpName then parseFrom true given rest
    else if isOption argument ∧ help then .invalid .afterHelp
    else
      match CliOption.ofName? argument with
      | none => .invalid (.unrecognized argument)
      | some option => match rest with
        | [] => .invalid (.noValue option)
        | value :: rest => match given.add option value with
          | .error why => .invalid (.badValue option value why)
          | .ok given => parseFrom help given rest

def parse (arguments : List String) : Request := parseFrom false [] arguments

end CommandLine

/-! ### From arguments to a config -/

inductive ConfigError where
  | noProducers
  | noConsumers
  deriving DecidableEq, Repr

namespace ConfigError

def message : ConfigError → String
  | .noProducers => "producers must not be zero"
  | .noConsumers => "consumers must not be zero"

end ConfigError

namespace Arguments

def config (a : Arguments) : Except ConfigError Config :=
  match WorkerCount.ofNat? a.producers.toNat, WorkerCount.ofNat? a.consumers.toNat with
  | none, _ => .error .noProducers
  | _, none => .error .noConsumers
  | some producers, some consumers => .ok
    { items := a.items
      producers
      consumers
      produceDelay := .ofMillis a.produceDelay
      consumeDelay := .ofMillis a.consumeDelay
      pollInterval := .ofMillis a.pollInterval }

end Arguments

end QueueRace
