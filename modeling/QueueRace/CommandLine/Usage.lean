import QueueRace.CommandLine.Parser

/-! What the command line says to its user: the help text and the errors. -/

namespace QueueRace

namespace UsageError

/-- All but the first kind end their line themselves. -/
def message : UsageError → String
  | .afterHelp => "Trailing arguments are not allowed after `help`."
  | .noValue option => "No value provided for option '" ++ option.name ++ "'.\n"
  | .badValue option value why =>
    let reason := match why with
      | .duplicate => "duplicate values provided"
      | .numeral e => e.message
    "Error parsing option '" ++ option.name ++ "' with value '" ++ value ++ "': " ++ reason ++ "\n"
  | .unrecognized argument => "Unrecognized argument: " ++ argument ++ "\n"

end UsageError

namespace CommandLine

def summary : String := "Races producers and consumers over a lock-free queue"

/-- A name, padded to the width of the column, and its description. -/
def entry (name description : String) : String :=
  "  " ++ name.pushn ' ' (16 - name.length) ++ "  " ++ description ++ "\n"

def help : String :=
  let usage := CliOption.all.map fun o => "[" ++ o.name ++ " " ++ o.placeholder ++ "]"
  let entries := CliOption.all.map fun o => entry o.name o.description
  "Usage: " ++ " ".intercalate (programName :: usage) ++ "\n\n" ++ summary ++ "\n\nOptions:\n" ++
    String.join entries ++ entry helpName "display usage information"

def hint : String := "Run " ++ programName ++ " " ++ helpName ++ " for more information.\n"

end CommandLine

end QueueRace
