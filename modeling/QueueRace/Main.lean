import QueueRace.Program

/-! The executable. -/

open QueueRace in
/-- A line of the log. -/
def logLine (who : Who) (n : Notice) : String :=
  let level := n.level.name
  "".pushn ' ' (5 - level.length) ++ level ++ " " ++ who.name ++ " " ++ n.target ++ ": " ++ n.text

def main (arguments : List String) : IO UInt32 := do
  let levels ← IO.getEnv "RUST_LOG"
  let seed ← IO.rand 0 (UInt64.size - 1)
  let words := QueueRace.wordsOfSeed seed.toUInt64
  let output := QueueRace.Program.run arguments (levels.getD "") words
  for (who, n) in output.log do
    IO.println (logLine who n)
  IO.print output.stdout
  IO.eprint output.stderr
  return output.exitCode
