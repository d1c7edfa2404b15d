import QueueRace.Text

/-! A token that asks workers to stop. All clones of a token share one state, which is
guarded by a mutex; a thread that panics while it holds the mutex poisons it. -/

namespace QueueRace

structure StopToken where
  cancelled : Bool
  poisoned : Bool
  deriving DecidableEq

namespace StopToken

def new : StopToken := ⟨false, false⟩

instance : Inhabited StopToken := ⟨new⟩

def text (t : StopToken) : String :=
  let lock := "Mutex \x7b data: (), poisoned: " ++ toString t.poisoned ++ ", .. \x7d"
  "StopToken(" ++ Text.record "Inner"
    [("cancelled", toString t.cancelled), ("lock", lock), ("cvar", "Condvar \x7b .. \x7d")] ++ ")"

end StopToken

end QueueRace
