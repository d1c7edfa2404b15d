import QueueRace.Worker.Consumer
import QueueRace.Worker.Producer

/-! Single workers, with nobody else around but a visitor who may do something to the
arena between two steps. The clock goes on by itself only while the worker sleeps. -/

namespace QueueRace

namespace Arena

/-- Lets the clock reach the end of a sleep, unless there is a reason to wake before. -/
def sleepThrough (a : Arena) (deadline : Instant) : Arena :=
  if a.wakes deadline then a else { a with now := deadline + 1 }

end Arena

namespace Producer

def runFor (c : Config) (id : Nat) (words : Nat → UInt64) (visit : Arena → Arena) :
    Nat → Arena → Producer → Arena × Producer
  | 0, a, p => (a, p)
  | n + 1, a, p =>
    match p with
    | .ended exit => (a, .ended exit)
    | p =>
      let a := visit a
      let a := match p.alarm? with
        | none => a
        | some deadline => a.sleepThrough deadline
      let (a, p) := p.step c id (words n) a
      runFor c id words visit n a p

end Producer

namespace Consumer

def runFor (c : Config) (id : Nat) (words : Nat → UInt64) (visit : Arena → Arena) :
    Nat → Arena → Consumer → Arena × Consumer
  | 0, a, consumer => (a, consumer)
  | n + 1, a, consumer =>
    if consumer.exit?.isSome then (a, consumer)
    else
      let a := visit a
      let a := match consumer.alarm? with
        | none => a
        | some deadline => a.sleepThrough deadline
      let (a, consumer) := consumer.advance c id (words n) a
      runFor c id words visit n a consumer

end Consumer

end QueueRace
