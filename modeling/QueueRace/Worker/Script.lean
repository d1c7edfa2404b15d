import QueueRace.Worker.Alone

/-! Scripts over one queue, one token and one count of producers, with single workers
as steps. -/

namespace QueueRace

namespace WorkerScript

inductive Step where
  | produce (id : Nat) (items : UInt64)
  /-- Pauses as long as can be; somebody cancels once the queue has an item. -/
  | produceInterrupted (id : Nat) (items : UInt64)
  | consume (id : Nat)
  /-- One more producer enqueues `late` after `delay` and is done. -/
  | consumeLate (id : Nat) (late : List Item) (delay : Duration)
  | enqueue (item : Item)
  | dequeue
  | cancel
  | start
  | finish
  | unknown

inductive Reply where
  | done
  | count (n : UInt64)
  | items (l : List Item)
  | item (i : Option Item)
  | panicked
  /-- A worker or a dequeue that has not come to its end. -/
  | unfinished
  /-- A consumer would wait for a producer that is not there. -/
  | wouldWait
  | queueNotEmpty
  | unknownStep

structure View where
  empty : Bool
  cancelled : Bool
  producing : UInt64

def view (a : Arena) : View := ⟨a.queue.isEmpty, a.stop.cancelled, a.live⟩

def start (producing : UInt64) : Arena := ⟨.empty, .new, producing, 1000000000000, #[]⟩

/-- More steps than any worker takes in practice. -/
def patience : Nat := 1000000000000000

def longest : Duration := ⟨0 - 1, 999999999, by decide⟩

def replyOfProducer (p : Producer) : Reply :=
  match p with
  | .ended (.returned n) => .count n
  | .ended .panicked => .panicked
  | _ => .unfinished

def replyOfConsumer (c : Consumer) : Reply :=
  match c.exit? with
  | some (.returned items) => .items items
  | some .panicked => .panicked
  | none => .unfinished

def interrupt (a : Arena) : Arena := if a.queue.isEmpty then a else a.cancel

def deliver (a : Arena) (late : List Item) : Arena :=
  { a with queue := a.queue.extend late, live := a.live - 1 }

/-- The time that a step of a consumer takes while somebody else keeps an eye on the clock. -/
def stepSpan : Nat := 100

def runUntil (c : Config) (id : Nat) (words : Nat → UInt64) (time : Instant) :
    Nat → Arena → Consumer → Arena × Consumer
  | 0, a, consumer => (a, consumer)
  | n + 1, a, consumer =>
    if consumer.exit?.isSome || time ≤ a.now then (a, consumer)
    else
      match consumer.alarm?.filter fun deadline => ¬ a.wakes deadline with
      | some deadline =>
        runUntil c id words time n { a with now := min time (deadline + 1) } consumer
      | none =>
        let (a, consumer) := consumer.advance c id (words n) a
        runUntil c id words time n (a.tick stepSpan) consumer

def consumeLate (c : Config) (id : Nat) (words : Nat → UInt64) (a : Arena) (late : List Item)
    (delay : Duration) : Arena × Consumer :=
  let time := a.now + delay.toNanos
  let (a, consumer) := runUntil c id words time patience { a with live := a.live + 1 } .start
  let a := deliver { a with now := max a.now time } late
  Consumer.runFor c id words (fun a => a) patience a consumer

def runStep (c : Config) (words : Nat → UInt64) (a : Arena) : Step → Arena × Reply
  | .produce id items =>
    let (a, p) := Producer.runFor { c with items } id words (fun a => a) patience a (.check 0)
    (a, replyOfProducer p)
  | .produceInterrupted id items =>
    if ¬ a.queue.isEmpty ∧ ¬ a.stop.cancelled then (a, .queueNotEmpty)
    else
      let c := { c with items, produceDelay := longest }
      let (a, p) := Producer.runFor c id words interrupt patience a (.check 0)
      (a, replyOfProducer p)
  | .consume id =>
    if a.live ≠ 0 then (a, .wouldWait)
    else
      let (a, consumer) := Consumer.runFor c id words (fun a => a) patience a .start
      (a, replyOfConsumer consumer)
  | .consumeLate id late delay =>
    let (a, consumer) := consumeLate c id words a late delay
    (a, replyOfConsumer consumer)
  | .enqueue item => ({ a with queue := a.queue.enqueue item }, .done)
  | .dequeue =>
    match a.queue.dequeue with
    | (queue, .done item) => ({ a with queue }, .item item)
    | (queue, _) => ({ a with queue }, .unfinished)
  | .cancel => (a.cancel, .done)
  | .start => ({ a with live := a.live + 1 }, .done)
  | .finish => ({ a with live := a.live - 1 }, .done)
  | .unknown => (a, .unknownStep)

/-- Runs a script; each step comes with its reply and the arena after it, and at the end
comes what is left in the queue. -/
def run (c : Config) (words : Nat → UInt64) (a : Arena) :
    List Step → List (Reply × View) × List Item
  | [] => ([], a.queue.toList)
  | step :: rest =>
    let (a, reply) := runStep c words a step
    let (replies, left) := run c words a rest
    ((reply, view a) :: replies, left)

end WorkerScript

end QueueRace
