import QueueRace.Report.Basic

/-! Reports in a form that does not depend on which consumer got which item. -/

namespace QueueRace

namespace Report

def producersOf (items : List Item) : List Nat :=
  ((items.map Item.producer).mergeSort (· ≤ ·)).eraseReps

/-- For each producer the positions of its items: in the order they were dequeued if
there was one consumer, else sorted. -/
def seqsByProducer (r : Report) : List (Nat × List UInt64) :=
  let items := r.consumed.flatten
  let order (l : List UInt64) := if r.consumed.length = 1 then l else l.mergeSort (· ≤ ·)
  (producersOf items).map fun p =>
    (p, order ((items.filter (·.producer = p)).map Item.seq))

/-- Whether all that was produced, and `preloaded` items more, was consumed. -/
def isBalanced (r : Report) (preloaded : Nat) : Bool :=
  r.producedSum + preloaded = r.totalConsumed

def valuesBelow (r : Report) (bound : Nat) : Bool := r.consumed.all (·.all (·.value < bound))

end Report

end QueueRace
