import QueueRace.Text

/-! The items that pass through the queue, and what a run reports about them. -/

namespace QueueRace

structure Item where
  producer : Nat
  /-- Position in the order in which its producer enqueues, from zero. -/
  seq : UInt64
  value : Nat
  deriving DecidableEq

namespace Item

def text (i : Item) : String :=
  Text.record "Item"
    [("producer", toString i.producer), ("seq", toString i.seq), ("value", toString i.value)]

end Item

structure Report where
  /-- How many items each producer enqueued. -/
  produced : List UInt64
  consumed : List (List Item)
  deriving DecidableEq

namespace Report

def producedSum (r : Report) : Nat := r.produced.foldr (fun n total => n.toNat + total) 0

/-- The sum of all `produced`, if it fits a machine word. -/
def totalProduced? (r : Report) : Option UInt64 :=
  if r.producedSum < UInt64.size then some r.producedSum.toUInt64 else none

def overflowText : String := "attempt to add with overflow"

def totalConsumed (r : Report) : Nat := r.consumed.flatten.length

def text (r : Report) : String :=
  Text.record "Report"
    [("produced", Text.brackets (r.produced.map toString)),
      ("consumed", Text.brackets (r.consumed.map fun l => Text.brackets (l.map Item.text)))]

end Report

end QueueRace
