/-! Numbered slots. A table lists its slots in increasing order of their numbers. -/

namespace QueueRace

abbrev Slot := Nat

abbrev Slots (β : Type) := List (Slot × β)

namespace Slots

variable {β : Type}

def get? (t : Slots β) (q : Slot) : Option β := t.lookup q

def put (q : Slot) (x : β) : Slots β → Slots β
  | [] => [(q, x)]
  | (p, y) :: t =>
    if q < p then (q, x) :: (p, y) :: t
    else if q = p then (q, x) :: t
    else (p, y) :: put q x t

def remove (q : Slot) (t : Slots β) : Slots β := t.filter fun e => e.1 != q

end Slots

end QueueRace
