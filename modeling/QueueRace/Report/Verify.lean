import Std.Data.HashSet
import QueueRace.Report.Basic

/-! The check of a report: every produced item was consumed exactly once, and each
consumer got the items of a producer in their order. It first makes room for a mark of
each produced item. The scan then goes consumer by consumer and stops at the first
offence; only after it are lost items looked for. -/

namespace QueueRace

inductive Offence where
  /-- The items of a producer are more than there are positions for their marks. -/
  | tooMany (producer : Nat) (produced : UInt64)
  | unknown (consumer producer : Nat) (seq : UInt64)
  | duplicated (consumer producer : Nat) (seq : UInt64)
  /-- `after` is what the consumer got from this producer just before. -/
  | reordered (consumer producer : Nat) (seq after : UInt64)
  | lost (producer : Nat) (seq : UInt64)
  deriving DecidableEq

namespace Offence

def message : Offence → String
  | .tooMany p n => s!"too many items to verify, producer={p}, produced={n}"
  | .unknown c p s => s!"unknown item, consumer={c}, producer={p}, seq={s}"
  | .duplicated c p s => s!"duplicated item, consumer={c}, producer={p}, seq={s}"
  | .reordered c p s a => s!"reordered item, consumer={c}, producer={p}, seq={s}, after={a}"
  | .lost p s => s!"lost item, producer={p}, seq={s}"

end Offence

inductive VerifyPanic where
  /-- The marks for the items of one producer cannot be allocated. -/
  | capacity
  /-- A table of that size has no entry of that number. -/
  | outOfRange (index size : Nat)
  deriving DecidableEq

namespace VerifyPanic

def text : VerifyPanic → String
  | .capacity => "capacity overflow"
  | .outOfRange index size => s!"index out of bounds: the len is {size} but the index is {index}"

end VerifyPanic

inductive Verdict where
  | accepted
  | rejected (offence : Offence)
  | panicked (why : VerifyPanic)
  deriving DecidableEq

namespace Report

/-! ### Room for the marks -/

def positionCount : Nat := UInt64.size

/-- No more marks than this can be allocated for one producer. -/
def markLimit : Nat := 9223372036854775807

/-- Makes room for the marks of the producers from number `p` on. -/
def reserve (p : Nat) : List UInt64 → Except Verdict Unit
  | [] => .ok ()
  | n :: produced =>
    if positionCount ≤ n.toNat then .error (.rejected (.tooMany p n))
    else if markLimit < n.toNat then .error (.panicked .capacity)
    else reserve (p + 1) produced

/-! ### The scan -/

abbrev Seen := Std.HashSet (Nat × UInt64)

/-- The last position a consumer got from each producer. -/
abbrev Last := Array (Option UInt64)

def isKnown (produced : Array UInt64) (i : Item) : Bool :=
  match produced[i.producer]? with
  | none => false
  | some n => i.seq < n

def scanItems (produced : Array UInt64) (c : Nat) (seen : Seen) (last : Last) :
    List Item → Except Verdict Seen
  | [] => .ok seen
  | i :: items =>
    let p := i.producer
    if !isKnown produced i then .error (.rejected (.unknown c p i.seq))
    else if seen.contains (p, i.seq) then .error (.rejected (.duplicated c p i.seq))
    else
      match last[p]? with
      | none => .error (.panicked (.outOfRange p last.size))
      | some prev? =>
        match prev?.filter (· ≥ i.seq) with
        | some prev => .error (.rejected (.reordered c p i.seq prev))
        | none =>
          scanItems produced c (seen.insert (p, i.seq)) (last.setIfInBounds p (some i.seq)) items

def scan (produced : Array UInt64) (c : Nat) (seen : Seen) :
    List (List Item) → Except Verdict Seen
  | [] => .ok seen
  | items :: consumed =>
    match scanItems produced c seen (.replicate produced.size none) items with
    | .error v => .error v
    | .ok seen => scan produced (c + 1) seen consumed

/-! ### Lost items -/

/-- The first of the `n` positions from `s` on that was not seen. -/
def firstUnseen (seen : Seen) (p : Nat) : Nat → UInt64 → Option UInt64
  | 0, _ => none
  | n + 1, s => if seen.contains (p, s) then firstUnseen seen p n (s + 1) else some s

def firstLost (seen : Seen) (p : Nat) : List UInt64 → Option Offence
  | [] => none
  | n :: produced =>
    match firstUnseen seen p n.toNat 0 with
    | some s => some (.lost p s)
    | none => firstLost seen (p + 1) produced

def verify (r : Report) : Verdict :=
  match reserve 0 r.produced with
  | .error v => v
  | .ok () =>
    match scan r.produced.toArray 0 ∅ r.consumed with
    | .error v => v
    | .ok seen => match firstLost seen 0 r.produced with
      | some e => .rejected e
      | none => .accepted

end Report

end QueueRace
