import QueueRace.Log.Notice
import QueueRace.Numeral
import QueueRace.Pattern.Check

/-! Directives, `target[span{field=value}]=level`. Any part may be missing. A word alone
is a level if it can be read as one, and otherwise a target of which everything is shown.

Blanks around a directive are not read. Positions are found in what is read, but the
parts between them are cut out of the text with its blanks, so that all parts of a
directive with leading blanks are shifted. -/

namespace QueueRace

structure FieldTest where
  name : String
  /-- Whether it asks for a certain value, and not only that there is such a field. -/
  hasValue : Bool
  deriving DecidableEq, Repr

structure Directive where
  target : Option String
  span : Option String
  fields : List FieldTest
  /-- The highest verbosity that is shown; nothing has verbosity zero. -/
  verbosity : Nat
  deriving DecidableEq, Repr

inductive DirectiveError where
  | malformed
  | badLevel
  | badPattern (fault : Pattern.Fault)
  deriving DecidableEq, Repr

namespace DirectiveError

def message : DirectiveError → String
  | .malformed => "invalid filter directive"
  | .badLevel =>
    "error parsing level filter: expected one of \"off\", \"error\", \"warn\", \"info\", " ++
      "\"debug\", \"trace\", or a number 0-5"
  | .badPattern fault => "invalid field filter: " ++ fault.message

end DirectiveError

namespace Level

/-- The verbosity that a name, in any case, or a numeral stands for. -/
def readVerbosity? (cs : List Char) : Option Nat :=
  let named := match (String.ofList cs).toLower with
    | "off" => some 0
    | "error" => some error.verbosity
    | "warn" => some warn.verbosity
    | "info" => some info.verbosity
    | "debug" => some debug.verbosity
    | "trace" => some trace.verbosity
    | _ => none
  match Numeral.read cs with
  | .ok n => if n.toNat ≤ trace.verbosity then some n.toNat else named
  | .error _ => named

end Level

namespace Directive

def all : Directive := ⟨none, none, [], Level.trace.verbosity⟩

def ofVerbosity (verbosity : Nat) : Directive := { all with verbosity }

/-! ### Reading -/

/-- Where the reader is. The numbers are the positions at which parts begin. -/
inductive Place where
  | start
  | word
  | span (first : Nat)
  | field (first : Nat)
  | fields
  | closed
  | level (first : Nat)
  deriving DecidableEq, Repr

def beginsWord (c : Char) : Bool := Text.isAlphanumeric c || c = '-' || c = ':' || c = '_'

/-- A part of the text; none if it would cut a character in two. -/
def part (text : List Char) (first last : Nat) : Except DirectiveError String :=
  match Text.cut text first last with
  | some cs => .ok (String.ofList cs)
  | none => .error .malformed

/-- Reads `name` or `name=value`, where the value is a number or else a pattern, and ends
before another `=`. -/
def fieldTest (s : String) : Except DirectiveError FieldTest :=
  let name := s.toList.takeWhile (· ≠ '=')
  match s.toList.drop name.length with
  | [] => if name.isEmpty then .error .malformed else .ok ⟨String.ofList name, false⟩
  | _ :: rest =>
    let value := rest.takeWhile (· ≠ '=')
    match if Numeral.isDecimal value then none else Pattern.fault? value with
    | none => .ok ⟨String.ofList name, true⟩
    | some fault => .error (.badPattern fault)

def step (text : List Char) (i : Nat) (c : Char) (d : Directive) :
    Place → Except DirectiveError (Directive × Place)
  | .start =>
    if c = '[' then .ok (d, .span (i + 1))
    else if beginsWord c then .ok (d, .word)
    else .error .malformed
  | .word =>
    if c = '=' then do return ({ d with target := ← part text 0 i }, .level (i + 1))
    else if c = '[' then do return ({ d with target := ← part text 0 i }, .span (i + 1))
    else .ok (d, .word)
  | .span first =>
    if c = ']' then do return ({ d with span := ← part text first i }, .closed)
    else if c = '\x7b' then do
      let name ← part text first i
      return ({ d with span := if name.isEmpty then none else some name }, .field (i + 1))
    else .ok (d, .span first)
  | .field first =>
    if c = '\x7d' then do
      let test ← fieldTest (← part text first i)
      return ({ d with fields := d.fields ++ [test] }, .fields)
    else .ok (d, .field first)
  | .fields => if c = ']' then .ok (d, .closed) else .error .malformed
  | .closed => if c = '=' then .ok (d, .level (i + 1)) else .error .malformed
  | .level first => .ok (d, .level first)

def finish (text : List Char) (d : Directive) : Place → Except DirectiveError Directive
  | .word =>
    match Level.readVerbosity? text with
    | some verbosity => .ok { d with verbosity }
    | none => .ok { d with target := some (String.ofList text) }
  | .closed => .ok d
  | .level first =>
    match Text.dropBytes text first with
    | none => .error .malformed
    | some [] => .ok d
    | some cs => match Level.readVerbosity? cs with
      | some verbosity => .ok { d with verbosity }
      | none => .error .badLevel
  | _ => .error .malformed

def readFrom (text : List Char) (i : Nat) (d : Directive) (place : Place) :
    List Char → Except DirectiveError Directive
  | [] => finish text d place
  | c :: cs => match step text i c d place with
    | .error e => .error e
    | .ok (d, place) => readFrom text (i + c.utf8Size) d place cs

def read (text : String) : Except DirectiveError Directive :=
  readFrom text.toList 0 all .start (Text.trim text.toList)

/-! ### Meaning -/

/-- Whether a directive is about a notice. No notice is in a span, and no directive can
tell its values. -/
def covers (d : Directive) (n : Notice) : Bool :=
  d.span.isNone &&
    d.fields.all (fun f => !f.hasValue && n.fieldNames.contains f.name) &&
    d.target.all fun target => target.toList.isPrefixOf n.target.toList

/-- Of two directives for one notice the one with the longer target counts, then the one
with more fields, then the second. -/
def stronger (a b : Directive) : Directive :=
  let size (d : Directive) := (d.target.map String.length).getD 0
  if size a < size b then b
  else if size b < size a then a
  else if b.fields.length < a.fields.length then a
  else b

end Directive

end QueueRace
