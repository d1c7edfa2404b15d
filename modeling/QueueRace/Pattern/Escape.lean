import QueueRace.Pattern.Basic

/-! What follows a backslash, and what stands within brackets. -/

namespace QueueRace.Pattern

def hexDigit? (c : Char) : Option Nat :=
  if '0' ≤ c ∧ c ≤ '9' then some (c.toNat - 48)
  else if 'a' ≤ c ∧ c ≤ 'f' then some (c.toNat - 87)
  else if 'A' ≤ c ∧ c ≤ 'F' then some (c.toNat - 55)
  else none

/-- Reads the last `n` digits of a character's number. -/
def readNumber (m : Mode) (isByte : Bool) (value : Nat) : Nat → List Char →
    Option (Atom × List Char)
  | 0, cs => if value.isValidChar then some (.literal (Char.ofNat value) isByte, cs) else none
  | n + 1, cs =>
    match m.skip cs with
    | [] => none
    | c :: cs =>
      match hexDigit? c with
      | none => none
      | some digit => readNumber m isByte (16 * value + digit) n cs

/-- Reads what follows a backslash. Letters and digits without a meaning are kept for
later; properties of characters have none without tables. -/
def readEscape (m : Mode) : List Char → Option (Atom × List Char)
  | [] => none
  | c :: cs =>
    let literal (c : Char) := some (Atom.literal c false, cs)
    match c with
    | 'x' => readNumber m true 0 2 cs
    | 'u' => readNumber m false 0 4 cs
    | 'U' => readNumber m false 0 8 cs
    | 'a' => literal '\x07'
    | 't' => literal '\t'
    | 'n' => literal '\n'
    | 'v' => literal '\x0b'
    | 'f' => literal '\x0c'
    | 'r' => literal '\r'
    | 'd' => some (.kind false, cs)
    | 's' => some (.kind false, cs)
    | 'w' => some (.kind false, cs)
    | 'D' => some (.kind true, cs)
    | 'S' => some (.kind true, cs)
    | 'W' => some (.kind true, cs)
    | 'A' => some (.position false, cs)
    | 'z' => some (.position false, cs)
    | 'b' => some (.position true, cs)
    | 'B' => some (.position true, cs)
    | '<' => some (.position true, cs)
    | '>' => some (.position true, cs)
    | c => if c.toNat < 128 && !c.isAlphanum then literal c else none

/-! ### Within brackets -/

def readMember (m : Mode) : List Char → Option (Atom × List Char)
  | [] => none
  | '\\' :: cs => readEscape m cs
  | c :: cs => some (.literal c false, cs)

def isRange : Atom → Atom → Bool
  | .literal first _, .literal last _ => first ≤ last
  | _, _ => false

/-- Reads a member or a range, and gives what is left. A dash before a bracket or another
dash makes no range. -/
def readMembers (m : Mode) (cs : List Char) : Option (List Char) :=
  match readMember m cs with
  | none => none
  | some (first, cs) =>
    let single := if m.allowsInBrackets first then some (m.skip cs) else none
    match m.skip cs with
    | '-' :: rest =>
      if m.peek rest = some ']' || m.peek rest = some '-' then single
      else
        match readMember m (m.skip rest) with
        | none => none
        | some (last, rest) =>
          let allowed := m.allowsInBrackets first && m.allowsInBrackets last
          if isRange first last && allowed then some rest else none
    | _ => single

def classNames : List String :=
  ["alnum", "alpha", "ascii", "blank", "cntrl", "digit", "graph", "lower", "print", "punct",
    "space", "upper", "word", "xdigit"]

/-- Reads what follows the bracket of a named class, `:name:]` or `:^name:]`, and tells
whether it is negated. -/
def readClass? : List Char → Option (Bool × List Char)
  | ':' :: cs =>
    let (negated, cs) := match cs with
      | '^' :: cs => (true, cs)
      | cs => (false, cs)
    let name := cs.takeWhile (· ≠ ':')
    match cs.drop name.length with
    | ':' :: ']' :: rest =>
      if classNames.contains (String.ofList name) then some (negated, rest) else none
    | _ => none
  | _ => none

end QueueRace.Pattern
