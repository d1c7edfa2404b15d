import QueueRace.Text

/-! Regular expressions, of which only matters whether they can be used. They are read in
a mode that groups can change. No tables of cases or kinds of characters are at hand, and
what is matched must be whole characters, so that not every mode allows everything. -/

namespace QueueRace.Pattern

inductive Fault where
  | malformed
  | wordEnd
  deriving DecidableEq, Repr

namespace Fault

def message : Fault → String
  | .malformed => "error building NFA"
  | .wordEnd =>
    "unsupported regex feature for DFAs: cannot build DFAs for regexes with Unicode word " ++
      "boundaries; switch to ASCII word boundaries, or heuristically enable Unicode word " ++
      "boundaries or use a different regex engine"

end Fault

inductive Atom where
  /-- A character; `isByte` is whether it is written as two digits after `\x`. -/
  | literal (c : Char) (isByte : Bool)
  | position (isWordEnd : Bool)
  /-- The digits, the blanks or the characters of words, or all but these. -/
  | kind (negated : Bool)
  | any
  deriving DecidableEq, Repr

structure Mode where
  caseless : Bool
  unicode : Bool
  verbose : Bool
  deriving DecidableEq, Repr

namespace Mode

def start : Mode := ⟨false, true, false⟩

/-! ### Blanks and comments -/

/-- Drops blanks and comments; `inComment` is whether the text begins amid one. -/
def dropBlanks (inComment : Bool) : List Char → List Char
  | [] => []
  | c :: cs =>
    if inComment then dropBlanks (c ≠ '\n') cs
    else if Text.isBlank c then dropBlanks false cs
    else if c = '#' then dropBlanks true cs
    else c :: cs

def skip (m : Mode) (cs : List Char) : List Char := if m.verbose then dropBlanks false cs else cs

/-- A look at the next character. It passes over blanks and one `#`, if anything follows. -/
def peek (m : Mode) (cs : List Char) : Option Char :=
  if m.verbose then
    let next := match cs.dropWhile Text.isBlank with
      | '#' :: rest => (rest.dropWhile Text.isBlank).head?
      | rest => rest.head?
    next.or cs.head?
  else cs.head?

/-! ### Changes -/

/-- The letters that stand for changes; those after the dash are taken back. -/
def changes : List Char := "imsUuRx-".toList

/-- Whether there are only letters for changes, none of them twice, and the dash not last. -/
def isChange (letters : List Char) : Bool :=
  letters.all changes.contains && letters.eraseDups.length = letters.length &&
    letters.getLast? ≠ some '-'

def change (m : Mode) (letters : List Char) : Mode :=
  let given := letters.takeWhile (· ≠ '-')
  let changed (letter : Char) (old : Bool) :=
    if letters.contains letter then given.contains letter else old
  ⟨changed 'i' m.caseless, changed 'u' m.unicode, changed 'x' m.verbose⟩

/-! ### What a mode allows -/

def isByteSized (c : Char) : Bool := c.toNat < 128

/-- Without tables there are no cases and no kinds of characters in all scripts, and a byte
that is no character, or all but some bytes, may be half of one. -/
def allows (m : Mode) : Atom → Bool
  | .literal c isByte => if m.unicode then !m.caseless else !isByte || isByteSized c
  | .position _ => true
  | .kind negated => !m.unicode && !negated
  | .any => m.unicode

/-- The same within brackets, which hold no positions. -/
def allowsInBrackets (m : Mode) : Atom → Bool
  | .literal c _ => if m.unicode then !m.caseless else isByteSized c
  | .position _ => false
  | atom => m.allows atom

def allowsClass (m : Mode) (negated : Bool) : Bool :=
  if m.unicode then !m.caseless else !negated

end Mode

end QueueRace.Pattern
