import QueueRace.Pattern.Escape

/-! Whether a pattern can be used. It is read from left to right with a stack of open groups
and one of open brackets, which keep nothing but the heights of what is finished. Counts in
braces are not known. -/

namespace QueueRace.Pattern

/-! ### Heights -/

/-- The height of several things as one: a single thing is not wrapped. -/
def nest : List Nat → Nat
  | [] => 0
  | [height] => height
  | heights => heights.foldl max 0 + 1

structure Item where
  height : Nat
  /-- Whether it matches anything, so that it can be repeated. -/
  repeatable : Bool

structure Group where
  mode : Mode
  alternatives : List Nat
  /-- The items of the last alternative, the last one first. -/
  items : List Item

namespace Group

def start (mode : Mode) : Group := ⟨mode, [], []⟩

def add (g : Group) (i : Item) : Group := { g with items := i :: g.items }

def divide (g : Group) : Group :=
  { g with alternatives := nest (g.items.map Item.height) :: g.alternatives, items := [] }

def height (g : Group) : Nat := nest g.divide.alternatives

end Group

structure Bracket where
  /-- The height of what stands before the last operator, if there is one. -/
  left : List Nat
  members : List Nat
  /-- Whether there was nothing but dashes. -/
  fresh : Bool

namespace Bracket

def start : Bracket := ⟨[], [], true⟩

def add (b : Bracket) (height : Nat) : Bracket :=
  { b with members := height :: b.members, fresh := false }

def height (b : Bracket) : Nat := nest (nest b.members :: b.left)

/-- Takes what was read as the left side of an operator. -/
def operate (b : Bracket) : Bracket := ⟨[b.height], [], false⟩

end Bracket

/-! ### Reading -/

structure Reader where
  group : Group
  outer : List Group
  brackets : List Bracket
  names : List (List Char)
  /-- Whether the pattern looks for ends of words of all scripts. -/
  wordEnds : Bool

namespace Reader

def start : Reader := ⟨.start .start, [], [], [], false⟩

def mode (r : Reader) : Mode := r.group.mode

def add (r : Reader) (i : Item) : Reader := { r with group := r.group.add i }

def addAtom (r : Reader) (a : Atom) : Option Reader :=
  if r.mode.allows a then
    some { r.add ⟨0, true⟩ with
      wordEnds := r.wordEnds || (a = .position true && r.mode.unicode) }
  else none

/-! #### Groups -/

def openGroup (r : Reader) (mode : Mode) : Reader :=
  { r with group := .start mode, outer := r.group :: r.outer }

def closeGroup (r : Reader) : Option Reader :=
  match r.outer with
  | [] => none
  | g :: outer => some { r with group := g.add ⟨r.group.height + 1, true⟩, outer }

def isName : List Char → Bool
  | [] => false
  | c :: cs =>
    (c = '_' || Text.isAlphabetic c) &&
      cs.all fun c => "_.[]".toList.contains c || Text.isAlphanumeric c

/-- Reads a name up to its `>`. No two groups have one name. -/
def readName (r : Reader) (cs : List Char) : Option (Reader × List Char) :=
  let name := cs.takeWhile (· ≠ '>')
  match cs.drop name.length with
  | [] => none
  | _ :: rest =>
    if isName name && !r.names.contains name then
      some ({ r.openGroup r.mode with names := name :: r.names }, rest)
    else none

/-- Reads changes of the mode, for a group after `:` and else for the rest of this group. -/
def readChange (r : Reader) (cs : List Char) : Option (Reader × List Char) :=
  let letters := cs.takeWhile fun c => c ≠ ':' && c ≠ ')'
  if Mode.isChange letters then
    let mode := r.mode.change letters
    match cs.drop letters.length with
    | ':' :: rest => some (r.openGroup mode, rest)
    | ')' :: rest =>
      if letters.isEmpty then none
      else some ({ r with group := { r.group.add ⟨0, false⟩ with mode } }, rest)
    | _ => none
  else none

def readGroup (r : Reader) (cs : List Char) : Option (Reader × List Char) :=
  match r.mode.skip cs with
  | '?' :: 'P' :: '<' :: rest => r.readName rest
  | '?' :: '<' :: rest => r.readName rest
  | '?' :: rest => r.readChange rest
  | rest => some (r.openGroup r.mode, rest)

/-- Repeats the last item; another `?` belongs to the repetition. -/
def repeatLast (r : Reader) (cs : List Char) : Option (Reader × List Char) :=
  match r.group.items with
  | [] => none
  | i :: items =>
    let rest := match cs with
      | '?' :: rest => rest
      | rest => rest
    let items := ⟨i.height + 1, true⟩ :: items
    if i.repeatable then some ({ r with group := { r.group with items } }, rest) else none

/-! #### Brackets -/

def openBracket (r : Reader) (cs : List Char) : Option (Reader × List Char) :=
  let opened := { r with brackets := .start :: r.brackets }
  match r.mode.skip cs with
  | '^' :: rest => if r.mode.unicode then some (opened, rest) else none
  | rest => some (opened, rest)

def closeBracket (r : Reader) (b : Bracket) : List Bracket → Reader
  | [] => { r with brackets := [] }.add ⟨b.height + 1, true⟩
  | outer :: rest => { r with brackets := outer.add (b.height + 1) :: rest }

def stepBracket (r : Reader) (b : Bracket) (outer : List Bracket) (c : Char) (cs : List Char) :
    Option (Reader × List Char) :=
  let put (b : Bracket) : Reader := { r with brackets := b :: outer }
  if b.fresh && (c = '-' || c = ']' && b.members.isEmpty) then
    if r.mode.allowsInBrackets (.literal c false) then
      some (put { b.add 0 with fresh := c = '-' }, cs)
    else none
  else
    match c, cs with
    | '[', cs =>
      match readClass? cs with
      | some (negated, rest) =>
        if r.mode.allowsClass negated then some (put (b.add 0), rest) else none
      | none => (put { b with fresh := false }).openBracket cs
    | ']', cs => some (r.closeBracket b outer, cs)
    | '&', '&' :: rest => some (put b.operate, rest)
    | '-', '-' :: rest => some (put b.operate, rest)
    | '~', '~' :: rest => some (put b.operate, rest)
    | c, cs => (readMembers r.mode (c :: cs)).map fun rest => (put (b.add 0), rest)

/-! #### Whole patterns -/

def stepPlain (r : Reader) (c : Char) (cs : List Char) : Option (Reader × List Char) :=
  match c with
  | '(' => r.readGroup cs
  | ')' => r.closeGroup.map fun r => (r, cs)
  | '|' => some ({ r with group := r.group.divide }, cs)
  | '[' => r.openBracket cs
  | '?' => r.repeatLast cs
  | '*' => r.repeatLast cs
  | '+' => r.repeatLast cs
  | '\x7b' => none
  | '.' => (r.addAtom .any).map fun r => (r, cs)
  | '^' => (r.addAtom (.position false)).map fun r => (r, cs)
  | '$' => (r.addAtom (.position false)).map fun r => (r, cs)
  | '\\' =>
    match readEscape r.mode cs with
    | none => none
    | some (a, rest) => (r.addAtom a).map fun r => (r, rest)
  | c => (r.addAtom (.literal c false)).map fun r => (r, cs)

def step (r : Reader) (c : Char) (cs : List Char) : Option (Reader × List Char) :=
  match r.brackets with
  | [] => r.stepPlain c cs
  | b :: outer => r.stepBracket b outer c cs

/-- Reads a text in fewer than `n` steps, up to its end. -/
def readAll : Nat → Reader → List Char → Option Reader
  | 0, _, _ => none
  | n + 1, r, cs =>
    match r.mode.skip cs with
    | [] => if r.brackets.isEmpty && r.outer.isEmpty then some r else none
    | c :: cs =>
      match r.step c cs with
      | none => none
      | some (r, cs) => readAll n r cs

end Reader

def maxHeight : Nat := 250

/-- What is wrong with a pattern. Each step reads a character, so there are enough steps. -/
def fault? (cs : List Char) : Option Fault :=
  match Reader.readAll (cs.length + 1) .start cs with
  | none => some .malformed
  | some r =>
    if maxHeight < r.group.height then some .malformed
    else if r.wordEnds then some .wordEnd
    else none

end QueueRace.Pattern
