import QueueRace.Log.Directive

/-! Which notices are shown. A filter is a list of directives; of those that are about a
notice the strongest one counts, and what no directive is about is not shown. -/

namespace QueueRace

abbrev Filter := List Directive

/-- A text in a list of directives that is none. -/
structure Rejection where
  text : String
  why : DirectiveError
  deriving DecidableEq, Repr

namespace Rejection

def message (r : Rejection) : String := "ignoring `" ++ r.text ++ "`: " ++ r.why.message

end Rejection

namespace Filter

/-- Reads texts one by one, and keeps those apart that are no directives. -/
def readAll : List String → Filter × List Rejection
  | [] => ([], [])
  | text :: texts =>
    let (filter, rejections) := readAll texts
    match Directive.read text with
    | .ok d => (d :: filter, rejections)
    | .error why => (filter, ⟨text, why⟩ :: rejections)

/-- Reads directives with commas between them. Where there are none, everything is shown
that is at least as important as `info`. -/
def read (s : String) : Filter × List Rejection :=
  match readAll ((s.splitOn ",").filter (· ≠ "")) with
  | ([], rejections) => ([.ofVerbosity Level.info.verbosity], rejections)
  | (filter, rejections) => (filter, rejections)

def shows (f : Filter) (n : Notice) : Bool :=
  match f.filter (·.covers n) with
  | [] => false
  | d :: ds => n.level.verbosity ≤ (ds.foldl Directive.stronger d).verbosity

end Filter

end QueueRace
