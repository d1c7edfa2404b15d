/-! Decimal numerals: those for machine words, read from left to right, and those with a
fraction or an exponent, of which only is of interest that they are some. -/

namespace QueueRace

inductive NumeralError where
  | empty
  | invalidDigit
  | tooLarge
  deriving DecidableEq, Repr

namespace NumeralError

def message : NumeralError → String
  | .empty => "cannot parse integer from empty string"
  | .invalidDigit => "invalid digit found in string"
  | .tooLarge => "number too large to fit in target type"

end NumeralError

namespace Numeral

/-- Reads the digits that follow those of `n`. The first failure counts; a character
that is no digit is one even where a digit would be too much. -/
def readDigits (n : Nat) : List Char → Except NumeralError Nat
  | [] => .ok n
  | c :: cs =>
    if c.isDigit then
      let m := n * 10 + (c.toNat - 48)
      if m < UInt64.size then readDigits m cs else .error .tooLarge
    else .error .invalidDigit

def read (cs : List Char) : Except NumeralError UInt64 :=
  match cs with
  | [] => .error .empty
  | ['+'] => .error .invalidDigit
  | '+' :: digits => (readDigits 0 digits).map Nat.toUInt64
  | digits => (readDigits 0 digits).map Nat.toUInt64

def dropSign : List Char → List Char
  | '+' :: cs => cs
  | '-' :: cs => cs
  | cs => cs

/-- Whether a text is nothing or an exponent. -/
def isExponent : List Char → Bool
  | [] => true
  | c :: cs =>
    let digits := dropSign cs
    (c = 'e' || c = 'E') && !digits.isEmpty && digits.all Char.isDigit

/-- Whether a text is a number, with digits before or after the point if there is one, or a
name for what is no finite number. -/
def isDecimal (cs : List Char) : Bool :=
  let cs := dropSign cs
  let whole := cs.takeWhile Char.isDigit
  let (fraction, rest) := match cs.drop whole.length with
    | '.' :: rest => (rest.takeWhile Char.isDigit, rest.dropWhile Char.isDigit)
    | rest => ([], rest)
  ["inf", "infinity", "nan"].contains (String.ofList cs).toLower ||
    !(whole.isEmpty && fraction.isEmpty) && isExponent rest

end Numeral

end QueueRace
