import ModalFitch.Text.Blank
import ModalFitch.Text.Digit
import ModalFitch.Text.Quoted

/-! Whole numbers in text.

* `natOfDigits`: the value of a run of digits; a run of more than `maxDigits` digits is refused.
* `intOfText`: the reading of a number with a sign, single underscores between digits and blanks
  around it.
* `textOfInt`: the written form, refused beyond `maxDigits` digits as well. -/

namespace ModalFitch.Text
set_option autoImplicit false

/-- The longest run of digits that is read or written. -/
def maxDigits : Nat := 4300

inductive NumeralError where
  /-- A run of digits longer than `maxDigits`. -/
  | tooLong (digits : Nat)
  /-- A number whose written form would be longer than `maxDigits`. -/
  | unwritable
  /-- A text that is no number. -/
  | malformed (text : Text)
deriving DecidableEq, Repr

namespace NumeralError

/-- Only the first `shownChars` characters of a malformed text's quoted form are shown. -/
def shownChars : Nat := 200

def message : NumeralError → String
  | .tooLong digits =>
    s!"Exceeds the limit ({maxDigits} digits) for integer string conversion: value has {digits} digits; use sys.set_int_max_str_digits() to increase the limit"
  | .unwritable =>
    s!"Exceeds the limit ({maxDigits} digits) for integer string conversion; use sys.set_int_max_str_digits() to increase the limit"
  | .malformed text =>
    "invalid literal for int() with base 10: " ++
      String.ofList ((quotedChars text).take shownChars)

end NumeralError

/-- The value of a run of digits. -/
def natOfDigits (cs : List Char) : Except NumeralError Nat :=
  if cs.length ≤ maxDigits then .ok (digitsValue cs) else .error (.tooLong cs.length)

/-- The blanks allowed around a number: all but the four information separators. -/
def isNumeralBlank (c : Char) : Bool :=
  isBlank c && !(28 ≤ c.toNat && c.toNat ≤ 31)

/-- What continues a run of digits: further digits, and single underscores with a digit after
them. Gives the digits and the text after the run, and nothing where an underscore lacks its
digit. -/
def digitRunTail : Text → Option (List Char × Text)
  | .char '_' :: .char d :: t =>
    if isDigit d then (digitRunTail t).map fun (ds, rest) => (d :: ds, rest) else none
  | .char c :: t =>
    if isDigit c then (digitRunTail t).map fun (ds, rest) => (c :: ds, rest)
    else if c = '_' then none
    else some ([], .char c :: t)
  | t => some ([], t)

/-- The digits at the front of a text, and the text after them. -/
def digitRun : Text → Option (List Char × Text)
  | .char c :: t =>
    if isDigit c then (digitRunTail t).map fun (ds, rest) => (c :: ds, rest) else none
  | _ => none

/-- The sign in front of a number, and the text after it. -/
def signed : Text → Bool × Text
  | .char '-' :: t => (true, t)
  | .char '+' :: t => (false, t)
  | t => (false, t)

/-- A number in a text. The length of the run of digits is judged before what follows it. -/
def intOfText (text : Text) : Except NumeralError Int := do
  let (negative, unsigned) := signed (trimWith isNumeralBlank text)
  match digitRun unsigned with
  | none => .error (.malformed text)
  | some (ds, rest) =>
    let n ← natOfDigits ds
    if rest.isEmpty then .ok (if negative then -(n : Int) else n) else .error (.malformed text)

/-- The written form of a whole number. -/
def textOfInt (i : Int) : Except NumeralError String :=
  let s := toString i.natAbs
  if s.length ≤ maxDigits then .ok (if i < 0 then "-" ++ s else s) else .error .unwritable

end ModalFitch.Text
