import ModalFitch.Text.CodePoint
import ModalFitch.Text.Printable

/-! Quoted text, as messages show it.

A text stands between single quotes, or between double quotes when it holds a single quote and no
double one. Inside, the quote in use and the backslash are escaped, the line end, the carriage
return and the tabulator have letters of their own, and every other code point without a printed
form is given by its number in two, four or eight hexadecimal digits. -/

namespace ModalFitch.Text
set_option autoImplicit false

def singleQuote : Char := '\x27'
def doubleQuote : Char := '\x22'

/-- Lower-case hexadecimal digits, filled up with zeros to a width. -/
def hexDigits (width n : Nat) : List Char :=
  let ds := Nat.toDigits 16 n
  List.replicate (width - ds.length) '0' ++ ds

/-- The number of a code point, in the fewest of two, four and eight digits that hold it. -/
def numbered (n : Nat) : List Char :=
  if n < 0x100 then '\\' :: 'x' :: hexDigits 2 n
  else if n < 0x10000 then '\\' :: 'u' :: hexDigits 4 n
  else '\\' :: 'U' :: hexDigits 8 n

/-- The written form of one code point between quotes `q`. -/
def escape (q : Char) : CodePoint → List Char
  | .char c =>
    if c = q ∨ c = '\\' then ['\\', c]
    else if c = '\n' then ['\\', 'n']
    else if c = '\r' then ['\\', 'r']
    else if c = '\t' then ['\\', 't']
    else if isPrintable c then [c]
    else numbered c.toNat
  | p => numbered p.toNat

/-- The quote that a text is put between. -/
def quoteFor (t : Text) : Char :=
  if t.contains (.char singleQuote) && !t.contains (.char doubleQuote) then doubleQuote
  else singleQuote

def quotedChars (t : Text) : List Char :=
  let q := quoteFor t
  q :: t.flatMap (escape q) ++ [q]

def quoted (t : Text) : String := String.ofList (quotedChars t)

end ModalFitch.Text
