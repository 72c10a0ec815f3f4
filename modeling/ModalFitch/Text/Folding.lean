import ModalFitch.Text.Blank

/-! Comparison of labels without regard to case.

Labels are made of ASCII letters, digits and symbols without case. A character outside ASCII can
therefore only matter where its folded or its upper-case form is made of ASCII letters; the two
tables hold exactly these characters, and all others stand for themselves. The tables differ: the
dotless i has an upper-case form in ASCII and no folded one, the kelvin sign the reverse. -/

namespace ModalFitch.Text
set_option autoImplicit false

/-- The folded form of a character. -/
def foldChar (c : Char) : List Char :=
  if 'A' ≤ c ∧ c ≤ 'Z' then [c.toLower]
  else match c.toNat with
    | 0xDF | 0x1E9E => ['s', 's']
    | 0x17F => ['s']
    | 0x212A => ['k']
    | 0xFB00 => ['f', 'f']
    | 0xFB01 => ['f', 'i']
    | 0xFB02 => ['f', 'l']
    | 0xFB03 => ['f', 'f', 'i']
    | 0xFB04 => ['f', 'f', 'l']
    | 0xFB05 | 0xFB06 => ['s', 't']
    | _ => [c]

/-- The upper-case form of a character. -/
def upperChar (c : Char) : List Char :=
  if 'a' ≤ c ∧ c ≤ 'z' then [c.toUpper]
  else match c.toNat with
    | 0xDF => ['S', 'S']
    | 0x131 => ['I']
    | 0x17F => ['S']
    | 0xFB00 => ['F', 'F']
    | 0xFB01 => ['F', 'I']
    | 0xFB02 => ['F', 'L']
    | 0xFB03 => ['F', 'F', 'I']
    | 0xFB04 => ['F', 'F', 'L']
    | 0xFB05 | 0xFB06 => ['S', 'T']
    | _ => [c]

/-- A text with a form in place of each character. -/
def replaceChars (form : Char → List Char) (t : Text) : Text :=
  t.flatMap fun
    | .char c => ofChars (form c)
    | p => [p]

/-- Labels with equal folded forms are the same label; blanks around them do not count. -/
def folded (t : Text) : Text := replaceChars foldChar (trim t)

def uppered (t : Text) : Text := replaceChars upperChar t

end ModalFitch.Text
