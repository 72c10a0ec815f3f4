import ModalFitch.Text.CodePoint

/-! Blank characters, and text without the blanks around it.

* `isBlank`: the characters that separate words: the ASCII blanks with the four information
  separators, the next-line and no-break blanks, and the blanks of the other scripts.
* `trim`: a text without its leading and trailing blanks. -/

namespace ModalFitch.Text
set_option autoImplicit false

/-- Zero-width characters and the byte-order mark are not blanks. -/
def isBlank (c : Char) : Bool :=
  let n := c.toNat
  (9 ≤ n && n ≤ 13) || (28 ≤ n && n ≤ 32) || n == 0x85 || n == 0xA0 || n == 0x1680 ||
    (0x2000 ≤ n && n ≤ 0x200A) || n == 0x2028 || n == 0x2029 || n == 0x202F || n == 0x205F ||
    n == 0x3000

/-- The text without the characters of a class at its two ends. -/
def trimWith (drop : Char → Bool) (t : Text) : Text :=
  ((t.dropWhile (·.is drop)).reverse.dropWhile (·.is drop)).reverse

def trim (t : Text) : Text := trimWith isBlank t

/-- The text without one line end at its end. -/
def dropLineEnd (t : Text) : Text := if t.getLast? = some (.char '\n') then t.dropLast else t

end ModalFitch.Text
