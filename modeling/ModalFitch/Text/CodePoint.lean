/-! Texts as sequences of code points.

A code point is a character, or one half of a surrogate pair that stands without its other half.
JSON can name such a half by its number, so the texts of a document may hold halves. A half belongs
to no class of characters and cannot be written as it is.

* `Text`: a list of code points; every `String` is one.
* `Text.chars`: the characters of a text, the halves left out. -/

namespace ModalFitch
set_option autoImplicit false

inductive CodePoint where
  | char (c : Char)
  /-- The half with this offset among the halves. -/
  | half (offset : Fin 0x800)
deriving DecidableEq, Repr

/-- The texts of documents. -/
abbrev Text : Type := List CodePoint

namespace CodePoint

/-- The number of the first half. -/
def firstHalf : Nat := 0xD800

def toNat : CodePoint → Nat
  | .char c => c.toNat
  | .half offset => firstHalf + offset

/-- The code point of a number below `0x110000`. -/
def ofNat (n : Nat) : CodePoint :=
  if h : firstHalf ≤ n ∧ n - firstHalf < 0x800 then .half ⟨n - firstHalf, h.2⟩
  else .char (Char.ofNat n)

def char? : CodePoint → Option Char
  | .char c => some c
  | .half _ => none

/-- Whether a code point is a character of a class. -/
def is (charClass : Char → Bool) : CodePoint → Bool
  | .char c => charClass c
  | .half _ => false

def isHalf : CodePoint → Bool
  | .char _ => false
  | .half _ => true

end CodePoint

namespace Text

def ofChars (cs : List Char) : Text := cs.map .char

def ofString (s : String) : Text := ofChars s.toList

instance : Coe String Text := ⟨ofString⟩

def chars (t : Text) : List Char := t.filterMap CodePoint.char?

/-- The characters of a class at the front of a text. -/
def leading (charClass : Char → Bool) (t : Text) : List Char := chars (t.takeWhile (·.is charClass))

@[simp] theorem chars_ofChars (cs : List Char) : chars (ofChars cs) = cs := by
  induction cs with
  | nil => rfl
  | cons c cs ih => simpa [chars, ofChars, CodePoint.char?] using ih

end Text

end ModalFitch
