/-! Texts laid out in columns, which are counted in characters. -/

namespace ModalFitch.Text
set_option autoImplicit false

/-- The blanks that fill a column up, by its width and the length of what stands in it. -/
def filler (width length : Nat) : String := String.ofList (List.replicate (width - length) ' ')

def padRight (width : Nat) (s : String) : String := s ++ filler width s.length

def padLeft (width : Nat) (s : String) : String := filler width s.length ++ s

/-- A text many times over. -/
def repeated (count : Nat) (s : String) : String := String.join (List.replicate count s)

/-- Why a text cannot be had many times over. -/
inductive RepeatError where
  /-- The count is no signed number of 64 bits. -/
  | count
  /-- The length of the whole is none. -/
  | length
  /-- There is no room for the whole. -/
  | room
deriving DecidableEq, Repr

def RepeatError.message : RepeatError → String
  | .count => "cannot fit 'int' into an index-sized integer"
  | .length => "repeated string is too long"
  | .room => ""

/-- The longest text for which there is room, in characters. -/
def maxLength : Nat := Nat.pow 2 40

/-- Whether a text of some length can be had many times over; a negative count gives nothing. -/
def checkRepeat (count : Int) (length : Nat) : Except RepeatError Unit :=
  if count < -(Nat.pow 2 63) ∨ Nat.pow 2 63 ≤ count then .error .count
  else if Nat.pow 2 63 ≤ count.toNat * length then .error .length
  else if maxLength < count.toNat * length then .error .room
  else .ok ()

end ModalFitch.Text
