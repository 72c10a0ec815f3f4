import ModalFitch.Binary64
import ModalFitch.Text.Numeral

/-! JSON values. Proof documents hold values of any shape, and messages show them.

* `Json`: the values; an object keeps its fields in the order of their first occurrence.
* `Json.isTrue`: null, false, zero and the empty text, list and object count as false.
* `Json.shown` and `Json.asText`: the form that messages show, and the same with a text left
  unquoted. Both fail on a whole number that is too long to be written.
* `Json.asInt`: the whole number that a value stands for. -/

namespace ModalFitch
set_option autoImplicit false

inductive Json where
  | null
  | bool (b : Bool)
  | int (i : Int)
  | float (x : Binary64)
  | str (s : Text)
  | arr (items : List Json)
  | obj (fields : List (Text × Json))
deriving Repr

namespace Json

/-- The value of a field. -/
def lookup (name : Text) : List (Text × Json) → Option Json
  | [] => none
  | (key, value) :: rest => if key = name then some value else lookup name rest

/-- Sets a field: in its old place if there is one, else at the end. -/
def setField (name : Text) (value : Json) : List (Text × Json) → List (Text × Json)
  | [] => [(name, value)]
  | (key, old) :: rest =>
    if key = name then (key, value) :: rest else (key, old) :: setField name value rest

/-- The value of an object's field. -/
def get? (name : Text) : Json → Option Json
  | .obj fields => lookup name fields
  | _ => none

def isTrue : Json → Bool
  | .null => false
  | .bool b => b
  | .int i => i != 0
  | .float x => !x.isZero
  | .str s => !s.isEmpty
  | .arr items => !items.isEmpty
  | .obj fields => !fields.isEmpty

mutual

/-- The form in which messages show a value. -/
def shown : Json → Except Text.NumeralError String
  | .null => .ok "None"
  | .bool b => .ok (if b then "True" else "False")
  | .int i => Text.textOfInt i
  | .float x => .ok x.text
  | .str s => .ok (Text.quoted s)
  | .arr items => do
    let parts ← shownItems items
    return "[" ++ ", ".intercalate parts ++ "]"
  | .obj fields => do
    let parts ← shownFields fields
    return "\x7b" ++ ", ".intercalate parts ++ "\x7d"

def shownItems : List Json → Except Text.NumeralError (List String)
  | [] => .ok []
  | v :: rest => do
    let part ← v.shown
    let parts ← shownItems rest
    return part :: parts

def shownFields : List (Text × Json) → Except Text.NumeralError (List String)
  | [] => .ok []
  | (key, v) :: rest => do
    let part ← v.shown
    let parts ← shownFields rest
    return (Text.quoted key ++ ": " ++ part) :: parts

end

/-- A text as it is, and the shown form of all else. -/
def asText : Json → Except Text.NumeralError Text
  | .str s => .ok s
  | v => v.shown.map Text.ofString

/-- Why a value stands for no whole number. -/
inductive IntError where
  /-- A text that is no number. -/
  | numeral (e : Text.NumeralError)
  /-- The double that is no number. -/
  | nan
  /-- A double without bound. -/
  | infinite
  /-- A value of another shape. -/
  | shape
deriving DecidableEq, Repr

def IntError.message : IntError → String
  | .numeral e => e.message
  | .nan => "cannot convert float NaN to integer"
  | .infinite => "cannot convert float infinity to integer"
  | .shape => "A number is expected here"

/-- Doubles are cut towards zero, and the truth values are one and zero. -/
def asInt : Json → Except IntError Int
  | .bool b => .ok (if b then 1 else 0)
  | .int i => .ok i
  | .float (.finite negative m e) => .ok (Binary64.truncate negative m e)
  | .float .nan => .error .nan
  | .float (.infinite _) => .error .infinite
  | .str s => (Text.intOfText s).mapError .numeral
  | .null | .arr _ | .obj _ => .error .shape

end Json

end ModalFitch
