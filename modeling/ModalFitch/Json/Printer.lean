import ModalFitch.Json.Basic

/-! JSON values written as text: on one line, or with two blanks of indentation a level. Characters
outside ASCII and halves of surrogate pairs are left as they are. -/

namespace ModalFitch.Json
set_option autoImplicit false

/-- A code point by its number. -/
def writtenNumber (n : Nat) : Text := Text.ofChars ('\\' :: 'u' :: Text.hexDigits 4 n)

/-- A character behind a backslash. -/
def writtenEscape (c : Char) : Text := Text.ofChars ['\\', c]

/-- The written form of one code point of a text. -/
def writtenPoint : CodePoint → Text
  | .char c =>
    if c = Text.doubleQuote ∨ c = '\\' then writtenEscape c
    else if c = '\n' then writtenEscape 'n'
    else if c = '\r' then writtenEscape 'r'
    else if c = '\t' then writtenEscape 't'
    else if c.toNat = 8 then writtenEscape 'b'
    else if c.toNat = 12 then writtenEscape 'f'
    else if c.toNat < 0x20 then writtenNumber c.toNat
    else [.char c]
  | p => [p]

def writtenText (t : Text) : Text :=
  .char Text.doubleQuote :: t.flatMap writtenPoint ++ [.char Text.doubleQuote]

/-- A value without parts: all but lists and objects that are not empty. -/
def atomText : Json → Text
  | .null => "null"
  | .bool b => if b then "true" else "false"
  | .int i => toString i
  | .float x => x.text
  | .str s => writtenText s
  | .arr _ => "[]"
  | .obj _ => "\x7b\x7d"

mutual

/-- A value on one line, without blanks between its parts. -/
def compact : Json → Text
  | .arr (v :: rest) => "[" ++ v.compact ++ compactItems rest ++ "]"
  | .obj ((key, v) :: rest) =>
    "\x7b" ++ writtenText key ++ ":" ++ v.compact ++ compactFields rest ++ "\x7d"
  | v => v.atomText

/-- The items after the first, each behind a comma. -/
def compactItems : List Json → Text
  | [] => []
  | v :: rest => "," ++ v.compact ++ compactItems rest

/-- The fields after the first, each behind a comma. -/
def compactFields : List (Text × Json) → Text
  | [] => []
  | (key, v) :: rest => "," ++ writtenText key ++ ":" ++ v.compact ++ compactFields rest

end

/-- A line end, and the indentation of a level. -/
def newLine (level : Nat) : Text := Text.ofChars ('\n' :: List.replicate (2 * level) ' ')

mutual

/-- A value over several lines, its parts one level deeper; empty lists and objects stay on one
line. -/
def indented (level : Nat) : Json → Text
  | .arr (v :: rest) =>
    "[" ++ newLine (level + 1) ++ indented (level + 1) v ++ indentedItems (level + 1) rest ++
      newLine level ++ "]"
  | .obj ((key, v) :: rest) =>
    "\x7b" ++ newLine (level + 1) ++ writtenText key ++ ": " ++ indented (level + 1) v ++
      indentedFields (level + 1) rest ++ newLine level ++ "\x7d"
  | v => v.atomText

/-- The items after the first, each behind a comma. -/
def indentedItems (level : Nat) : List Json → Text
  | [] => []
  | v :: rest => "," ++ newLine level ++ indented level v ++ indentedItems level rest

/-- The fields after the first, each behind a comma. -/
def indentedFields (level : Nat) : List (Text × Json) → Text
  | [] => []
  | (key, v) :: rest =>
    "," ++ newLine level ++ writtenText key ++ ": " ++ indented level v ++ indentedFields level rest

end

end ModalFitch.Json
