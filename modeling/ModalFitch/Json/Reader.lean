import ModalFitch.Json.Basic

/-! JSON text read as a value, with the place of the first fault.

A reader takes the position of a text and the text from there on, and gives a value with the
position and the text after it. Of two fields with one name the later value counts. The numbers
`NaN`, `Infinity` and `-Infinity` are read too. -/

namespace ModalFitch.Json
set_option autoImplicit false

/-- What is wrong at a place of a JSON text. -/
inductive Fault where
  | expectedValue
  | extraData
  | expectedName
  | expectedComma
  | expectedColon
  | controlCharacter
  | unterminated
  | badEscape
  | badCodePoint
  | byteOrderMark
deriving DecidableEq, Repr

def Fault.text : Fault → String
  | .expectedValue => "Expecting value"
  | .extraData => "Extra data"
  | .expectedName => "Expecting property name enclosed in double quotes"
  | .expectedComma => "Expecting ',' delimiter"
  | .expectedColon => "Expecting ':' delimiter"
  | .controlCharacter => "Invalid control character at"
  | .unterminated => "Unterminated string starting at"
  | .badEscape => "Invalid \\escape"
  | .badCodePoint => "Invalid \\uXXXX escape"
  | .byteOrderMark => "Unexpected UTF-8 BOM (decode using utf-8-sig)"

/-- What may hold other values. -/
inductive Container where
  | list
  | object
deriving DecidableEq, Repr

def Container.name : Container → String
  | .list => "array"
  | .object => "object"

/-- The message on a container that stands too deep inside others. -/
def Container.depthMessage (c : Container) : String :=
  s!"maximum recursion depth exceeded while decoding a JSON {c.name} from a unicode string"

inductive ReadError where
  /-- A fault at a position, counted in characters. -/
  | fault (f : Fault) (position : Nat)
  /-- A whole number with too many digits. -/
  | numeral (e : Text.NumeralError)
  /-- A list or an object inside more than `maxDepth` others. -/
  | tooDeep (c : Container)
deriving DecidableEq, Repr

/-- The message names the line and the column of the fault in the text, both from one. -/
def ReadError.message (text : List Char) : ReadError → String
  | .fault f position =>
    let before := text.take position
    let line := before.count '\n' + 1
    let column := (before.reverse.takeWhile (· ≠ '\n')).length + 1
    s!"{f.text}: line {line} column {column} (char {position})"
  | .numeral e => e.message
  | .tooDeep c => c.depthMessage

/-- A value with the position and the text after it. -/
abbrev Read (α : Type) : Type := Except ReadError (α × Nat × List Char)

def isSpace (c : Char) : Bool := c = ' ' || c = '\t' || c = '\n' || c = '\r'

/-- The position and the text after the blanks. -/
def skipSpace (pos : Nat) : List Char → Nat × List Char
  | [] => (pos, [])
  | c :: cs => if isSpace c then skipSpace (pos + 1) cs else (pos, c :: cs)

/-! ## Texts -/

def hexValue? (c : Char) : Option Nat :=
  if '0' ≤ c ∧ c ≤ '9' then some (c.toNat - 48)
  else if 'a' ≤ c ∧ c ≤ 'f' then some (c.toNat - 87)
  else if 'A' ≤ c ∧ c ≤ 'F' then some (c.toNat - 55)
  else none

/-- The number that four hexadecimal digits write. -/
def codeUnit? (a b c d : Char) : Option Nat := do
  let a ← hexValue? a
  let b ← hexValue? b
  let c ← hexValue? c
  let d ← hexValue? d
  return ((a * 16 + b) * 16 + c) * 16 + d

def isHighHalf (n : Nat) : Bool := 0xD800 ≤ n && n < 0xDC00
def isLowHalf (n : Nat) : Bool := 0xDC00 ≤ n && n < 0xE000

/-- The character that a letter stands for after a backslash. -/
def escaped? (c : Char) : Option Char :=
  if c = Text.doubleQuote ∨ c = '\\' ∨ c = '/' then some c
  else if c = 'b' then some (Char.ofNat 8)
  else if c = 'f' then some (Char.ofNat 12)
  else if c = 'n' then some '\n'
  else if c = 'r' then some '\r'
  else if c = 't' then some '\t'
  else none

/-- The rest of a text whose opening quote stands at `start`, with the code points read so far in
reverse. A code point by its number needs its four digits and one more character; two halves of a
pair are one character. -/
def textFrom (start pos : Nat) (done : Text) : List Char → Read Text
  | [] => .error (.fault .unterminated start)
  | '\\' :: [] => .error (.fault .unterminated start)
  | '\\' :: 'u' :: a :: b :: c :: d :: '\\' :: 'u' :: e :: f :: g :: h :: next :: cs =>
    match codeUnit? a b c d with
    | none => .error (.fault .badCodePoint (pos + 1))
    | some high =>
      if isHighHalf high then
        match codeUnit? e f g h with
        | none => .error (.fault .badCodePoint (pos + 7))
        | some low =>
          if isLowHalf low then
            let n := 0x10000 + (high - 0xD800) * 0x400 + (low - 0xDC00)
            textFrom start (pos + 12) (.ofNat n :: done) (next :: cs)
          else
            textFrom start (pos + 6) (.ofNat high :: done)
              ('\\' :: 'u' :: e :: f :: g :: h :: next :: cs)
      else
        textFrom start (pos + 6) (.ofNat high :: done)
          ('\\' :: 'u' :: e :: f :: g :: h :: next :: cs)
  | '\\' :: 'u' :: a :: b :: c :: d :: next :: cs =>
    match codeUnit? a b c d with
    | none => .error (.fault .badCodePoint (pos + 1))
    | some n => textFrom start (pos + 6) (.ofNat n :: done) (next :: cs)
  | '\\' :: 'u' :: _ => .error (.fault .badCodePoint (pos + 1))
  | '\\' :: c :: cs =>
    match escaped? c with
    | none => .error (.fault .badEscape pos)
    | some c => textFrom start (pos + 2) (.char c :: done) cs
  | c :: cs =>
    if c = Text.doubleQuote then .ok (done.reverse, pos + 1, cs)
    else if c.toNat < 0x20 then .error (.fault .controlCharacter pos)
    else textFrom start (pos + 1) (.char c :: done) cs

/-! ## Numbers -/

def isAsciiDigit (c : Char) : Bool := '0' ≤ c && c ≤ '9'

/-- The digits of the whole part: one zero, or digits that start with another. -/
def wholePart : List Char → Option (List Char × List Char)
  | [] => none
  | c :: cs =>
    if c = '0' then some ([c], cs)
    else if isAsciiDigit c then some (c :: cs.takeWhile isAsciiDigit, cs.dropWhile isAsciiDigit)
    else none

/-- The digits behind a decimal point, if there are any. -/
def fraction : List Char → Option (List Char × List Char)
  | '.' :: c :: cs =>
    if isAsciiDigit c then some (c :: cs.takeWhile isAsciiDigit, cs.dropWhile isAsciiDigit) else none
  | _ => none

/-- The sign and the digits of a power of ten, if there are any digits. -/
def power : List Char → Option (Bool × List Char × List Char)
  | e :: cs =>
    if e = 'e' ∨ e = 'E' then
      let (negative, ds) := match cs with
        | '-' :: ds => (true, ds)
        | '+' :: ds => (false, ds)
        | ds => (false, ds)
      match ds.takeWhile isAsciiDigit with
      | [] => none
      | digits => some (negative, digits, ds.dropWhile isAsciiDigit)
    else none
  | [] => none

/-- A number: a whole one, or a double where there is a fraction or a power of ten. -/
def number (start : Nat) (text : List Char) : Read Json :=
  let (negative, cs) := match text with
    | '-' :: cs => (true, cs)
    | cs => (false, cs)
  match wholePart cs with
  | none => .error (.fault .expectedValue start)
  | some (whole, cs) =>
    let (places, afterPlaces) := (fraction cs).getD ([], cs)
    let (negativePower, exponent, rest) := (power afterPlaces).getD (false, [], afterPlaces)
    let after := start + (text.length - rest.length)
    if places.isEmpty && exponent.isEmpty then
      match Text.natOfDigits whole with
      | .error e => .error (.numeral e)
      | .ok n => .ok (.int (if negative then -(n : Int) else n), after, rest)
    else
      let e : Int := Text.digitsValue exponent
      let e := (if negativePower then -e else e) - places.length
      .ok (.float (Binary64.ofDecimal negative (Text.digitsValue (whole ++ places)) e), after, rest)

/-! ## Values -/

mutual

/-- The value at a place. The first argument bounds the number of steps, and the second one the
lists and objects inside one another. -/
def valueFrom : Nat → Nat → Nat → List Char → Read Json
  | 0, _, pos, _ => .error (.fault .expectedValue pos)
  | fuel + 1, depth, pos, cs =>
    match cs with
    | 'n' :: 'u' :: 'l' :: 'l' :: rest => .ok (.null, pos + 4, rest)
    | 't' :: 'r' :: 'u' :: 'e' :: rest => .ok (.bool true, pos + 4, rest)
    | 'f' :: 'a' :: 'l' :: 's' :: 'e' :: rest => .ok (.bool false, pos + 5, rest)
    | 'N' :: 'a' :: 'N' :: rest => .ok (.float .nan, pos + 3, rest)
    | 'I' :: 'n' :: 'f' :: 'i' :: 'n' :: 'i' :: 't' :: 'y' :: rest =>
      .ok (.float (.infinite false), pos + 8, rest)
    | '-' :: 'I' :: 'n' :: 'f' :: 'i' :: 'n' :: 'i' :: 't' :: 'y' :: rest =>
      .ok (.float (.infinite true), pos + 9, rest)
    | '[' :: rest =>
      match depth with
      | 0 => .error (.tooDeep .list)
      | depth + 1 =>
        match skipSpace (pos + 1) rest with
        | (pos, ']' :: rest) => .ok (.arr [], pos + 1, rest)
        | (pos, rest) => itemsFrom fuel depth pos [] rest
    | '\x7b' :: rest =>
      match depth with
      | 0 => .error (.tooDeep .object)
      | depth + 1 =>
        match skipSpace (pos + 1) rest with
        | (pos, '\x7d' :: rest) => .ok (.obj [], pos + 1, rest)
        | (pos, rest) => fieldsFrom fuel depth pos [] rest
    | '\x22' :: rest =>
      match textFrom pos (pos + 1) [] rest with
      | .error e => .error e
      | .ok (s, pos, rest) => .ok (.str s, pos, rest)
    | cs => number pos cs

/-- The items of a list from one of them on, with the earlier ones in reverse. -/
def itemsFrom : Nat → Nat → Nat → List Json → List Char → Read Json
  | 0, _, pos, _, _ => .error (.fault .expectedValue pos)
  | fuel + 1, depth, pos, done, cs =>
    match valueFrom fuel depth pos cs with
    | .error e => .error e
    | .ok (v, pos, cs) =>
      match skipSpace pos cs with
      | (pos, ']' :: rest) => .ok (.arr (v :: done).reverse, pos + 1, rest)
      | (pos, ',' :: rest) =>
        let (pos, rest) := skipSpace (pos + 1) rest
        itemsFrom fuel depth pos (v :: done) rest
      | (pos, _) => .error (.fault .expectedComma pos)

/-- The fields of an object from one of them on, after the earlier ones. -/
def fieldsFrom : Nat → Nat → Nat → List (Text × Json) → List Char → Read Json
  | 0, _, pos, _, _ => .error (.fault .expectedName pos)
  | fuel + 1, depth, pos, done, cs =>
    match cs with
    | '\x22' :: cs =>
      match textFrom pos (pos + 1) [] cs with
      | .error e => .error e
      | .ok (name, pos, cs) =>
        match skipSpace pos cs with
        | (pos, ':' :: cs) =>
          let (pos, cs) := skipSpace (pos + 1) cs
          match valueFrom fuel depth pos cs with
          | .error e => .error e
          | .ok (v, pos, cs) =>
            match skipSpace pos cs with
            | (pos, '\x7d' :: rest) => .ok (.obj (setField name v done), pos + 1, rest)
            | (pos, ',' :: rest) =>
              let (pos, rest) := skipSpace (pos + 1) rest
              fieldsFrom fuel depth pos (setField name v done) rest
            | (pos, _) => .error (.fault .expectedComma pos)
        | (pos, _) => .error (.fault .expectedColon pos)
    | _ => .error (.fault .expectedName pos)

end

/-- The most lists and objects inside one another. -/
def maxDepth : Nat := 988

/-- The value that a whole text writes. Every step reads a character or goes into one more list or
object, so the bound on the steps is never met. -/
def read (text : List Char) : Except ReadError Json :=
  match text with
  | '\ufeff' :: _ => .error (.fault .byteOrderMark 0)
  | _ =>
    let (pos, cs) := skipSpace 0 text
    match valueFrom (2 * text.length + 2) maxDepth pos cs with
    | .error e => .error e
    | .ok (v, pos, cs) =>
      match skipSpace pos cs with
      | (_, []) => .ok v
      | (pos, _) => .error (.fault .extraData pos)

end ModalFitch.Json
