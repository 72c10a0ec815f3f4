import ModalFitch.Text.Quoted

/-! Bytes read as UTF-8 text, with the place and the cause of the first fault, and the three ways
to end a line made one. A text that has halves of surrogate pairs cannot be written. -/

namespace ModalFitch.Text
set_option autoImplicit false

inductive Utf8Fault where
  /-- A byte that starts no character. -/
  | badStart
  /-- A character cut short by a byte that does not continue it. -/
  | badContinuation
  /-- A character cut short by the end of the text. -/
  | cutOff
deriving DecidableEq, Repr

/-- A fault, with the position and the bytes of the unfinished character. -/
structure Utf8Error where
  fault : Utf8Fault
  position : Nat
  bytes : List UInt8
deriving DecidableEq, Repr

namespace Utf8Error

def reason : Utf8Fault → String
  | .badStart => "invalid start byte"
  | .badContinuation => "invalid continuation byte"
  | .cutOff => "unexpected end of data"

def message (e : Utf8Error) : String :=
  let why := reason e.fault
  match e.bytes with
  | [b] =>
    let shown := String.ofList (hexDigits 2 b.toNat)
    s!"'utf-8' codec can't decode byte 0x{shown} in position {e.position}: {why}"
  | bs =>
    s!"'utf-8' codec can't decode bytes in position {e.position}-{e.position + bs.length - 1}: {why}"

end Utf8Error

def isContinuation (b : UInt8) : Bool := 0x80 ≤ b && b < 0xC0

/-- The second bytes that may follow a lead byte: no overlong form, no surrogate and nothing
beyond the last code point. -/
def isSecond (lead b : UInt8) : Bool :=
  isContinuation b &&
    !(lead == 0xE0 && b < 0xA0) && !(lead == 0xED && 0xA0 ≤ b) &&
    !(lead == 0xF0 && b < 0x90) && !(lead == 0xF4 && 0x90 ≤ b)

/-- The code point of a lead byte's bits followed by continuation bytes. -/
def assemble (lead : Nat) (bs : List UInt8) : Char :=
  Char.ofNat (bs.foldl (fun n b => 64 * n + (b.toNat - 0x80)) lead)

/-- The characters of a byte sequence that starts at a position. -/
def decodeUtf8From (pos : Nat) : List UInt8 → Except Utf8Error (List Char)
  | [] => .ok []
  | a :: rest =>
    if a < 0x80 then do
      let cs ← decodeUtf8From (pos + 1) rest
      .ok (Char.ofNat a.toNat :: cs)
    else if a < 0xC2 || 0xF5 ≤ a then .error ⟨.badStart, pos, [a]⟩
    else match rest with
      | [] => .error ⟨.cutOff, pos, [a]⟩
      | b :: rest =>
        if !isSecond a b then .error ⟨.badContinuation, pos, [a]⟩
        else if a < 0xE0 then do
          let cs ← decodeUtf8From (pos + 2) rest
          .ok (assemble (a.toNat - 0xC0) [b] :: cs)
        else match rest with
          | [] => .error ⟨.cutOff, pos, [a, b]⟩
          | c :: rest =>
            if !isContinuation c then .error ⟨.badContinuation, pos, [a, b]⟩
            else if a < 0xF0 then do
              let cs ← decodeUtf8From (pos + 3) rest
              .ok (assemble (a.toNat - 0xE0) [b, c] :: cs)
            else match rest with
              | [] => .error ⟨.cutOff, pos, [a, b, c]⟩
              | d :: rest =>
                if !isContinuation d then .error ⟨.badContinuation, pos, [a, b, c]⟩
                else do
                  let cs ← decodeUtf8From (pos + 4) rest
                  .ok (assemble (a.toNat - 0xF0) [b, c, d] :: cs)

def decodeUtf8 (bytes : List UInt8) : Except Utf8Error (List Char) := decodeUtf8From 0 bytes

/-- A carriage return ends a line, alone or with the line feed after it. -/
def unifyLineEnds : List Char → List Char
  | [] => []
  | '\r' :: '\n' :: cs => '\n' :: unifyLineEnds cs
  | '\r' :: cs => '\n' :: unifyLineEnds cs
  | c :: cs => c :: unifyLineEnds cs

/-! ## Writing -/

/-- The halves where a text cannot be written, and the position of the first of them. -/
structure WriteError where
  position : Nat
  halves : Text
deriving DecidableEq, Repr

def WriteError.message (e : WriteError) : String :=
  match e.halves with
  | [p] =>
    let shown := String.ofList (numbered p.toNat)
    s!"'utf-8' codec can't encode character '{shown}' in position {e.position}: surrogates not allowed"
  | ps =>
    s!"'utf-8' codec can't encode characters in position {e.position}-{e.position + ps.length - 1}: " ++
      "surrogates not allowed"

/-- A text as it is written. -/
def written (t : Text) : Except WriteError String :=
  match t.findIdx? CodePoint.isHalf with
  | none => .ok (String.ofList t.chars)
  | some i => .error ⟨i, (t.drop i).takeWhile CodePoint.isHalf⟩

end ModalFitch.Text
