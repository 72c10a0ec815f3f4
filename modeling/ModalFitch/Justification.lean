import ModalFitch.Text.Numeral

/-! Justifications: a rule label followed by citations.

A single number cites a line, and a range `a-b` the subproof from line `a` to line `b`. The text is
cut at commas, semicolons and blanks, after every dash between two digits, of any of three lengths
and with blanks around it, has been made a plain hyphen.

* `Justification.read`: the reading of a justification text.
* `renumber`: the text with its citations moved by a partial map of line numbers; a citation with
  an end that has no image is left dangling. -/

namespace ModalFitch
set_option autoImplicit false

/-- A cited line, or a cited subproof with its first and last line. -/
structure Citation where
  start : Nat
  stop : Option Nat
deriving DecidableEq, Repr

namespace Citation

def isRange (c : Citation) : Bool := c.stop.isSome

/-- The last line that a citation reaches. -/
def last (c : Citation) : Nat := c.stop.getD c.start

/-- The numbers that a citation writes. -/
def numbers (c : Citation) : List Nat := c.start :: c.stop.toList

def text (c : Citation) : String := "-".intercalate (c.numbers.map toString)

end Citation

/-- A rule label as written, with the citations in their order. -/
structure Justification where
  rule : Text
  citations : List Citation
deriving DecidableEq, Repr

/-- What is wrong with a justification text; the index of a citation counts from zero. -/
inductive JustificationError where
  | missingRule
  | notCitation (index : Int) (piece : Text)
  | backwards (index : Int) (piece : Text)
deriving DecidableEq, Repr

namespace JustificationError

def kindName : JustificationError → String
  | .missingRule => "missing_rule"
  | .notCitation _ _ | .backwards _ _ => "bad_citation"

def index : JustificationError → Option Int
  | .missingRule => none
  | .notCitation i _ | .backwards i _ => some i

/-- What is wrong, without the kind. -/
def text : JustificationError → String
  | .missingRule => "Justification names no rule"
  | .notCitation i s => s!"Citation {i + 1} ({Text.quoted s}) is not a line number or range"
  | .backwards i s => s!"Citation {i + 1} ({Text.quoted s}) runs backwards"

def message (e : JustificationError) : String := s!"[{e.kindName}] {e.text}"

end JustificationError

/-- Why a text gives no justification: it is malformed, or one of its numbers is too long to be
read at all. -/
inductive JustificationFailure where
  | malformed (e : JustificationError)
  | numeral (e : Text.NumeralError)
deriving DecidableEq, Repr

namespace Justification

def text (j : Justification) : Text :=
  if j.citations.isEmpty then j.rule
  else j.rule ++ Text.ofString (" " ++ ", ".intercalate (j.citations.map Citation.text))

/-! ## Cutting a text into pieces -/

/-- The hyphen and the two longer dashes. -/
def isDash (c : Char) : Bool := c = '-' || c = '–' || c = '—'

/-- The text after a dash and the blanks around it, where a digit follows. -/
def dashBefore? (t : Text) : Option Text :=
  match t.dropWhile (·.is Text.isBlank) with
  | [] => none
  | d :: rest =>
    if d.is isDash then
      match rest.dropWhile (·.is Text.isBlank) with
      | [] => none
      | p :: rest => if p.is Text.isDigit then some (p :: rest) else none
    else none

/-- Makes every dash between two digits, with the blanks around it, a plain hyphen. The first
argument tells whether a digit has just been passed, the second counts the characters of a dash
and its blanks that are passed over. -/
def joinDashesFrom (afterDigit : Bool) : Nat → Text → Text
  | _, [] => []
  | skip + 1, _ :: t => joinDashesFrom false skip t
  | 0, p :: t =>
    match if afterDigit then dashBefore? (p :: t) else none with
    | some rest => .char '-' :: joinDashesFrom false (t.length - rest.length) t
    | none => p :: joinDashesFrom (p.is Text.isDigit) 0 t

def joinDashes (t : Text) : Text := joinDashesFrom false 0 t

def isSeparator (c : Char) : Bool := c = ';' || c = ',' || Text.isBlank c

/-- The pieces between separators, the first of them after code points already read, which are
given in reverse. There are no empty pieces. -/
def piecesFrom (current : Text) : Text → List Text
  | [] => if current.isEmpty then [] else [current.reverse]
  | p :: t =>
    if p.is isSeparator then
      if current.isEmpty then piecesFrom [] t else current.reverse :: piecesFrom [] t
    else piecesFrom (p :: current) t

/-- The pieces of a justification text. -/
def pieces (text : Text) : List Text := piecesFrom [] (joinDashes text.trim)

/-! ## Citations -/

/-- The digits of a line number, or of the two ends of a range. One line end may follow. -/
def citationDigits? (piece : Text) : Option (List Char × Option (List Char)) :=
  let t := piece.dropLineEnd
  let first := Text.leading Text.isDigit t
  if first.isEmpty then none
  else match t.dropWhile (·.is Text.isDigit) with
    | [] => some (first, none)
    | p :: second =>
      if p = .char '-' && !second.isEmpty && second.all (·.is Text.isDigit) then
        some (first, some (Text.chars second))
      else none

/-- The numbers that a citation's digits write. -/
def citationNumbers (digits : List Char × Option (List Char)) :
    Except Text.NumeralError (Nat × Option Nat) := do
  let start ← Text.natOfDigits digits.1
  match digits.2 with
  | none => .ok (start, none)
  | some second =>
    let stop ← Text.natOfDigits second
    .ok (start, some stop)

/-- The citation that a piece writes. -/
def readCitation (index : Int) (piece : Text) : Except JustificationFailure Citation :=
  match citationDigits? piece with
  | none => .error (.malformed (.notCitation index piece))
  | some digits =>
    match citationNumbers digits with
    | .error e => .error (.numeral e)
    | .ok (start, none) => .ok ⟨start, none⟩
    | .ok (start, some stop) =>
      if stop < start then .error (.malformed (.backwards index piece))
      else .ok ⟨start, some stop⟩

/-- The citation that a piece writes, with an index from outside. A message that would number it
with too many digits cannot be written. -/
def readLooseCitation (index : Int) (piece : Text) : Except JustificationFailure Citation :=
  match readCitation index piece with
  | .ok c => .ok c
  | .error (.numeral e) => .error (.numeral e)
  | .error (.malformed e) =>
    match Text.textOfInt (index + 1) with
    | .ok _ => .error (.malformed e)
    | .error e => .error (.numeral e)

/-- The citations of a list of pieces, counted from an index on. -/
def readCitations (index : Int) : List Text → Except JustificationFailure (List Citation)
  | [] => .ok []
  | piece :: rest => do
    let c ← readCitation index piece
    let cs ← readCitations (index + 1) rest
    .ok (c :: cs)

/-- The justification that a text writes. The label is kept as written. -/
def read (text : Text) : Except JustificationFailure Justification :=
  match pieces text with
  | [] => .error (.malformed .missingRule)
  | rule :: rest => do
    let citations ← readCitations 0 rest
    .ok ⟨rule, citations⟩

end Justification

/-! ## Renumbering -/

namespace Justification

/-- What stands for a citation whose line is gone. -/
def dangling : Text := "?"

/-- The new text of a piece; one that is no citation is kept. -/
def renumberPiece (shift : Nat → Option Int) (piece : Text) : Except Text.NumeralError Text :=
  match citationDigits? piece with
  | none => .ok piece
  | some digits => do
    match ← citationNumbers digits with
    | (start, none) =>
      match shift start with
      | none => .ok dangling
      | some a => return (← Text.textOfInt a)
    | (start, some stop) =>
      match shift start, shift stop with
      | some a, some b => return Text.ofString ((← Text.textOfInt a) ++ "-" ++ (← Text.textOfInt b))
      | _, _ => .ok dangling

/-- The text of a justification with its citations moved, or nothing where no piece changes.
Pieces that are no citations, and citations that run backwards, do not hinder the others. -/
def renumber (shift : Nat → Option Int) (text : Text) :
    Except Text.NumeralError (Option Text) :=
  match pieces text with
  | [] => .ok none
  | rule :: rest => do
    let moved ← rest.mapM (renumberPiece shift)
    if moved = rest then .ok none
    else .ok (some (rule ++ Text.ofString " " ++ (Text.ofString ", ").intercalate moved))

end Justification

end ModalFitch
