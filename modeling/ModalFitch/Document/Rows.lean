import ModalFitch.Document.Basic

/-! Proof documents as rows of plain values.

A row is a list of a depth, a sentence and a justification, optionally with the kind of subproof
that it opens, or an object with fields of these names; a text is the list of its characters. Where
a row does not say what it opens, it opens an ordinary subproof if it is deeper than the row before
it, or if it is below depth 0 and labelled as a premise or the lone box. -/

namespace ModalFitch
set_option autoImplicit false

structure Row where
  depth : Int
  sentence : Text
  justification : Text
  opens : Option ScopeKind
deriving DecidableEq, Repr

inductive RowError where
  /-- A list without three or four elements, as it is shown. -/
  | length (row : String)
  /-- A value that is no list, object or text. -/
  | shape
  | depth (e : Json.IntError)
  /-- A value that is no kind of subproof, as it is shown. -/
  | kind (v : String)
  | opensRoot
  /-- A number that is too long to be written, in a text or in a message. -/
  | numeral (e : Text.NumeralError)
deriving Repr

def RowError.message : RowError → String
  | .length row => s!"Row {row} must have 3 or 4 elements"
  | .shape => "A row must be a list, an object or a text"
  | .depth e => e.message
  | .kind v => s!"Unknown subproof kind: {v}"
  | .opensRoot => "A row cannot open the root scope"
  | .numeral e => e.message

namespace Row

/-- The refusal of a value, with an error that shows it. -/
def refuse {α : Type} (v : Json) (error : String → RowError) : Except RowError α := do
  let shown ← v.shown.mapError .numeral
  .error (error shown)

/-- The kind of subproof that a value names; a value that counts as false names none. -/
def readKind (v : Json) : Except RowError (Option ScopeKind) :=
  if v.isTrue then
    match v with
    | .str s =>
      match ScopeKind.ofName? s with
      | some .root => .error .opensRoot
      | some kind => .ok (some kind)
      | none => refuse v .kind
    | _ => refuse v .kind
  else .ok none

def make (depth sentence justification opens : Json) : Except RowError Row := do
  let d ← depth.asInt.mapError .depth
  let s ← sentence.asText.mapError .numeral
  let j ← justification.asText.mapError .numeral
  let kind ← readKind opens
  return ⟨d, s, j, kind⟩

/-- The row of a list of values. -/
def ofItems (row : Json) : List Json → Except RowError Row
  | [d, s, j] => make d s j .null
  | [d, s, j, o] => make d s j o
  | _ => refuse row .length

def ofJson (v : Json) : Except RowError Row :=
  match v with
  | .obj _ =>
    make ((v.get? "depth").getD (.int 0)) ((v.get? "sentence").getD (.str ""))
      ((v.get? "justification").getD (.str "")) ((v.get? "opens").getD .null)
  | .arr items => ofItems v items
  | .str s => ofItems v (s.map fun p => .str [p])
  | _ => .error .shape

/-- The line of a row after a row of some depth. -/
def line (r : Row) (before : Int) : Except Text.NumeralError Line := do
  let plain ← Line.create r.sentence r.justification r.depth none
  let inferred := 0 < r.depth && (before < r.depth || plain.isPremise || plain.isMarker)
  let opens := match r.opens with
    | some kind => some kind
    | none => if inferred then some .ordinary else none
  Line.create r.sentence r.justification r.depth opens

end Row

/-- Why rows give no document. -/
inductive RowsError where
  | row (e : RowError)
  | numeral (e : Text.NumeralError)
  | goal (e : ParseError)
  | nesting (e : NestingFailure)
deriving Repr

def RowsError.message : RowsError → String
  | .row e => e.message
  | .numeral e => e.message
  | .goal e => e.message
  | .nesting e => e.message

namespace Document

/-- The lines of rows after a row of some depth. -/
def linesOfRows (before : Int) : List Json → Except RowsError (List Line)
  | [] => .ok []
  | v :: rest => do
    let r ← (Row.ofJson v).mapError .row
    let l ← (r.line before).mapError .numeral
    let ls ← linesOfRows r.depth rest
    return l :: ls

/-- The goal that a value stands for; a text is read as a sentence. -/
def readGoal : Json → Except ParseError (Option Goal)
  | .null => .ok none
  | .str s => (Sentence.read s).map fun g => some (.sentence g)
  | v => .ok (some (.other v))

def ofRows (rows : List Json) (goal : Json) : Except RowsError Document := do
  let lines ← linesOfRows 0 rows
  let g ← (readGoal goal).mapError .goal
  (ofLines lines g).mapError .nesting

end Document

/-- The row of a line. -/
def Line.toRow (l : Line) : Json :=
  let opened : List (Text × Json) := l.opens.toList.map fun kind => ("opens", .str kind.name)
  .obj (("depth", .int l.depth) :: ("sentence", .str l.sentenceText) ::
    ("justification", .str l.justificationText) :: opened)

def Document.toRows (d : Document) : List Json := d.lines.map Line.toRow

end ModalFitch
