import ModalFitch.Outline.Visibility

/-! The editable proof document.

An edit makes the new lines, lays them out, and commits only where they nest; otherwise the
document stays as it is. Inserting or removing lines renumbers the citations of the others, so that
they keep naming the same content; a citation of a removed line is left dangling.

* `Document`: the outline of the current lines, and the goal of the next outline.
* `Edit` and `Document.edit`: the edits, and what one of them comes to.
* `Change`: what is announced of a committed edit. -/

namespace ModalFitch
set_option autoImplicit false

/-- The goal may be changed without an edit; the outline takes it over with the next edit. -/
structure Document where
  outline : Outline
  goal : Option Goal
deriving Repr

inductive EditError where
  | position (p : Int)
  | removal (number : Int)
  | missing (m : Missing)
  | nesting (e : NestingFailure)
  | numeral (e : Text.NumeralError)
deriving DecidableEq, Repr

def EditError.message : EditError → String
  | .position p => s!"Cannot insert at line {p}"
  | .removal n => s!"Cannot remove line {n}: no such line"
  | .missing m => m.message
  | .nesting e => e.message
  | .numeral e => e.message

inductive ChangeKind where
  | insert
  | remove
  | edit
deriving DecidableEq, Repr

def ChangeKind.name : ChangeKind → String
  | .insert => "insert"
  | .remove => "remove"
  | .edit => "edit"

/-- A committed edit: its kind, the lines that it concerns, and the revision that it makes. -/
structure Change where
  kind : ChangeKind
  numbers : List Nat
  revision : Nat
deriving DecidableEq, Repr

namespace Document

/-- A document at its first revision. -/
def ofLines (lines : List Line) (goal : Option Goal) : Except NestingFailure Document := do
  let o ← Outline.build lines goal 0
  return ⟨o, goal⟩

def lines (d : Document) : List Line := d.outline.lines

def size (d : Document) : Nat := d.lines.length

def revision (d : Document) : Nat := d.outline.revision

/-- The document with other lines, at the next revision. -/
def commit (d : Document) (lines : List Line) (kind : ChangeKind) (numbers : List Nat) :
    Except EditError (Document × Change) := do
  let o ← (Outline.build lines d.goal (d.revision + 1)).mapError .nesting
  return (⟨o, d.goal⟩, ⟨kind, numbers, o.revision⟩)

/-- A line with its citations moved. -/
def renumberLine (shift : Nat → Option Int) (l : Line) : Except Text.NumeralError Line := do
  match ← Justification.renumber shift l.justificationText with
  | none => return l
  | some text => l.withJustification text

/-! ## Insertion -/

/-- Whether a line may be inserted with this number. -/
def isPosition (d : Document) (position : Int) : Bool :=
  1 ≤ position && position ≤ d.size + 1

/-- The depth of the line before a position. -/
def depthBefore (d : Document) (position : Int) : Except EditError Int :=
  if d.isPosition position then
    .ok (if position = 1 then 0 else ((d.lines[position.toNat - 2]?).map Line.depth).getD 0)
  else .error (.position position)

/-- The new number of a line when another one is inserted. -/
def shiftInsert (position : Nat) (n : Nat) : Option Int :=
  some (if position ≤ n then n + 1 else n)

def insert (d : Document) (position : Int) (l : Line) : Except EditError (Document × Change) :=
  if d.isPosition position then do
    let p := position.toNat
    let moved ← (d.lines.mapM (renumberLine (shiftInsert p))).mapError .numeral
    d.commit (moved.take (p - 1) ++ l :: moved.drop (p - 1)) .insert [p]
  else .error (.position position)

/-- Inserts a line, at the depth of the line before it if none is given. -/
def insertLine (d : Document) (position : Int) (sentence justification : Text)
    (depth : Option Int) : Except EditError (Document × Change × Line) := do
  let depth ← match depth with
    | some n => .ok n
    | none => d.depthBefore position
  let l ← (Line.create sentence justification depth none).mapError .numeral
  let (d, change) ← d.insert position l
  return (d, change, l)

/-- Inserts an assumption that opens a subproof, one deeper than the line before it if no depth is
given. -/
def openSubproof (d : Document) (position : Int) (sentence : Text) (kind : ScopeKind)
    (depth : Option Int) (justification : Text) :
    Except EditError (Document × Change × Line) := do
  let depth ← match depth with
    | some n => .ok n
    | none => (d.depthBefore position).map (· + 1)
  let l ← (Line.create sentence justification depth (some kind)).mapError .numeral
  let (d, change) ← d.insert position l
  return (d, change, l)

/-! ## Removal -/

/-- The first and the last line that go with a line: an assumption takes its subproof along. -/
def removalRange (o : Outline) (number : Nat) : Except Missing (Nat × Nat) := do
  let l ← o.line number
  if l.opens.isSome then
    let s ← o.scopeOf number
    return (s.first, s.last)
  else return (number, number)

/-- The new number of a line when those from `first` to `last` are removed. -/
def shiftRemove (first last : Nat) (n : Nat) : Option Int :=
  if n < first then some n
  else if last < n then some (n - (last - first + 1 : Nat))
  else none

/-- Removes a line. The answer has the numbers of all removed lines. -/
def remove (d : Document) (number : Int) : Except EditError (Document × Change × List Nat) :=
  if 1 ≤ number && number ≤ d.size then do
    let (first, last) ← (removalRange d.outline number.toNat).mapError .missing
    let remaining := d.lines.take (first - 1) ++ d.lines.drop last
    let moved ← (remaining.mapM (renumberLine (shiftRemove first last))).mapError .numeral
    let removed := List.range' first (last + 1 - first)
    let (d, change) ← d.commit moved .remove removed
    return (d, change, removed)
  else .error (.removal number)

/-! ## Content -/

/-- Puts another line in the place of a line. -/
def replace (d : Document) (number : Nat) (l : Line) : Except EditError (Document × Change) :=
  d.commit (d.lines.set (number - 1) l) .edit [number]

/-- The line of a number. -/
def lineAt (d : Document) (number : Int) : Except EditError Line :=
  match if 1 ≤ number then d.outline.line? number.toNat else none with
  | some l => .ok l
  | none => .error (.missing (.line number))

def editSentence (d : Document) (number : Int) (text : Text) :
    Except EditError (Document × Change × Line) := do
  let old ← d.lineAt number
  let l := old.withSentence text
  let (d, change) ← d.replace number.toNat l
  return (d, change, l)

def editJustification (d : Document) (number : Int) (text : Text) :
    Except EditError (Document × Change × Line) := do
  let old ← d.lineAt number
  let l ← (old.withJustification text).mapError .numeral
  let (d, change) ← d.replace number.toNat l
  return (d, change, l)

end Document

/-! ## Edits as values -/

inductive Edit where
  | insert (position : Int) (sentence justification : Text) (depth : Option Int)
  | openSubproof (position : Int) (sentence : Text) (kind : ScopeKind) (depth : Option Int)
      (justification : Text)
  | remove (number : Int)
  | sentence (number : Int) (text : Text)
  | justification (number : Int) (text : Text)
deriving DecidableEq, Repr

/-- What an edit answers: the new line, or the numbers of the removed ones. -/
inductive EditAnswer where
  | line (l : Line)
  | removed (numbers : List Nat)
deriving Repr

def Document.edit (d : Document) : Edit → Except EditError (Document × Change × EditAnswer)
  | .insert position s j depth => do
    let (d, change, l) ← d.insertLine position s j depth
    return (d, change, .line l)
  | .openSubproof position s kind depth j => do
    let (d, change, l) ← d.openSubproof position s kind depth j
    return (d, change, .line l)
  | .remove number => do
    let (d, change, removed) ← d.remove number
    return (d, change, .removed removed)
  | .sentence number text => do
    let (d, change, l) ← d.editSentence number text
    return (d, change, .line l)
  | .justification number text => do
    let (d, change, l) ← d.editJustification number text
    return (d, change, .line l)

end ModalFitch
