import ModalFitch.Document.Basic
import ModalFitch.Outline.Citing
import ModalFitch.Report

/-! A verification session: a document, the logic that it is checked under, and the verdicts that
are on display.

An edit of one line takes back the verdicts on that line and on the lines that cite it, directly or
through others; any other edit, and a change of the logic, takes back all. A pass starts with a
ticket. Its report is published only if no later ticket has been given out, and neither the logic
nor the document has changed since. -/

namespace ModalFitch
set_option autoImplicit false

/-- A requested pass: the outline that it checks, and the logic. -/
structure Ticket where
  number : Nat
  outline : Outline
  config : Config
deriving Repr

def Ticket.verify (t : Ticket) : Except Missing Report := ModalFitch.verify t.outline t.config

structure Session where
  document : Document
  config : Config
  /-- The number of the latest ticket. -/
  latest : Nat
  /-- The report published last. -/
  report : Option Report
  /-- The verdicts on display, one for each line. -/
  diagnostics : List Diagnostic
deriving Repr

namespace Session

/-- So many lines without a verdict. -/
def allUnchecked (count : Nat) : List Diagnostic :=
  (List.range' 1 count).map fun n => ⟨n, .unchecked⟩

def start (d : Document) (config : Config) : Session := ⟨d, config, 0, none, allUnchecked d.size⟩

/-! ## Changes -/

/-- The verdicts with those on some lines taken back. -/
def takeBack (numbers : List Nat) (ds : List Diagnostic) : List Diagnostic :=
  ds.mapIdx fun i d => if numbers.contains (i + 1) then ⟨i + 1, .unchecked⟩ else d

/-- The verdicts on display after a change of the document. -/
def displayAfter (ds : List Diagnostic) (d : Document) (change : Change) : List Diagnostic :=
  match change.kind, change.numbers with
  | .edit, n :: _ =>
    if ds.length = d.size then takeBack (n :: d.outline.dependents n) ds
    else allUnchecked d.size
  | _, _ => allUnchecked d.size

def edit (s : Session) (e : Edit) : Except EditError (Session × Change × EditAnswer) := do
  let (d, change, answer) ← s.document.edit e
  return ({ s with document := d, diagnostics := displayAfter s.diagnostics d change }, change,
    answer)

def setConfig (s : Session) (config : Config) : Session :=
  { s with config := config, diagnostics := allUnchecked s.document.size }

/-- Another goal; the current outline keeps its own. -/
def setGoal (s : Session) (goal : Option Goal) : Session :=
  { s with document := { s.document with goal := goal } }

/-! ## Passes -/

/-- Requests a pass over the current outline. -/
def begin (s : Session) : Session × Ticket :=
  ({ s with latest := s.latest + 1 }, ⟨s.latest + 1, s.document.outline, s.config⟩)

/-- Whether a finished pass comes too late to be published. -/
def isStale (s : Session) (t : Ticket) (r : Report) : Bool :=
  t.number ≠ s.latest || t.config ≠ s.config || r.revision ≠ s.document.revision

/-- Publishes a finished pass, unless it is stale. -/
def complete (s : Session) (t : Ticket) (r : Report) : Session × Bool :=
  if s.isStale t r then (s, false)
  else ({ s with report := some r, diagnostics := r.diagnostics }, true)

/-- Checks the current outline and publishes the report. -/
def run (s : Session) : Session × Except Missing Report :=
  let (s, t) := s.begin
  match t.verify with
  | .error m => (s, .error m)
  | .ok r => ((s.complete t r).1, .ok r)

end Session

end ModalFitch
