import ModalFitch.CommandLine.Files
import ModalFitch.CommandLine.Usage
import ModalFitch.Document.Loading
import ModalFitch.Json.Printer
import ModalFitch.Json.Reader
import ModalFitch.Report.Text
import ModalFitch.Text.Utf8

/-! What the commands print.

* `plan`: what a command line asks for: an outcome, or a file and the outcome of its content.
* `run`: the outcome with the files of a directory. -/

namespace ModalFitch.CommandLine
set_option autoImplicit false

structure Output where
  exitCode : Nat
  stdout : String
  stderr : String
deriving DecidableEq, Repr

/-- Why the work breaks off without any output. -/
inductive Breakdown where
  /-- The lines of a document are neither counted nor absent. -/
  | uncounted
  /-- The values of a file are too deep inside one another. -/
  | tooDeep (c : Json.Container)
  | load (e : LoadError)
  | missing (m : Missing)
  /-- The report has a number that is too long to be written. -/
  | numeral (e : Text.NumeralError)
  /-- The report has a text that cannot be written. -/
  | unwritten (e : Text.WriteError)
deriving Repr

def Breakdown.message : Breakdown → String
  | .uncounted => "The lines of a document must be a list"
  | .tooDeep c => c.depthMessage
  | .load e => e.message
  | .missing m => m.message
  | .numeral e => e.message
  | .unwritten e => e.message

abbrev Outcome : Type := Except Breakdown Output

inductive Plan where
  | finished (o : Outcome)
  | reading (path : String) (next : Except FileError (List UInt8) → Outcome)

/-- Lines on the standard output. -/
def printed (exitCode : Nat) (lines : List String) : Output := ⟨exitCode, unlines lines, ""⟩

/-- An output with a log, if the log is wanted. -/
def Output.withLog (o : Output) (verbose : Bool) (log : List String) : Output :=
  if verbose then { o with stderr := unlines log ++ o.stderr } else o

/-! ## Log -/

/-- What is logged of a pass. -/
def passLog (o : Outline) (r : Report) : List String :=
  let worlds := ((WorldTree.ofOutline o).toOption.map WorldTree.size).getD 0
  let verdict := fun (d : Diagnostic) =>
    let why := (d.verdict.error?.map fun e => s!" ({e.reason.name})").getD ""
    s!"DEBUG fitchbox.engine.verifier: Line {d.number}: {d.status.name}{why}"
  [s!"DEBUG fitchbox.modal.worlds: Built world tree with {worlds} world(s)"] ++
    r.diagnostics.map verdict ++
    [s!"INFO fitchbox.engine.verifier: Verified {r.diagnostics.length} line(s) under " ++
      s!"{r.config.name}: {r.invalidLines.length} invalid, {r.placeholders.length} placeholder(s)"]

/-! ## Checking a document -/

/-- Why a file gives no proof. -/
inductive CheckLoadError where
  | file (e : FileError)
  | encoding (e : Text.Utf8Error)
  | json (text : List Char) (e : Json.ReadError)
  | document (e : LoadError)

def CheckLoadError.message : CheckLoadError → String
  | .file e => e.message
  | .encoding e => e.message
  | .json text e => e.message text
  | .document e => e.message

/-- The JSON value of a file. -/
def readJson (content : Except FileError (List UInt8)) : Except CheckLoadError Json := do
  let bytes ← content.mapError .file
  let chars ← (Text.decodeUtf8 bytes).mapError .encoding
  let text := Text.unifyLineEnds chars
  (Json.read text).mapError (.json text)

/-- The number of lines that a document seems to have, before they are read: what counts as false
has none, and a value without a size has no number. -/
def lineCount (data : Json) : Option Nat :=
  let lines := (data.get? "lines").getD .null
  if lines.isTrue then
    match lines with
    | .arr items => some items.length
    | .str s => some s.length
    | .obj fields => some fields.length
    | _ => none
  else some 0

def loadFailure (file : String) (e : CheckLoadError) : Output :=
  printed 1 [s!"ERROR: Cannot load {file}", s!"Reason: {e.message}"]

/-- The setting that an option for the modal system stands for. -/
def systemSetting : Option String → Json
  | some name => .str name
  | none => .null

/-- A report on lines, as an object or as rows. -/
def reportText (r : Report) (json : Bool) (lines : List Line) : Except Text.NumeralError Text :=
  if json then r.toJson.map (Json.indented 0) else r.text lines

/-- The report on a proof, in one of its two forms. It is written as a whole or not at all. -/
def reportOutput (document : Document) (config : Config) (json : Bool) (verbose : Bool)
    (log : List String) : Outcome := do
  let r ← (verify document.outline config).mapError .missing
  let text ← (reportText r json document.lines).mapError .numeral
  let shown ← text.written.mapError .unwritten
  let output := printed (if r.isValid then 0 else 1) [shown]
  return output.withLog verbose (log ++ passLog document.outline r)

/-- Checks a JSON value as a document. -/
def checkData (file : String) (system : Option String) (noDerived json verbose : Bool)
    (data : Json) : Outcome :=
  match data with
  | .obj _ =>
    match lineCount data with
    | none => .error .uncounted
    | some count =>
      let log := [s!"DEBUG fitchbox.cli.pipeline: Loaded {file} with {count} line(s)"]
      let loaded := do
        let f ← ProofFile.ofJson data
        let c ← (f.config.override (systemSetting system) noDerived).mapError
          LoadError.config
        return (f, c)
      match loaded with
      | .error e =>
        if e.isReported then .ok ((loadFailure file (.document e)).withLog verbose log)
        else .error (.load e)
      | .ok (f, c) => reportOutput f.document c json verbose log
  | _ => .ok (loadFailure file (.document .notObject))

def checkFile (file : String) (system : Option String) (noDerived json verbose : Bool)
    (content : Except FileError (List UInt8)) : Outcome :=
  match readJson content with
  | .error (.json _ (.tooDeep c)) => .error (.tooDeep c)
  | .error e => .ok (loadFailure file e)
  | .ok data => checkData file system noDerived json verbose data

/-! ## Other commands -/

/-- Shows how a sentence is read, or where it goes wrong. -/
def parseOutput (text : String) : Output :=
  match Sentence.read text with
  | .error e =>
    let arrows := Text.repeated (max 1 (e.stop - e.start)) "^"
    printed 1 [s!"ERROR: {e.text}", s!"  {text}", "  " ++ Text.repeated e.start " " ++ arrows]
  | .ok s =>
    let atoms := if s.atoms.isEmpty then "(none)" else ", ".intercalate s.atoms
    let modal := if s.isModal then "yes" else "no"
    printed 0 [s!"Sentence: {s.render}", s!"Kind:     {s.kindName}", s!"Atoms:    {atoms}",
      s!"Modal:    {modal}"]

/-- The entries of rules, with a heading wherever the rule set changes. -/
def ruleLines (current : Option RuleSet) : List RuleDefinition → List String
  | [] => []
  | d :: rest =>
    let title := String.ofList (Text.uppered d.ruleset.name).chars
    let heading := if current = some d.ruleset then [] else ["", title ++ ":"]
    heading ++ [s!"  {Text.padRight 5 d.label} {d.description}"] ++
      d.schemas.map (fun s => Text.repeated 8 " " ++ s.render) ++ ruleLines (some d.ruleset) rest

def rulesOutput (system : Option String) (noDerived : Bool) : Output :=
  match Config.standard.override (systemSetting system) noDerived with
  | .error e => printed 1 [s!"ERROR: {e.message}"]
  | .ok c =>
    printed 0 ([s!"Rules for {c.name}", Report.underline] ++
      ruleLines none (Catalog.rulesIn c.rulesets))

/-- The built-in proof: necessity distributes over the conditional. -/
def sample : Json :=
  let row := fun (depth : Int) (s j : String) => Json.arr [.int depth, .str s, .str j]
  .obj [("system", .str "K"), ("goal", .str "□Q"), ("lines", .arr [
    row 0 "□(P → Q)" "PR",
    row 0 "□P" "PR",
    row 1 "□" "",
    row 1 "P → Q" "□E 1",
    row 1 "P" "□E 2",
    row 1 "Q" "→E 4, 5",
    row 0 "□Q" "□I 3-6"])]

def demoOutput (verbose : Bool) : Outcome := do
  let f ← (ProofFile.ofJson sample).mapError .load
  reportOutput f.document f.config false verbose []

/-! ## Command lines -/

/-- Help goes to the standard output, and misuse to the standard error. -/
def Halt.output (h : Halt) : Output :=
  match h.stop with
  | .help => ⟨0, h.grammar.help, ""⟩
  | .misuse text => ⟨2, "", unlines [h.grammar.usage, s!"{h.grammar.program}: error: {text}"]⟩

def plan (args : List String) : Plan :=
  match readInvocation args with
  | .error h => .finished (.ok h.output)
  | .ok i =>
    match i.command with
    | .none => .finished (.ok ⟨0, mainGrammar.help, ""⟩)
    | .check file system noDerived json =>
      .reading file (checkFile file system noDerived json i.verbose)
    | .parse text => .finished (.ok (parseOutput text))
    | .rules system noDerived => .finished (.ok (rulesOutput system noDerived))
    | .demo => .finished (demoOutput i.verbose)

/-- The outcome of a command line with the files of a directory. -/
def run (d : Directory) (args : List String) : Outcome :=
  match plan args with
  | .finished o => o
  | .reading path next => next (d.read path)

end ModalFitch.CommandLine
