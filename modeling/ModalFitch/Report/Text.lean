import ModalFitch.Report
import ModalFitch.Text.Padding

/-! The text of a report: a row for each line with its verdict, the counts, and the goal. Columns
are counted in characters. -/

namespace ModalFitch
set_option autoImplicit false

/-- The badge of a status, and one for no status. -/
def Status.badge : Option Status → String
  | some .valid => "[  OK  ]"
  | some .invalid => "[ FAIL ]"
  | some .unchecked => "[  ..  ]"
  | none => "[  ??  ]"

/-- What marks one level of depth. -/
def levelBar : String := "│ "

/-- The row of a line; an invalid line has a second row with the reason. -/
def Line.row (l : Line) (number : Int) (v : Verdict) : Text :=
  let place := Text.padLeft 3 (toString number)
  let sentence := Text.ofString (Text.repeated l.depth.toNat levelBar) ++ l.sentenceText
  let row := Text.ofString s!"{Status.badge (some v.status)} {place} " ++ sentence ++
    Text.ofString (Text.filler 32 sentence.length ++ " ") ++ l.justificationText
  match v.error? with
  | none => row
  | some e =>
    row ++ Text.ofString ("\n" ++ Text.repeated 13 " " ++ s!"✗ {e.reason.name}: ") ++ e.text

/-- The row of a line of any depth, outside a proof. -/
def Line.looseRow (l : Line) (number : Int) (v : Verdict) : Except Text.RepeatError Text := do
  Text.checkRepeat l.depth levelBar.length
  return l.row number v

namespace Report

/-- The line drawn under a heading. -/
def underline : String := Text.repeated 60 "="

def goalVerdict (r : Report) : String :=
  if r.provesGoal = some true then "established"
  else if r.reachesGoal = some true then
    "reached, but the proof still contains placeholder citations"
  else "NOT established"

/-- What stands under the rows: the counts, and the placeholders if there are any. -/
def footing (r : Report) : List String :=
  let total := r.diagnostics.length
  let counts := s!"{r.count .valid} valid, {r.count .invalid} invalid of {total} line(s)"
  let placeholders := if r.placeholders.isEmpty then []
    else ["Placeholder line(s): " ++ ", ".intercalate (r.placeholders.map toString)]
  ["", counts] ++ placeholders

/-- What is said of a goal, by its text. -/
def goalLine (r : Report) (goal : Text) : Text :=
  Text.ofString "Goal " ++ goal ++ Text.ofString s!": {r.goalVerdict}"

/-- The report on the lines of a proof. It fails where the goal has a number that is too long to be
written. -/
def text (r : Report) (lines : List Line) : Except Text.NumeralError Text := do
  let rows := (lines.zip r.diagnostics).map fun (l, d) => l.row d.number d.verdict
  let goal ← r.goal.mapM Goal.text
  let heading := [s!"Checking under {r.config.name}", underline]
  return List.intercalate [.char '\n'] <|
    heading.map Text.ofString ++ rows ++ r.footing.map Text.ofString ++
      goal.toList.map r.goalLine

end Report

end ModalFitch
