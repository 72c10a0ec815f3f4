import ModalFitch.Checker

/-! The report of a pass over a proof: one diagnostic for each line, and whether the goal is
reached. A proof that still has placeholder lines reaches its goal without proving it. -/

namespace ModalFitch
set_option autoImplicit false

structure Report where
  diagnostics : List Diagnostic
  config : Config
  revision : Nat
  goal : Option Goal
  /-- Nothing where there is no goal. -/
  reachesGoal : Option Bool
  placeholders : List Nat
deriving Repr

/-- Whether some line of the main proof states the goal. -/
def Outline.statesGoal (o : Outline) (g : Goal) : Bool :=
  o.lines.any fun l => l.depth = 0 && l.sentence?.any g.isMetBy

/-- Checks every line of a proof. -/
def verify (o : Outline) (config : Config) : Except Missing Report := do
  let p ← Pass.start o config
  let diagnostics ← p.run
  let reaches := o.goal.map fun g => diagnostics.all Diagnostic.isValid && o.statesGoal g
  let placeholders := diagnostics.filter fun d => d.verdict = .valid (some .placeholder)
  return ⟨diagnostics, config, o.revision, o.goal, reaches, placeholders.map Diagnostic.number⟩

namespace Report

def isValid (r : Report) : Bool := r.diagnostics.all Diagnostic.isValid

/-- Nothing where there is no goal. -/
def provesGoal (r : Report) : Option Bool := r.reachesGoal.map fun b => b && r.placeholders.isEmpty

def invalidLines (r : Report) : List Nat :=
  (r.diagnostics.filter Diagnostic.isInvalid).map Diagnostic.number

def count (r : Report) (s : Status) : Nat := r.diagnostics.countP fun d => d.status = s

/-- The diagnostic of a line. -/
def byLine (r : Report) (n : Int) : Except Missing Diagnostic :=
  match if 1 ≤ n then r.diagnostics[n.toNat - 1]? else none with
  | some d => .ok d
  | none => .error (.line n)

/-- The report as an object. It fails where the goal has a number that is too long to be written. -/
def toJson (r : Report) : Except Text.NumeralError Json := do
  let flag := fun (b : Option Bool) => (b.map Json.bool).getD .null
  let goal ← r.goal.mapM Goal.text
  return .obj [("config", r.config.toJson), ("revision", .int r.revision), ("valid", .bool r.isValid),
    ("goal", (goal.map Json.str).getD .null),
    ("reaches_goal", flag r.reachesGoal), ("proves_goal", flag r.provesGoal),
    ("placeholders", .arr (r.placeholders.map fun n => Json.int (Int.ofNat n))),
    ("lines", .arr (r.diagnostics.map Diagnostic.toJson))]

end Report

end ModalFitch
