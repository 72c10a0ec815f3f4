import ModalFitch.Checker
import ModalFitch.Outline.Query

/-! Single steps of a check, on demand. Numbers and indices may be any integers. -/

namespace ModalFitch
set_option autoImplicit false

inductive Step where
  /-- World closure for the citations of a justification text. -/
  | closure (justification : Text)
  /-- Dependencies for the citations of a justification text. -/
  | dependencies (justification : Text)
  | across (number index target : Int)
  | within (number index target : Int)
  /-- A citation text that stands for a subproof. -/
  | subproof (number index : Int) (citation : Text)
deriving DecidableEq, Repr

/-- Why a step gives no result: its text cannot be read, or the check fails. -/
inductive StepFailure where
  | text (e : JustificationFailure)
  | check (e : CheckFailure)
deriving DecidableEq, Repr

namespace Pass

/-- A line number in a question about the scope of its line. -/
def home (n : Int) : Check Nat := Check.lift (Outline.natural .home n)

/-- The outcome of a step after the verdicts already reached: a subproof's summary, or nothing
where the step just passes. -/
def perform (p : Pass) (done : List Diagnostic) : Step → Except StepFailure (Option Summary)
  | .closure text => do
    let j ← (Justification.read text).mapError .text
    let _ ← (p.checkClosure 0 j.citations).mapError .check
    return none
  | .dependencies text => do
    let j ← (Justification.read text).mapError .text
    let _ ← (checkDependencies done 0 j.citations).mapError .check
    return none
  | .across number index target => do
    let n ← (home number).mapError .check
    let _ ← (Check.lift (p.outline.scopeOf n)).mapError .check
    let t ← (home target).mapError .check
    let _ ← (p.resolveAcross n index t).mapError .check
    return none
  | .within number index target => do
    let t ← (home target).mapError .check
    let _ ← (p.worldOf t).mapError .check
    let n ← (home number).mapError .check
    let _ ← (p.resolveWithin n index t).mapError .check
    return none
  | .subproof number index text => do
    let c ← (Justification.readLooseCitation index text).mapError .text
    let s ← (p.resolveSubproof number index c).mapError .check
    return some s

end Pass

end ModalFitch
