import ModalFitch.Sentence.Basic

/-! Truth values under a partial valuation of the atoms.

Conjunction, disjunction and conditional are decided by their left side where it suffices, so an
atom without a value, a modal part, the marker or a metavariable is an error only when it is
reached. The biconditional needs both sides. -/

namespace ModalFitch
set_option autoImplicit false

/-- The truth values of atoms; an atom may have none. -/
abbrev Valuation : Type := String → Option Bool

/-- Why a sentence has no truth value. -/
inductive ValuationError where
  | unassigned (name : String)
  | marker
  | metavar (name : String)
  | modal
deriving DecidableEq, Repr

def ValuationError.message : ValuationError → String
  | .unassigned name => s!"No truth value assigned to atom '{name}'"
  | .marker => "The strict subproof marker has no truth value"
  | .metavar name => s!"Metavariable '{name}' has no truth value"
  | .modal => "Modal sentences have no truth-functional value"

namespace Sentence

def evaluate (v : Valuation) : Sentence → Except ValuationError Bool
  | .atom name =>
    match v name with
    | some b => .ok b
    | none => .error (.unassigned name)
  | .metavar name => .error (.metavar name)
  | .bottom => .ok false
  | .marker => .error .marker
  | .unary .neg s => do
    let b ← s.evaluate v
    return !b
  | .unary .nec _ => .error .modal
  | .unary .pos _ => .error .modal
  | .binary .con l r => do
    if ← l.evaluate v then r.evaluate v else return false
  | .binary .dis l r => do
    if ← l.evaluate v then return true else r.evaluate v
  | .binary .imp l r => do
    if ← l.evaluate v then r.evaluate v else return true
  | .binary .bic l r => do
    let a ← l.evaluate v
    let b ← r.evaluate v
    return a == b

end Sentence

end ModalFitch
