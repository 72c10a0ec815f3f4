import ModalFitch.Outline.Visibility
import ModalFitch.Reach

/-! The citation graph: which lines a justification reaches, and which lines reach a given one. -/

namespace ModalFitch.Outline
set_option autoImplicit false

/-- A rising list without its repetitions. -/
def dropRepeated : List Nat → List Nat
  | [] => []
  | [n] => [n]
  | m :: n :: rest => if m = n then dropRepeated (n :: rest) else m :: dropRepeated (n :: rest)

/-- Every line number that a line's justification reaches, ranges in full, in rising order. -/
def citedLines (o : Outline) (n : Nat) : Except Missing (List Nat) := do
  let l ← o.line n
  let cited := l.citations.flatMap fun c => List.range' c.start (c.last + 1 - c.start)
  return dropRepeated (cited.mergeSort (· ≤ ·))

/-- Whether the justification of the second line reaches the first. -/
def isCitedBy (o : Outline) (n m : Nat) : Bool := (o.line? m).any (·.cites n)

/-- The lines whose justification reaches a line, directly or through others. -/
def dependents (o : Outline) (n : Nat) : List Nat :=
  let reached := reachable o.isCitedBy o.numbers [n]
  o.numbers.filter fun m => reached.contains m && m != n

end ModalFitch.Outline
