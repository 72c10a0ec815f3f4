import ModalFitch.Outline.Citing

/-! Questions about an outline by number. Numbers may be any integers; a negative one names no line
and no scope. -/

namespace ModalFitch.Outline
set_option autoImplicit false

inductive Query where
  | line (number : Int)
  | hasLine (number : Int)
  | depthOf (number : Int)
  | indexOf (number : Int)
  | scopeOf (number : Int)
  | scope (id : Int)
  | subproofAt (first last : Int)
  | summary (id : Int)
  | lineVisible (citing target : Int)
  | subproofVisible (citing id : Int)
  | encloses (outer inner : Int)
  | containsLine (id number : Int)
  | visibleFrom (number : Int)
  | hypothesesOver (number : Int)
  | citedLines (number : Int)
  | dependents (number : Int)
deriving DecidableEq, Repr

inductive Answer where
  | line (l : Line)
  | flag (b : Bool)
  | number (n : Int)
  | scope (s : Scope)
  | found (s : Option Scope)
  | summary (s : Summary)
  | numbers (ns : List Nat)
  | scopes (ss : List Scope)
  | visible (lines : List Nat) (closed : List Scope)
deriving Repr

/-- A number as a natural one, or what is missing where it is negative. -/
def natural (missing : Int → Missing) : Int → Except Missing Nat
  | .ofNat n => .ok n
  | .negSucc n => .error (missing (.negSucc n))

def answer (o : Outline) : Query → Except Missing Answer
  | .line n => do return .line (← o.line (← natural .line n))
  | .hasLine n => .ok (.flag (0 ≤ n && o.hasLine n.toNat))
  | .depthOf n => do return .number (← o.scopeOf (← natural .home n)).depth
  | .indexOf n => do return .number (← o.indexOf (← natural .home n))
  | .scopeOf n => do return .found (some (← o.scopeOf (← natural .home n)))
  | .scope id => do return .scope (← o.scope (← natural .scope id))
  | .subproofAt first last =>
    .ok (.found (if 0 ≤ first && 0 ≤ last then o.subproofAt first.toNat last.toNat else none))
  | .summary id => do return .summary (← o.summary (← o.scope (← natural .scope id)))
  | .lineVisible citing target =>
    if 0 ≤ citing && 0 ≤ target then do
      return .flag (← o.lineVisible citing.toNat target.toNat)
    else .ok (.flag false)
  | .subproofVisible citing id => do
    let s ← o.scope (← natural .scope id)
    if 0 ≤ citing then return .flag (← o.subproofVisible citing.toNat s) else return .flag false
  | .encloses outer inner => do
    let a ← o.scope (← natural .scope outer)
    let b ← o.scope (← natural .scope inner)
    return .flag (a.encloses b)
  | .containsLine id n => do
    let s ← o.scope (← natural .scope id)
    return .flag (0 ≤ n && s.containsLine n.toNat)
  | .visibleFrom n => do
    let (lines, closed) ← o.visibleFrom (← natural .home n)
    return .visible lines closed
  | .hypothesesOver n => do return .scopes (← o.hypothesesOver (← natural .home n))
  | .citedLines n => do return .numbers (← o.citedLines (← natural .line n))
  | .dependents n => .ok (.numbers (if 0 ≤ n then o.dependents n.toNat else []))

end ModalFitch.Outline
