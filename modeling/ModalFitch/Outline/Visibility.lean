import ModalFitch.Outline.Basic

/-! What a line can see.

A line sees the earlier lines of its own scope and of the scopes around it, and the summaries of
the closed subproofs that stand directly in those. Lines inside a closed subproof cannot be seen
from outside. Questions about a line or a scope that is not there have no answer, and say what is
missing. -/

namespace ModalFitch
set_option autoImplicit false

/-- Something that a question presupposes and that is not there. -/
inductive Missing where
  | line (number : Int)
  /-- The scope of a line that is not there. -/
  | home (line : Int)
  | scope (id : Int)
  /-- The world of a scope that has none. -/
  | world (scope : Int)
  /-- The verdict on a line that has none yet. -/
  | verdict (line : Int)
  /-- The sentence of a line that has none. -/
  | sentence (line : Int)
deriving DecidableEq, Repr

def Missing.message : Missing → String
  | .line n => Text.quoted s!"No line {n}"
  | .home n | .scope n | .world n | .verdict n | .sentence n => toString n

/-- What a closed subproof shows to the outside. There is no assumption where the lone box opens
it, and no result where it ends inside another subproof or holds nothing but the lone box. -/
structure Summary where
  kind : ScopeKind
  first : Nat
  last : Nat
  assumption : Option Sentence
  result : Option Sentence
deriving DecidableEq, Repr

namespace Outline

/-! ## Lines and scopes by number -/

def line? (o : Outline) (n : Nat) : Option Line := if n = 0 then none else o.lines[n - 1]?

def hasLine (o : Outline) (n : Nat) : Bool := 1 ≤ n && n ≤ o.size

def line (o : Outline) (n : Nat) : Except Missing Line :=
  match o.line? n with
  | some l => .ok l
  | none => .error (.line n)

def scope (o : Outline) (id : Nat) : Except Missing Scope :=
  match o.scopes[id]? with
  | some s => .ok s
  | none => .error (.scope id)

/-- The innermost scope of a line; an assumption stands in the subproof that it opens. -/
def scopeOf (o : Outline) (n : Nat) : Except Missing Scope :=
  match if n = 0 then none else o.homes[n - 1]? with
  | some id => o.scope id
  | none => .error (.home n)

/-- The scope and those around it, innermost first. -/
def ancestors (o : Outline) (s : Scope) : List Scope := s.enclosing.filterMap (o.scopes[·]?)

def parent? (o : Outline) (s : Scope) : Option Scope := s.parent?.bind (o.scopes[·]?)

def subproofs (o : Outline) : List Scope := o.scopes.filter fun s => !s.isRoot

/-- The subproof with exactly these first and last lines. -/
def subproofAt (o : Outline) (first last : Nat) : Option Scope :=
  o.subproofs.find? fun s => s.first = first && s.last = last

/-- The place of a line among the items of its scope. -/
def indexOf (o : Outline) (n : Nat) : Except Missing Nat := do
  let s ← o.scopeOf n
  return s.items.idxOf (.line n)

/-! ## Summaries -/

def sentenceAt? (o : Outline) (n : Nat) : Option Sentence := (o.line? n).bind Line.sentence?

def isMarkerAt (o : Outline) (n : Nat) : Bool := (o.line? n).any Line.isMarker

/-- The outward face of a scope. -/
def summary (o : Outline) (s : Scope) : Except Missing Summary := do
  let opener ← o.line s.first
  let assumption := if opener.isMarker then none else opener.sentence?
  let result :=
    match s.items.getLast? with
    | some (.line n) => if n = s.first && opener.isMarker then none else o.sentenceAt? n
    | _ => none
  return ⟨s.kind, s.first, s.last, assumption, result⟩

/-- Every subproof has an assumption but the strict one that the lone box opens. -/
def hasAssumption (o : Outline) (s : Scope) : Bool := !s.isRoot && !o.isMarkerAt s.first

/-! ## Visibility -/

def lineVisible (o : Outline) (citing target : Nat) : Except Missing Bool :=
  if o.hasLine target && target < citing then do
    let there ← o.scopeOf target
    let here ← o.scopeOf citing
    return there.encloses here
  else .ok false

/-- A subproof can be seen once it is closed, from the scope that it stands in and from deeper
ones. -/
def subproofVisible (o : Outline) (citing : Nat) (s : Scope) : Except Missing Bool :=
  if s.isRoot || citing ≤ s.last then .ok false
  else do
    let here ← o.scopeOf citing
    if s.encloses here then return false
    match o.parent? s with
    | some parent => return parent.encloses here
    | none => return false

/-- The lines and the closed subproofs that a line can see, in document order. They are gathered
from the items of the scopes around the line. -/
def visibleFrom (o : Outline) (citing : Nat) : Except Missing (List Nat × List Scope) := do
  let here ← o.scopeOf citing
  let items := (o.ancestors here).flatMap Scope.items
  let lines := items.filterMap fun
    | .line n => if n < citing then some n else none
    | .scope _ => none
  let closed := items.filterMap fun
    | .line _ => none
    | .scope id => (o.scopes[id]?).filter (·.last < citing)
  return (lines.mergeSort (· ≤ ·), closed.mergeSort fun a b => a.first ≤ b.first)

/-- The subproofs around a line whose assumption is in force there, innermost first. -/
def hypothesesOver (o : Outline) (n : Nat) : Except Missing (List Scope) := do
  let here ← o.scopeOf n
  return (o.ancestors here).filter o.hasAssumption

end Outline

end ModalFitch
