import ModalFitch.Outline.Visibility

/-! Rule patterns: sentences whose leaves are metavariables, and the subproof shapes made of them.

* `Sentence.matchWith`: the bindings that make a pattern a given sentence, beyond those already
  made. The marker and metavariables are never bound.
* `Sentence.instantiate`: a pattern with its metavariables replaced. -/

namespace ModalFitch
set_option autoImplicit false

/-- The sentences that metavariables stand for, by name. -/
abbrev Bindings : Type := List (String × Sentence)

namespace Bindings

def find? (b : Bindings) (name : String) : Option Sentence := List.lookup name b

end Bindings

/-- A metavariable without a binding. -/
structure Unbound where
  name : String
deriving DecidableEq, Repr

def Unbound.message (e : Unbound) : String := s!"Metavariable '{e.name}' is unbound"

namespace Sentence

/-- Whether a metavariable may stand for the sentence. -/
def bindable : Sentence → Bool
  | .marker | .metavar _ => false
  | _ => true

/-- The bindings under which the pattern is the sentence, if any: the given ones and a new one for
each further metavariable. -/
def matchWith : Sentence → Sentence → Bindings → Option Bindings
  | .metavar name, s, b =>
    if s.bindable then
      match b.find? name with
      | none => some (b ++ [(name, s)])
      | some t => if t = s then some b else none
    else none
  | .unary op p, .unary op' s, b => if op = op' then p.matchWith s b else none
  | .binary op p q, .binary op' s t, b =>
    if op = op' then
      match p.matchWith s b with
      | some b => q.matchWith t b
      | none => none
    else none
  | .atom name, .atom name', b => if name = name' then some b else none
  | .bottom, .bottom, b => some b
  | .marker, .marker, b => some b
  | _, _, _ => none

/-- The pattern with every bound metavariable replaced, the others kept. -/
def instantiatePartial (b : Bindings) : Sentence → Sentence
  | .metavar name => (b.find? name).getD (.metavar name)
  | .unary op p => .unary op (p.instantiatePartial b)
  | .binary op p q => .binary op (p.instantiatePartial b) (q.instantiatePartial b)
  | s => s

/-- The pattern with all its metavariables replaced. -/
def instantiate (b : Bindings) : Sentence → Except Unbound Sentence
  | .metavar name =>
    match b.find? name with
    | some s => .ok s
    | none => .error ⟨name⟩
  | .unary op p => do
    let s ← p.instantiate b
    return .unary op s
  | .binary op p q => do
    let s ← p.instantiate b
    let t ← q.instantiate b
    return .binary op s t
  | s => .ok s

end Sentence

/-- The shape of a subproof. Without an assumption it is a strict one that the lone box opens. -/
structure SubproofPattern where
  result : Sentence
  assumption : Option Sentence
  kind : ScopeKind
deriving DecidableEq, Repr

namespace SubproofPattern

def metavariables (p : SubproofPattern) : List String :=
  p.result.metavariables ++ (p.assumption.map Sentence.metavariables).getD []

def render (p : SubproofPattern) : String :=
  let opener := (p.assumption.map Sentence.render).getD "□"
  s!"[{opener} … {p.result.render}]"

/-- The bindings under which the pattern has the kind, the assumption and the result of a
subproof. -/
def matchWith (p : SubproofPattern) (s : Summary) (b : Bindings) : Option Bindings :=
  if s.kind = p.kind then
    match p.assumption, s.assumption, s.result with
    | none, none, some result => p.result.matchWith result b
    | some pattern, some assumption, some result =>
      match pattern.matchWith assumption b with
      | some b => p.result.matchWith result b
      | none => none
    | _, _, _ => none
  else none

end SubproofPattern

end ModalFitch
