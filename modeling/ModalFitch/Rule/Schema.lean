import ModalFitch.Pattern
import ModalFitch.Rule.Name

/-! Rules as data: each rule has schemas, and a schema has premise patterns and a conclusion
pattern. A free metavariable of the conclusion is bound by no premise; it takes its value from the
line that the rule justifies. -/

namespace ModalFitch
set_option autoImplicit false

/-- What a citation has to bring: a sentence of a shape, or a subproof of a shape. -/
inductive Premise where
  | line (pattern : Sentence)
  | subproof (pattern : SubproofPattern)
deriving DecidableEq, Repr

namespace Premise

def metavariables : Premise → List String
  | .line p => p.metavariables
  | .subproof p => p.metavariables

def render : Premise → String
  | .line p => p.render
  | .subproof p => p.render

end Premise

structure Schema where
  premises : List Premise
  conclusion : Sentence
  free : List String
deriving DecidableEq, Repr

/-- A conclusion with metavariables that are neither bound by a premise nor free. -/
structure UnboundConclusion where
  conclusion : Sentence
  names : List String
deriving DecidableEq, Repr

def UnboundConclusion.message (e : UnboundConclusion) : String :=
  let names := ", ".intercalate (e.names.map fun (name : String) => Text.quoted name)
  s!"Conclusion {e.conclusion.render} uses unbound metavariables [{names}]"

namespace Schema

/-- The metavariables that the premises bind. -/
def bound (s : Schema) : List String := s.premises.flatMap Premise.metavariables

/-- The metavariables of the conclusion that nothing binds, in order. -/
def unbound (s : Schema) : List String :=
  Sentence.sortedNames <| s.conclusion.metavariables.filter fun name =>
    !s.bound.contains name && !s.free.contains name

/-- A schema whose conclusion has no unbound metavariable. -/
def make (premises : List Premise) (conclusion : Sentence) (free : List String) :
    Except UnboundConclusion Schema :=
  let s : Schema := ⟨premises, conclusion, free⟩
  if s.unbound.isEmpty then .ok s else .error ⟨conclusion, s.unbound⟩

def render (s : Schema) : String :=
  let premises := ", ".intercalate (s.premises.map Premise.render)
  if premises.isEmpty then s!"⊢ {s.conclusion.render}"
  else s!"{premises} ⊢ {s.conclusion.render}"

end Schema

/-- How the conclusion of a rule is compared with the line: as it stands, or also with the two
sides of its main connective exchanged. -/
inductive Equivalence where
  | structural
  | commuted
deriving DecidableEq, Repr

def Equivalence.name : Equivalence → String
  | .structural => "structural"
  | .commuted => "commuted"

def Equivalence.ofName? (name : String) : Option Equivalence :=
  [Equivalence.structural, .commuted].find? (·.name = name)

/-- Where the lines that a rule cites may stand: in view and in the same world, or in any world
that the modal system grants access to. -/
inductive Transfer where
  | within
  | across
deriving DecidableEq, Repr

def Transfer.name : Transfer → String
  | .within => "local"
  | .across => "import"

structure RuleDefinition where
  rule : RuleId
  ruleset : RuleSet
  description : String
  schemas : List Schema
  equivalence : Equivalence := .structural
  /-- Whether the citations may come in any order. -/
  unordered : Bool := false
  transfer : Transfer := .within
  /-- Whether the cited strict subproof must not draw on lines outside it. -/
  worldClosed : Bool := false
deriving DecidableEq, Repr

namespace RuleDefinition

def label (d : RuleDefinition) : String := d.rule.label

/-- The numbers of citations that the schemas take, in rising order. -/
def arities (d : RuleDefinition) : List Nat :=
  (d.schemas.map fun s => s.premises.length).eraseDups.mergeSort (· ≤ ·)

end RuleDefinition

end ModalFitch
