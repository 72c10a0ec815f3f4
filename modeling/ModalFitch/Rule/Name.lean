import ModalFitch.Line
import ModalFitch.Sentence.Token

/-! The rules and the names under which proofs may cite them.

A rule is cited by its label, by the label with another spelling of its operator, or by one of its
long names; case and blanks around the name do not count. -/

namespace ModalFitch
set_option autoImplicit false

inductive RuleSet where
  | tflBasic
  | tflDerived
  | modalK
  | modalT
  | modalS4
  | modalS5
deriving DecidableEq, Repr

namespace RuleSet

def name : RuleSet → String
  | .tflBasic => "tfl_basic"
  | .tflDerived => "tfl_derived"
  | .modalK => "modal_k"
  | .modalT => "modal_t"
  | .modalS4 => "modal_s4"
  | .modalS5 => "modal_s5"

def ofName? (name : String) : Option RuleSet :=
  [RuleSet.tflBasic, .tflDerived, .modalK, .modalT, .modalS4, .modalS5].find? (·.name = name)

end RuleSet

inductive RuleId where
  | premise
  | placeholder
  | reiteration
  | andIntro
  | andElim
  | orIntro
  | orElim
  | conditionalIntro
  | conditionalElim
  | biconditionalIntro
  | biconditionalElim
  | negIntro
  | negElim
  | indirectProof
  | explosion
  | disjunctiveSyllogism
  | modusTollens
  | doubleNegationElim
  | excludedMiddle
  | deMorgan
  | necessityIntro
  | necessityElim
  | possibilityDef
  | modalConversion
  | possibilityIntro
  | possibilityElim
  | reflexivity
  | transitivity
  | euclidean
deriving DecidableEq, Repr

namespace RuleId

def all : List RuleId :=
  [.premise, .placeholder, .reiteration, .andIntro, .andElim, .orIntro, .orElim,
    .conditionalIntro, .conditionalElim, .biconditionalIntro, .biconditionalElim, .negIntro,
    .negElim, .indirectProof, .explosion, .disjunctiveSyllogism, .modusTollens,
    .doubleNegationElim, .excludedMiddle, .deMorgan, .necessityIntro, .necessityElim,
    .possibilityDef, .modalConversion, .possibilityIntro, .possibilityElim, .reflexivity,
    .transitivity, .euclidean]

/-- The label that is shown. -/
def label : RuleId → String
  | .premise => "PR"
  | .placeholder => "PH"
  | .reiteration => "R"
  | .andIntro => "∧I"
  | .andElim => "∧E"
  | .orIntro => "∨I"
  | .orElim => "∨E"
  | .conditionalIntro => "→I"
  | .conditionalElim => "→E"
  | .biconditionalIntro => "↔I"
  | .biconditionalElim => "↔E"
  | .negIntro => "¬I"
  | .negElim => "¬E"
  | .indirectProof => "IP"
  | .explosion => "X"
  | .disjunctiveSyllogism => "DS"
  | .modusTollens => "MT"
  | .doubleNegationElim => "DNE"
  | .excludedMiddle => "LEM"
  | .deMorgan => "DeM"
  | .necessityIntro => "□I"
  | .necessityElim => "□E"
  | .possibilityDef => "Def◇"
  | .modalConversion => "MC"
  | .possibilityIntro => "◇I"
  | .possibilityElim => "◇E"
  | .reflexivity => "RT"
  | .transitivity => "R4"
  | .euclidean => "R5"

/-- The name in capitals, with underscores between its words. -/
def capitalName : RuleId → String
  | .premise => "PREMISE"
  | .placeholder => "PLACEHOLDER"
  | .reiteration => "REITERATION"
  | .andIntro => "AND_INTRO"
  | .andElim => "AND_ELIM"
  | .orIntro => "OR_INTRO"
  | .orElim => "OR_ELIM"
  | .conditionalIntro => "CONDITIONAL_INTRO"
  | .conditionalElim => "CONDITIONAL_ELIM"
  | .biconditionalIntro => "BICONDITIONAL_INTRO"
  | .biconditionalElim => "BICONDITIONAL_ELIM"
  | .negIntro => "NEG_INTRO"
  | .negElim => "NEG_ELIM"
  | .indirectProof => "INDIRECT_PROOF"
  | .explosion => "EXPLOSION"
  | .disjunctiveSyllogism => "DISJUNCTIVE_SYLLOGISM"
  | .modusTollens => "MODUS_TOLLENS"
  | .doubleNegationElim => "DOUBLE_NEGATION_ELIM"
  | .excludedMiddle => "EXCLUDED_MIDDLE"
  | .deMorgan => "DE_MORGAN"
  | .necessityIntro => "NECESSITY_INTRO"
  | .necessityElim => "NECESSITY_ELIM"
  | .possibilityDef => "POSSIBILITY_DEF"
  | .modalConversion => "MODAL_CONVERSION"
  | .possibilityIntro => "POSSIBILITY_INTRO"
  | .possibilityElim => "POSSIBILITY_ELIM"
  | .reflexivity => "REFLEXIVITY"
  | .transitivity => "TRANSITIVITY"
  | .euclidean => "EUCLIDEAN"

/-- The long names, and a few customary short ones. -/
def longNames : RuleId → List String
  | .premise => premiseLabels
  | .placeholder => ["Placeholder"]
  | .reiteration => ["Reiteration", "Reit"]
  | .andIntro => ["AndIntro"]
  | .andElim => ["AndElim"]
  | .orIntro => ["OrIntro"]
  | .orElim => ["OrElim"]
  | .conditionalIntro => ["ConditionalIntro", "CP"]
  | .conditionalElim => ["ConditionalElim", "MP"]
  | .biconditionalIntro => ["BiconditionalIntro"]
  | .biconditionalElim => ["BiconditionalElim"]
  | .negIntro => ["NegIntro"]
  | .negElim => ["NegElim"]
  | .indirectProof => ["IndirectProof"]
  | .explosion => ["Explosion"]
  | .disjunctiveSyllogism => ["DisjunctiveSyllogism"]
  | .modusTollens => ["ModusTollens"]
  | .doubleNegationElim => ["DoubleNegationElim"]
  | .excludedMiddle => ["ExcludedMiddle"]
  | .deMorgan => ["DeMorgan"]
  | .necessityIntro => ["NecessityIntro"]
  | .necessityElim => ["NecessityElim"]
  | .possibilityDef => ["PossibilityDef"]
  | .modalConversion => ["ModalConversion"]
  | .possibilityIntro => ["PossibilityIntro"]
  | .possibilityElim => ["PossibilityElim"]
  | .reflexivity | .transitivity | .euclidean => []

/-- A label cut at its operator: what stands before it, its spellings, and what stands after. -/
def operatorParts? : RuleId → Option (String × List (List Char) × String)
  | .andIntro => some ("", BinaryOp.con.spellings, "I")
  | .andElim => some ("", BinaryOp.con.spellings, "E")
  | .orIntro => some ("", BinaryOp.dis.spellings, "I")
  | .orElim => some ("", BinaryOp.dis.spellings, "E")
  | .conditionalIntro => some ("", BinaryOp.imp.spellings, "I")
  | .conditionalElim => some ("", BinaryOp.imp.spellings, "E")
  | .biconditionalIntro => some ("", BinaryOp.bic.spellings, "I")
  | .biconditionalElim => some ("", BinaryOp.bic.spellings, "E")
  | .negIntro => some ("", UnaryOp.neg.spellings, "I")
  | .negElim => some ("", UnaryOp.neg.spellings, "E")
  | .necessityIntro => some ("", UnaryOp.nec.spellings, "I")
  | .necessityElim => some ("", UnaryOp.nec.spellings, "E")
  | .possibilityDef => some ("Def", UnaryOp.pos.spellings, "")
  | .possibilityIntro => some ("", UnaryOp.pos.spellings, "I")
  | .possibilityElim => some ("", UnaryOp.pos.spellings, "E")
  | _ => none

/-- Every name of a rule. -/
def names (r : RuleId) : List String :=
  r.label :: r.capitalName :: r.longNames ++
    match r.operatorParts? with
    | none => []
    | some (before, spellings, after) =>
      spellings.map fun spelling => before ++ String.ofList spelling ++ after

/-- Every name of every rule, folded. -/
def aliases : List (Text × RuleId) :=
  all.flatMap fun r => r.names.map fun (name : String) => (Text.folded name, r)

/-- The rule that a label as written names. -/
def lookup (label : Text) : Option RuleId := List.lookup label.folded aliases

end RuleId

end ModalFitch
