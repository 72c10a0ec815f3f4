import ModalFitch.Rule.Schema

/-! The rules of truth-functional logic and of the modal systems. -/

namespace ModalFitch.Catalog
set_option autoImplicit false

/-! ## Patterns -/

def a : Sentence := .metavar "A"
def b : Sentence := .metavar "B"
def c : Sentence := .metavar "C"

/-- An ordinary subproof from an assumption to a result. -/
def sub (assumption result : Sentence) : Premise := .subproof ⟨result, some assumption, .ordinary⟩

/-- A strict subproof that the lone box opens. -/
def strict (result : Sentence) : Premise := .subproof ⟨result, none, .modal⟩

/-- A strict subproof from an assumption to a result. -/
def possible (assumption result : Sentence) : Premise := .subproof ⟨result, some assumption, .modal⟩

/-- A schema without free metavariables. -/
def infer (premises : List Premise) (conclusion : Sentence) : Schema := ⟨premises, conclusion, []⟩

/-! ## Truth-functional logic -/

def basicRules : List RuleDefinition := [
  { rule := .premise, ruleset := .tflBasic
    description := "Premise, or assumption opening a subproof"
    schemas := [] },
  { rule := .placeholder, ruleset := .tflBasic
    description := "Accept the line unchecked while working elsewhere in the proof"
    schemas := [] },
  { rule := .reiteration, ruleset := .tflBasic
    description := "Repeat an available line"
    schemas := [infer [.line a] a] },
  { rule := .andIntro, ruleset := .tflBasic
    description := "Conjunction introduction"
    schemas := [infer [.line a, .line b] (.con a b)]
    unordered := true },
  { rule := .andElim, ruleset := .tflBasic
    description := "Conjunction elimination"
    schemas := [infer [.line (.con a b)] a, infer [.line (.con a b)] b] },
  { rule := .orIntro, ruleset := .tflBasic
    description := "Disjunction introduction"
    schemas := [⟨[.line a], .dis a b, ["B"]⟩]
    equivalence := .commuted },
  { rule := .orElim, ruleset := .tflBasic
    description := "Disjunction elimination (proof by cases)"
    schemas := [infer [.line (.dis a b), sub a c, sub b c] c]
    unordered := true },
  { rule := .conditionalIntro, ruleset := .tflBasic
    description := "Conditional introduction"
    schemas := [infer [sub a b] (.imp a b)] },
  { rule := .conditionalElim, ruleset := .tflBasic
    description := "Conditional elimination (modus ponens)"
    schemas := [infer [.line (.imp a b), .line a] b]
    unordered := true },
  { rule := .biconditionalIntro, ruleset := .tflBasic
    description := "Biconditional introduction"
    schemas := [infer [sub a b, sub b a] (.bic a b)]
    unordered := true },
  { rule := .biconditionalElim, ruleset := .tflBasic
    description := "Biconditional elimination"
    schemas := [infer [.line (.bic a b), .line a] b, infer [.line (.bic a b), .line b] a]
    unordered := true },
  { rule := .negIntro, ruleset := .tflBasic
    description := "Negation introduction"
    schemas := [infer [sub a .bottom] (.neg a)] },
  { rule := .negElim, ruleset := .tflBasic
    description := "Negation elimination"
    schemas := [infer [.line (.neg a), .line a] .bottom]
    unordered := true },
  { rule := .indirectProof, ruleset := .tflBasic
    description := "Indirect proof"
    schemas := [infer [sub (.neg a) .bottom] a] },
  { rule := .explosion, ruleset := .tflBasic
    description := "Explosion"
    schemas := [⟨[.line .bottom], a, ["A"]⟩] }]

def derivedRules : List RuleDefinition := [
  { rule := .disjunctiveSyllogism, ruleset := .tflDerived
    description := "Disjunctive syllogism"
    schemas := [infer [.line (.dis a b), .line (.neg a)] b,
      infer [.line (.dis a b), .line (.neg b)] a]
    unordered := true },
  { rule := .modusTollens, ruleset := .tflDerived
    description := "Modus tollens"
    schemas := [infer [.line (.imp a b), .line (.neg b)] (.neg a)]
    unordered := true },
  { rule := .doubleNegationElim, ruleset := .tflDerived
    description := "Double negation elimination"
    schemas := [infer [.line (.neg (.neg a))] a] },
  { rule := .excludedMiddle, ruleset := .tflDerived
    description := "Tertium non datur"
    schemas := [infer [sub a b, sub (.neg a) b] b]
    unordered := true },
  { rule := .deMorgan, ruleset := .tflDerived
    description := "De Morgan's laws"
    schemas := [infer [.line (.neg (.dis a b))] (.con (.neg a) (.neg b)),
      infer [.line (.con (.neg a) (.neg b))] (.neg (.dis a b)),
      infer [.line (.neg (.con a b))] (.dis (.neg a) (.neg b)),
      infer [.line (.dis (.neg a) (.neg b))] (.neg (.con a b))] }]

/-! ## Modal logic -/

def modalRulesK : List RuleDefinition := [
  { rule := .necessityIntro, ruleset := .modalK
    description := "Necessity introduction from a strict subproof"
    schemas := [infer [strict a] (.nec a)]
    worldClosed := true },
  { rule := .necessityElim, ruleset := .modalK
    description := "Necessity elimination into an accessible world"
    schemas := [infer [.line (.nec a)] a]
    transfer := .across },
  { rule := .possibilityDef, ruleset := .modalK
    description := "Definition of possibility"
    schemas := [infer [.line (.pos a)] (.neg (.nec (.neg a))),
      infer [.line (.neg (.nec (.neg a)))] (.pos a)] },
  { rule := .modalConversion, ruleset := .modalK
    description := "Modal conversion"
    schemas := [infer [.line (.neg (.nec a))] (.pos (.neg a)),
      infer [.line (.pos (.neg a))] (.neg (.nec a)),
      infer [.line (.neg (.pos a))] (.nec (.neg a)),
      infer [.line (.nec (.neg a))] (.neg (.pos a))] },
  { rule := .possibilityElim, ruleset := .modalK
    description := "Possibility elimination through a modal subproof"
    schemas := [infer [.line (.pos a), possible a b] (.pos b)]
    worldClosed := true }]

def modalRulesT : List RuleDefinition := [
  { rule := .reflexivity, ruleset := .modalT
    description := "Necessity holds in the current world"
    schemas := [infer [.line (.nec a)] a] },
  { rule := .possibilityIntro, ruleset := .modalT
    description := "What is true is possible"
    schemas := [infer [.line a] (.pos a)] }]

def modalRulesS4 : List RuleDefinition := [
  { rule := .transitivity, ruleset := .modalS4
    description := "Carry a necessity into any accessible world"
    schemas := [infer [.line (.nec a)] (.nec a)]
    transfer := .across }]

def modalRulesS5 : List RuleDefinition := [
  { rule := .euclidean, ruleset := .modalS5
    description := "Carry a non-necessity or possibility into any world"
    schemas := [infer [.line (.neg (.nec a))] (.neg (.nec a)), infer [.line (.pos a)] (.pos a)]
    transfer := .across }]

/-! ## Look-up -/

def definitions : List RuleDefinition :=
  basicRules ++ derivedRules ++ modalRulesK ++ modalRulesT ++ modalRulesS4 ++ modalRulesS5

/-- The rules of some rule sets, in the order of the catalog. -/
def rulesIn (rulesets : List RuleSet) : List RuleDefinition :=
  definitions.filter fun d => rulesets.contains d.ruleset

/-- The definitions of a rule in some rule sets, in the order of the rule sets. -/
def definitionsFor (rule : RuleId) (rulesets : List RuleSet) : List RuleDefinition :=
  rulesets.filterMap fun set => definitions.find? fun d => d.ruleset = set && d.rule = rule

def definitionOf? (rule : RuleId) : Option RuleDefinition :=
  definitions.find? fun d => d.rule = rule

end ModalFitch.Catalog
