import ModalFitch.Config
import ModalFitch.Rule.Schema

/-! Why a line is not accepted. Every cause belongs to one of seven reasons, has one wording, and
may point at a citation of the line. -/

namespace ModalFitch
set_option autoImplicit false

inductive Reason where
  /-- The sentence text is malformed. -/
  | parseError
  /-- A citation names a line or a subproof that does not exist. -/
  | unresolvedCitation
  /-- A citation names something that the line cannot see. -/
  | outOfScope
  /-- No enabled rule fits. -/
  | noMatchingRule
  /-- The premises fit, but the rule yields another sentence. -/
  | conclusionMismatch
  /-- A demand on worlds is not met. -/
  | modalScopeViolation
  /-- A cited line, or a line of a cited subproof, is invalid. -/
  | dependsOnInvalid
deriving DecidableEq, Repr

def Reason.name : Reason → String
  | .parseError => "parse_error"
  | .unresolvedCitation => "unresolved_citation"
  | .outOfScope => "out_of_scope"
  | .noMatchingRule => "no_matching_rule"
  | .conclusionMismatch => "conclusion_mismatch"
  | .modalScopeViolation => "modal_scope_violation"
  | .dependsOnInvalid => "depends_on_invalid"

inductive CheckCause where
  -- the line itself
  | sentence (e : ParseError)
  | justification (e : JustificationError)
  | unknownRule (label : Text)
  | unavailable (rule : RuleId) (config : Config)
  | assumptionRule (rule : RuleId)
  | markerPlace
  | markerRule (label : Text)
  | premiseCitations
  | latePremise
  | innerPremise
  -- what it cites
  | noLine (target : Nat)
  | notBefore (target number : Nat)
  | noSubproof (cited : Citation)
  | subproofHidden (cited : Citation) (number : Int)
  | subproofElsewhere (cited : Citation)
  | outsideStrict (target : Nat)
  | insideSubproof (target number : Nat)
  | otherWorld (target : Nat)
  | assumptionNotInForce (target first number : Nat)
  | noSystem
  | notReflexive (system : ModalSystem) (target : Nat)
  | inaccessible (there here : Nat) (system : ModalSystem)
  | invalidLine (cited : Nat)
  | leak (inner outer : Nat) (cited : Citation)
  -- the rule
  | arity (rule : RuleId) (expected : List Nat) (got : Nat)
  | material (rule : RuleId) (schemas : List Schema)
  | conclusion (rule : RuleId) (expected actual : Sentence)
deriving DecidableEq, Repr

namespace CheckCause

def reason : CheckCause → Reason
  | .sentence _ => .parseError
  | .justification .missingRule => .noMatchingRule
  | .justification _ => .unresolvedCitation
  | .unknownRule _ | .unavailable _ _ | .assumptionRule _ | .markerPlace | .markerRule _
  | .premiseCitations | .latePremise | .innerPremise => .noMatchingRule
  | .noLine _ | .noSubproof _ => .unresolvedCitation
  | .notBefore _ _ | .subproofHidden _ _ | .insideSubproof _ _
  | .assumptionNotInForce _ _ _ => .outOfScope
  | .subproofElsewhere _ | .outsideStrict _ | .otherWorld _ | .noSystem | .notReflexive _ _
  | .inaccessible _ _ _ | .leak _ _ _ => .modalScopeViolation
  | .invalidLine _ => .dependsOnInvalid
  | .arity _ _ _ | .material _ _ => .noMatchingRule
  | .conclusion _ _ _ => .conclusionMismatch

/-- The wording of a cause, up to a label at its end. -/
def wording : CheckCause → String
  | .sentence e => e.text
  | .justification e => e.text
  | .unknownRule label => s!"Unknown rule {Text.quoted label}"
  | .unavailable rule config => s!"{rule.label} is not available in {config.name}"
  | .assumptionRule rule => s!"An assumption must be justified as PR, not {rule.label}"
  | .markerPlace => "A bare □ may only open a strict subproof"
  | .markerRule _ => "A strict subproof opens with □ alone or PR, not "
  | .premiseCitations => "PR takes no citations"
  | .latePremise => "Premises must come before every other line of the main proof"
  | .innerPremise => "Inside a subproof only its first line may be PR"
  | .noLine target => s!"Line {target} does not exist"
  | .notBefore target number => s!"Line {target} does not come before line {number}"
  | .noSubproof cited => s!"Lines {cited.text} are not exactly one subproof"
  | .subproofHidden cited number => s!"Subproof {cited.text} is not available at line {number}"
  | .subproofElsewhere cited => s!"Subproof {cited.text} was opened in another world"
  | .outsideStrict target =>
    s!"Line {target} lies outside the strict subproof; only modal rules carry it in"
  | .insideSubproof target number =>
    s!"Line {target} is inside a subproof that does not contain line {number}"
  | .otherWorld target => s!"Line {target} belongs to another world"
  | .assumptionNotInForce target first number =>
    s!"Line {target} depends on the assumption on line {first}, " ++
      s!"which is not in force at line {number}"
  | .noSystem => "No modal system is selected"
  | .notReflexive system target =>
    s!"{system.name} is not reflexive: line {target} is in the same world"
  | .inaccessible there here system =>
    s!"World w{there} is not accessible from w{here} in {system.name}"
  | .invalidLine cited => s!"Cited line {cited} is invalid"
  | .leak inner outer cited =>
    s!"Line {inner} uses line {outer} from outside subproof {cited.text}"
  | .arity rule expected got =>
    let counts := " or ".intercalate (expected.map toString)
    s!"{rule.label} takes {counts} citation(s), got {got}"
  | .material rule schemas =>
    let shapes := " | ".intercalate (schemas.map Schema.render)
    s!"Cited material does not fit {rule.label} ({shapes})"
  | .conclusion rule expected actual =>
    s!"{rule.label} yields {expected.render}, not {actual.render}"

/-- The label at the end of the wording, as it is written in the line. -/
def label : CheckCause → Text
  | .markerRule label => label
  | _ => []

def text (c : CheckCause) : Text := Text.ofString c.wording ++ c.label

end CheckCause

/-- A cause with the citation that it points at; citations count from zero. -/
structure CheckError where
  cause : CheckCause
  index : Option Int
deriving DecidableEq, Repr

namespace CheckError

def reason (e : CheckError) : Reason := e.cause.reason

def text (e : CheckError) : Text := e.cause.text

def message (e : CheckError) : Text := Text.ofString s!"[{e.reason.name}] " ++ e.text

end CheckError

end ModalFitch
