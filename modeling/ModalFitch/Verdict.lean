import ModalFitch.CheckError

/-! The verdict on a line: not yet checked, valid by a rule, or invalid for a reason. -/

namespace ModalFitch
set_option autoImplicit false

inductive Status where
  | unchecked
  | valid
  | invalid
deriving DecidableEq, Repr

namespace Status

def all : List Status := [.unchecked, .valid, .invalid]

def name : Status → String
  | .unchecked => "unchecked"
  | .valid => "valid"
  | .invalid => "invalid"

def ofName? (name : String) : Option Status := all.find? (·.name = name)

end Status

/-- A valid line names its rule, unless it is the lone box without a label. An invalid line keeps
its label as written. -/
inductive Verdict where
  | unchecked
  | valid (rule : Option RuleId)
  | invalid (label : Option Text) (error : CheckError)
deriving DecidableEq, Repr

namespace Verdict

def status : Verdict → Status
  | .unchecked => .unchecked
  | .valid _ => .valid
  | .invalid _ _ => .invalid

def isValid (v : Verdict) : Bool := v.status = .valid

def isInvalid (v : Verdict) : Bool := v.status = .invalid

def ruleText : Verdict → Option Text
  | .unchecked => none
  | .valid rule => rule.map fun r => r.label
  | .invalid label _ => label

def error? : Verdict → Option CheckError
  | .invalid _ e => some e
  | .unchecked | .valid _ => none

end Verdict

structure Diagnostic where
  number : Nat
  verdict : Verdict
deriving DecidableEq, Repr

namespace Diagnostic

def status (d : Diagnostic) : Status := d.verdict.status

def isValid (d : Diagnostic) : Bool := d.verdict.isValid

def isInvalid (d : Diagnostic) : Bool := d.verdict.isInvalid

def toJson (d : Diagnostic) : Json :=
  let error := d.verdict.error?
  .obj [("line", .int d.number), ("status", .str d.status.name),
    ("rule", (d.verdict.ruleText.map Json.str).getD .null),
    ("reason", (error.map fun e => Json.str e.reason.name).getD .null),
    ("message", .str ((error.map CheckError.text).getD "")),
    ("citation_index", ((error.bind CheckError.index).map Json.int).getD .null)]

end Diagnostic

end ModalFitch
