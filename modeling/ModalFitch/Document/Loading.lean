import ModalFitch.Config
import ModalFitch.Document.Rows

/-! A proof document with its settings, from a JSON object. -/

namespace ModalFitch
set_option autoImplicit false

/-- A proof and the logic that it is meant to be checked under. -/
structure ProofFile where
  document : Document
  config : Config
deriving Repr

inductive LoadError where
  | notObject
  | noLines
  | rows (e : RowsError)
  | config (e : ConfigError)
deriving Repr

/-- The lines come first, then the goal, which is dropped where it counts as false, then the
settings. -/
def ProofFile.ofJson : Json → Except LoadError ProofFile
  | .obj fields => do
    match Json.lookup "lines" fields with
    | some (.arr rows) =>
      let goal := (Json.lookup "goal" fields).getD .null
      let document ← (Document.ofRows rows (if goal.isTrue then goal else .null)).mapError .rows
      let config ← (Config.ofJson (.obj fields)).mapError .config
      return ⟨document, config⟩
    | _ => .error .noLines
  | _ => .error .notObject

namespace LoadError

def message : LoadError → String
  | .notObject => "Document must be a JSON object"
  | .noLines => "Document has no 'lines' list"
  | .rows e => e.message
  | .config e => e.message

/-- Whether an error is a fault of the document that is reported to its reader. A value of the
wrong shape, or a depth without bound, stops the work instead. -/
def isReported : LoadError → Bool
  | .rows (.row .shape) | .rows (.row (.depth .shape)) | .rows (.row (.depth .infinite))
  | .config .notText | .config .notObject => false
  | _ => true

end LoadError

end ModalFitch
