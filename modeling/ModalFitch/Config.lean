import ModalFitch.Json.Basic
import ModalFitch.System

/-! The logic that a proof is checked under: a modal system or none, with or without the derived
rules of truth-functional logic. -/

namespace ModalFitch
set_option autoImplicit false

structure Config where
  system : Option ModalSystem
  derived : Bool
deriving DecidableEq, Repr

/-- Why settings cannot be read: they are no object, or the system's name is no text or unknown. -/
inductive ConfigError where
  | notObject
  | notText
  | system (e : UnknownSystem)
deriving DecidableEq, Repr

def ConfigError.message : ConfigError → String
  | .notObject => "Settings must be an object"
  | .notText => "The name of a modal system must be a text"
  | .system e => e.message

namespace Config

/-- Truth-functional logic with the derived rules. -/
def standard : Config := ⟨none, true⟩

/-- The rule sets that are enabled. -/
def rulesets (c : Config) : List RuleSet :=
  .tflBasic :: (if c.derived then [.tflDerived] else []) ++
    match c.system with
    | some s => s.rulesets
    | none => []

def name (c : Config) : String :=
  let base := if c.derived then "TFL" else "TFL (basic)"
  match c.system with
  | some s => s!"{base} + {s.name}"
  | none => base

/-- The system that a setting names; a setting that counts as false names none. -/
def readSystem (setting : Json) : Except ConfigError (Option ModalSystem) :=
  if setting.isTrue then
    match setting with
    | .str s => (ModalSystem.read s).map some |>.mapError .system
    | _ => .error .notText
  else .ok none

/-- The settings of a document; the derived rules are on unless it says otherwise. -/
def ofJson : Json → Except ConfigError Config
  | .obj fields => do
    let system ← readSystem ((Json.lookup "system" fields).getD .null)
    return ⟨system, ((Json.lookup "derived" fields).getD (.bool true)).isTrue⟩
  | _ => .error .notObject

def toJson (c : Config) : Json :=
  .obj [("system", (c.system.map fun s => Json.str s.name).getD .null), ("derived", .bool c.derived)]

/-- Settings with another system, where one is named, and with the derived rules off on demand. -/
def override (c : Config) (system : Json) (noDerived : Bool) : Except ConfigError Config := do
  let named ← readSystem system
  let chosen := match named with
    | some s => some s
    | none => c.system
  return ⟨chosen, c.derived && !noDerived⟩

end Config

end ModalFitch
