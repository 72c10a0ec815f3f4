import ModalFitch.Rule.Name

/-! The modal systems and what they demand of accessibility. -/

namespace ModalFitch
set_option autoImplicit false

inductive ModalSystem where
  | k
  | t
  | s4
  | s5
deriving DecidableEq, Repr

namespace ModalSystem

def all : List ModalSystem := [.k, .t, .s4, .s5]

def name : ModalSystem → String
  | .k => "K"
  | .t => "T"
  | .s4 => "S4"
  | .s5 => "S5"

def reflexive : ModalSystem → Bool
  | .k => false
  | .t | .s4 | .s5 => true

def transitive : ModalSystem → Bool
  | .k | .t => false
  | .s4 | .s5 => true

def symmetric : ModalSystem → Bool
  | .k | .t | .s4 => false
  | .s5 => true

/-- The rule sets of a system: its own and those of the weaker ones. -/
def rulesets : ModalSystem → List RuleSet
  | .k => [.modalK]
  | .t => [.modalK, .modalT]
  | .s4 => [.modalK, .modalT, .modalS4]
  | .s5 => [.modalK, .modalT, .modalS4, .modalS5]

def ofName? (name : Text) : Option ModalSystem := all.find? fun s => Text.ofString s.name = name

end ModalSystem

/-- A name that no modal system has. -/
structure UnknownSystem where
  name : Text
deriving DecidableEq, Repr

def UnknownSystem.message (e : UnknownSystem) : String :=
  s!"Unknown modal system: {Text.quoted e.name} (expected K, T, S4 or S5)"

/-- The system of a name; case and blanks around it do not count. -/
def ModalSystem.read (name : Text) : Except UnknownSystem ModalSystem :=
  match ModalSystem.ofName? name.trim.uppered with
  | some s => .ok s
  | none => .error ⟨name⟩

end ModalFitch
