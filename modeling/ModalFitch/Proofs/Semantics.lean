import Mathlib.Logic.Basic
import ModalFitch.Config
import ModalFitch.Sentence.Valuation

/-! What sentences mean.

* `Interpretation`: the truth of sentences at points, with the truth-functional connectives read at
  the point itself.
* `KripkeModel.Satisfies`: truth at a state of a model, where box and diamond range over the states
  that can be seen.
* `Boolean`: a valuation of all sentences that respects the truth-functional connectives. On
  sentences without modal parts it is their value under the valuation of the atoms. -/

namespace ModalFitch
set_option autoImplicit false

universe u

/-! ## Interpretations -/

/-- Truth of sentences at points. Nothing is said of atoms, boxes and diamonds. -/
structure Interpretation where
  Point : Type u
  access : Point → Point → Prop
  holds : Point → Sentence → Prop
  bottom : ∀ x, ¬holds x .bottom
  neg : ∀ x s, holds x (.neg s) ↔ ¬holds x s
  con : ∀ x l r, holds x (.con l r) ↔ holds x l ∧ holds x r
  dis : ∀ x l r, holds x (.dis l r) ↔ holds x l ∨ holds x r
  imp : ∀ x l r, holds x (.imp l r) ↔ (holds x l → holds x r)
  bic : ∀ x l r, holds x (.bic l r) ↔ (holds x l ↔ holds x r)

namespace Interpretation

/-- Box and diamond range over the points that can be seen. -/
structure Modal (I : Interpretation.{u}) : Prop where
  nec : ∀ x s, I.holds x (.nec s) ↔ ∀ y, I.access x y → I.holds y s
  pos : ∀ x s, I.holds x (.pos s) ↔ ∃ y, I.access x y ∧ I.holds y s

theorem holds_variant (I : Interpretation.{u}) {x : I.Point} {s t : Sentence}
    (ht : t ∈ s.variants) : I.holds x t ↔ I.holds x s := by
  unfold Sentence.variants at ht
  split at ht
  · rename_i op l r
    cases op <;> simp only [BinaryOp.commutes, if_true, Bool.false_eq_true, if_false, List.mem_cons,
      List.not_mem_nil, or_false] at ht
    · rcases ht with rfl | rfl
      · exact Iff.rfl
      · rw [I.con, I.con]
        exact and_comm
    · rcases ht with rfl | rfl
      · exact Iff.rfl
      · rw [I.dis, I.dis]
        exact or_comm
    · rw [ht]
    · rcases ht with rfl | rfl
      · exact Iff.rfl
      · rw [I.bic, I.bic]
        exact iff_comm
  · rw [List.mem_singleton.mp ht]

end Interpretation

/-! ## Kripke models -/

structure KripkeModel where
  State : Type u
  access : State → State → Prop
  truth : State → String → Prop

namespace KripkeModel

/-- Truth at a state. The marker and metavariables name no proposition. -/
def Satisfies (M : KripkeModel.{u}) : M.State → Sentence → Prop
  | x, .atom name => M.truth x name
  | _, .metavar _ => False
  | _, .bottom => False
  | _, .marker => False
  | x, .unary .neg s => ¬M.Satisfies x s
  | x, .unary .nec s => ∀ y, M.access x y → M.Satisfies y s
  | x, .unary .pos s => ∃ y, M.access x y ∧ M.Satisfies y s
  | x, .binary .con l r => M.Satisfies x l ∧ M.Satisfies x r
  | x, .binary .dis l r => M.Satisfies x l ∨ M.Satisfies x r
  | x, .binary .imp l r => M.Satisfies x l → M.Satisfies x r
  | x, .binary .bic l r => M.Satisfies x l ↔ M.Satisfies x r

def interpretation (M : KripkeModel.{u}) : Interpretation.{u} where
  Point := M.State
  access := M.access
  holds := M.Satisfies
  bottom _ h := h
  neg _ _ := Iff.rfl
  con _ _ _ := Iff.rfl
  dis _ _ _ := Iff.rfl
  imp _ _ _ := Iff.rfl
  bic _ _ _ := Iff.rfl

theorem interpretation_modal (M : KripkeModel.{u}) : M.interpretation.Modal :=
  ⟨fun _ _ => Iff.rfl, fun _ _ => Iff.rfl⟩

end KripkeModel

/-- What a system demands of accessibility: nothing, reflexivity, also transitivity, or also
symmetry. -/
def ModalSystem.Frame {α : Type u} (access : α → α → Prop) : ModalSystem → Prop
  | .k => True
  | .t => ∀ x, access x x
  | .s4 => (∀ x, access x x) ∧ ∀ x y z, access x y → access y z → access x z
  | .s5 => (∀ x, access x x) ∧ (∀ x y z, access x y → access y z → access x z) ∧
      ∀ x y, access x y → access y x

namespace ModalSystem.Frame

variable {α : Type u} {access : α → α → Prop} {system : ModalSystem} (h : system.Frame access)
include h

theorem refl (hr : system.reflexive = true) (x : α) : access x x := by
  cases system with
  | k => cases hr
  | t => exact h x
  | s4 => exact h.1 x
  | s5 => exact h.1 x

theorem trans (ht : system.transitive = true) {x y z : α} (hxy : access x y) (hyz : access y z) :
    access x z := by
  cases system with
  | k => cases ht
  | t => cases ht
  | s4 => exact h.2 x y z hxy hyz
  | s5 => exact h.2.1 x y z hxy hyz

theorem symm (hs : system.symmetric = true) {x y : α} (hxy : access x y) : access y x := by
  cases system with
  | k => cases hs
  | t => cases hs
  | s4 => cases hs
  | s5 => exact h.2.2 x y hxy

end ModalSystem.Frame

/-- Where a modal system is set, box and diamond are read as such and accessibility is as the system
demands. -/
def Interpretation.Admits (I : Interpretation.{u}) (config : Config) : Prop :=
  ∀ system, config.system = some system → I.Modal ∧ system.Frame I.access

/-! ## Boolean valuations -/

/-- A valuation of all sentences that respects the truth-functional connectives; what it makes of
atoms, boxes and diamonds is free. -/
structure Boolean (v : Sentence → Bool) : Prop where
  bottom : v .bottom = false
  neg : ∀ s, v (.neg s) = !v s
  con : ∀ l r, v (.con l r) = (v l && v r)
  dis : ∀ l r, v (.dis l r) = (v l || v r)
  imp : ∀ l r, v (.imp l r) = (!v l || v r)
  bic : ∀ l r, v (.bic l r) = (v l == v r)

namespace Boolean

def interpretation {v : Sentence → Bool} (h : Boolean v) : Interpretation.{0} where
  Point := Unit
  access _ _ := True
  holds _ s := v s = true
  bottom _ := by rw [h.bottom]; exact Bool.false_ne_true
  neg _ s := by rw [h.neg, Bool.not_eq_true', Bool.not_eq_true]
  con _ l r := by rw [h.con, Bool.and_eq_true]
  dis _ l r := by rw [h.dis, Bool.or_eq_true]
  imp _ l r := by
    rw [h.imp, Bool.or_eq_true, Bool.not_eq_true', ← Bool.not_eq_true]
    exact imp_iff_not_or.symm
  bic _ l r := by rw [h.bic, beq_iff_eq, Bool.eq_iff_iff]

theorem interpretation_admits {v : Sentence → Bool} (h : Boolean v) {config : Config}
    (hc : config.system = none) : h.interpretation.Admits config := by
  intro system hs
  rw [hc] at hs
  cases hs

end Boolean

/-- A sentence made of atoms and falsity by truth-functional connectives. -/
def Sentence.IsPlain : Sentence → Prop
  | .atom _ => True
  | .bottom => True
  | .metavar _ => False
  | .marker => False
  | .unary .neg s => s.IsPlain
  | .unary .nec _ => False
  | .unary .pos _ => False
  | .binary _ l r => l.IsPlain ∧ r.IsPlain

theorem Boolean.evaluate_eq {v : Sentence → Bool} (h : Boolean v) {s : Sentence} (hs : s.IsPlain) :
    s.evaluate (fun name => some (v (.atom name))) = .ok (v s) := by
  induction s with
  | atom name => rfl
  | metavar name => exact hs.elim
  | bottom => rw [h.bottom]; rfl
  | marker => exact hs.elim
  | unary op s ih =>
    cases op with
    | neg =>
      rw [Sentence.evaluate, ih hs, h.neg]
      rfl
    | nec => exact hs.elim
    | pos => exact hs.elim
  | binary op l r ihl ihr =>
    have hl := ihl hs.1
    have hr := ihr hs.2
    cases op with
    | con =>
      rw [Sentence.evaluate, hl, hr, h.con]
      cases v l <;> rfl
    | dis =>
      rw [Sentence.evaluate, hl, hr, h.dis]
      cases v l <;> rfl
    | imp =>
      rw [Sentence.evaluate, hl, hr, h.imp]
      cases v l <;> rfl
    | bic =>
      rw [Sentence.evaluate, hl, hr, h.bic]
      rfl

end ModalFitch
