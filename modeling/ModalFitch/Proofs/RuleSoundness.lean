import Mathlib.Tactic.ByContra
import Mathlib.Tactic.Tauto
import ModalFitch.Proofs.Matching
import ModalFitch.Proofs.Semantics
import ModalFitch.Proofs.Verdicts

/-! Every rule leads from truth to truth.

* `Premise.Granted`: what a premise of a schema says at a point.
* `RuleDefinition.Sound`: the conclusion of every schema is true where its premises are granted.
* `Catalog.sound`: all the rules that a configuration enables are sound in the interpretations that
  it admits. -/

namespace ModalFitch
set_option autoImplicit false

universe u

/-- What a premise of a schema says at a point, for a rule that stays at the point or one that
carries sentences over from a point that sees it. A subproof says that its result is true wherever
its assumption is: at the point itself, or at all points that it sees if the subproof is strict. -/
def Premise.Granted (I : Interpretation.{u}) (b : Bindings) (x : I.Point) :
    Transfer → Premise → Prop
  | .within, .line p => I.holds x (p.instantiatePartial b)
  | .across, .line p => ∃ z, I.access z x ∧ I.holds z (p.instantiatePartial b)
  | _, .subproof p => ∀ y, (if p.kind = .modal then I.access x y else y = x) →
      (∀ a, p.assumption = some a → I.holds y (a.instantiatePartial b)) →
      I.holds y (p.result.instantiatePartial b)

/-- The conclusion of every schema is true where its premises are granted. -/
def RuleDefinition.Sound (I : Interpretation.{u}) (d : RuleDefinition) : Prop :=
  ∀ s ∈ d.schemas, ∀ (b : Bindings) (x : I.Point),
    (∀ p ∈ s.premises, p.Granted I b x d.transfer) → I.holds x (s.conclusion.instantiatePartial b)

namespace Catalog

section Premises

variable {I : Interpretation.{u}} {β : Bindings} {x : I.Point} {transfer : Transfer}

theorem granted_line {p : Sentence} :
    Premise.Granted I β x .within (.line p) ↔ I.holds x (p.instantiatePartial β) := Iff.rfl

theorem granted_across {p : Sentence} : Premise.Granted I β x .across (.line p) ↔
    ∃ z, I.access z x ∧ I.holds z (p.instantiatePartial β) := Iff.rfl

theorem granted_subproof {p : SubproofPattern} : Premise.Granted I β x transfer (.subproof p) ↔
    ∀ y, (if p.kind = .modal then I.access x y else y = x) →
      (∀ a, p.assumption = some a → I.holds y (a.instantiatePartial β)) →
      I.holds y (p.result.instantiatePartial β) := by
  cases transfer <;> exact Iff.rfl

theorem granted_sub {assumption result : Sentence} :
    Premise.Granted I β x transfer (sub assumption result) ↔
      (I.holds x (assumption.instantiatePartial β) → I.holds x (result.instantiatePartial β)) := by
  rw [sub, granted_subproof]
  simp

theorem granted_strict {result : Sentence} : Premise.Granted I β x transfer (strict result) ↔
    ∀ y, I.access x y → I.holds y (result.instantiatePartial β) := by
  rw [strict, granted_subproof]
  simp

theorem granted_possible {assumption result : Sentence} :
    Premise.Granted I β x transfer (possible assumption result) ↔ ∀ y, I.access x y →
      I.holds y (assumption.instantiatePartial β) → I.holds y (result.instantiatePartial β) := by
  rw [possible, granted_subproof]
  simp

end Premises

/-- Box and diamond apart, each rule is a tautology about the truth values of its parts. -/
theorem basicRules_sound (I : Interpretation.{u}) : ∀ d ∈ basicRules, d.Sound I := by
  simp only [basicRules, RuleDefinition.Sound, infer, List.forall_mem_cons, List.not_mem_nil,
    false_imp_iff, imp_true_iff, and_true, granted_line, granted_sub, Sentence.instantiatePartial,
    I.bottom, I.neg, I.con, I.dis, I.imp, I.bic]
  and_intros <;> intros <;> tauto

theorem derivedRules_sound (I : Interpretation.{u}) : ∀ d ∈ derivedRules, d.Sound I := by
  simp only [derivedRules, RuleDefinition.Sound, infer, List.forall_mem_cons, List.not_mem_nil,
    false_imp_iff, imp_true_iff, and_true, granted_line, granted_sub, Sentence.instantiatePartial,
    I.neg, I.con, I.dis, I.imp]
  and_intros <;> intros <;> tauto

theorem modalRulesK_sound {I : Interpretation.{u}} (m : I.Modal) : ∀ d ∈ modalRulesK, d.Sound I := by
  simp only [modalRulesK, RuleDefinition.Sound, infer, List.forall_mem_cons, List.not_mem_nil,
    false_imp_iff, imp_true_iff, and_true, granted_line, granted_across, granted_strict,
    granted_possible, Sentence.instantiatePartial, I.neg, m.nec, m.pos]
  refine ⟨?_, ?_, ⟨?_, ?_⟩, ⟨?_, ?_, ?_, ?_⟩, ?_⟩
  · intro b x h
    exact h
  · rintro b x ⟨z, hzx, h⟩
    exact h x hzx
  · rintro b x ⟨y, hxy, h⟩ hnone
    exact hnone y hxy h
  · intro b x h
    by_contra hnone
    exact h fun y hxy hy => hnone ⟨y, hxy, hy⟩
  · intro b x h
    by_contra hnone
    exact h fun y hxy => by_contra fun hy => hnone ⟨y, hxy, hy⟩
  · rintro b x ⟨y, hxy, hy⟩ hall
    exact hy (hall y hxy)
  · intro b x h y hxy hy
    exact h ⟨y, hxy, hy⟩
  · rintro b x h ⟨y, hxy, hy⟩
    exact h y hxy hy
  · rintro b x ⟨⟨y, hxy, hy⟩, h⟩
    exact ⟨y, hxy, h y hxy hy⟩

theorem modalRulesT_sound {I : Interpretation.{u}} (m : I.Modal) (refl : ∀ x, I.access x x) :
    ∀ d ∈ modalRulesT, d.Sound I := by
  simp only [modalRulesT, RuleDefinition.Sound, infer, List.forall_mem_cons, List.not_mem_nil,
    false_imp_iff, imp_true_iff, and_true, granted_line, Sentence.instantiatePartial, m.nec, m.pos]
  constructor
  · intro b x h
    exact h x (refl x)
  · intro b x h
    exact ⟨x, refl x, h⟩

theorem modalRulesS4_sound {I : Interpretation.{u}} (m : I.Modal)
    (trans : ∀ {x y z}, I.access x y → I.access y z → I.access x z) :
    ∀ d ∈ modalRulesS4, d.Sound I := by
  simp only [modalRulesS4, RuleDefinition.Sound, infer, List.forall_mem_cons, List.not_mem_nil,
    false_imp_iff, imp_true_iff, and_true, granted_across, Sentence.instantiatePartial, m.nec]
  rintro b x ⟨z, hzx, h⟩ y hxy
  exact h y (trans hzx hxy)

theorem modalRulesS5_sound {I : Interpretation.{u}} (m : I.Modal)
    (trans : ∀ {x y z}, I.access x y → I.access y z → I.access x z)
    (symm : ∀ {x y}, I.access x y → I.access y x) : ∀ d ∈ modalRulesS5, d.Sound I := by
  simp only [modalRulesS5, RuleDefinition.Sound, infer, List.forall_mem_cons, List.not_mem_nil,
    false_imp_iff, imp_true_iff, and_true, granted_across, Sentence.instantiatePartial, I.neg, m.nec,
    m.pos]
  constructor
  · rintro b x ⟨z, hzx, h⟩ hall
    exact h fun y hzy => hall y (trans (symm hzx) hzy)
  · rintro b x ⟨z, hzx, y, hzy, hy⟩
    exact ⟨y, trans (symm hzx) hzy, hy⟩

/-- The rules that a configuration enables are sound in every interpretation that it admits. -/
theorem enabled_sound {I : Interpretation.{u}} {config : Config} (hI : I.Admits config)
    {d : RuleDefinition} (hd : d ∈ definitions) (hset : d.ruleset ∈ config.rulesets) :
    d.Sound I := by
  have hmodal : d.ruleset ≠ .tflBasic → d.ruleset ≠ .tflDerived → ∃ system : ModalSystem,
      I.Modal ∧ system.Frame I.access ∧ d.ruleset ∈ system.rulesets := by
    intro hb hd
    obtain ⟨system, hs, hmem⟩ := Config.mem_modal_rulesets hset hb hd
    exact ⟨system, (hI system hs).1, (hI system hs).2, hmem⟩
  unfold definitions at hd
  simp only [List.mem_append] at hd
  rcases hd with ((((hd | hd) | hd) | hd) | hd) | hd
  · exact basicRules_sound I d hd
  · exact derivedRules_sound I d hd
  · have e : d.ruleset = .modalK := (by decide : ∀ d ∈ modalRulesK, d.ruleset = .modalK) d hd
    obtain ⟨_, m, -, -⟩ := hmodal (by simp [e]) (by simp [e])
    exact modalRulesK_sound m d hd
  · have e : d.ruleset = .modalT := (by decide : ∀ d ∈ modalRulesT, d.ruleset = .modalT) d hd
    obtain ⟨system, m, hf, hmem⟩ := hmodal (by simp [e]) (by simp [e])
    have hr : system.reflexive = true := by
      rw [e] at hmem
      revert hmem
      cases system <;> decide
    exact modalRulesT_sound m (hf.refl hr) d hd
  · have e : d.ruleset = .modalS4 := (by decide : ∀ d ∈ modalRulesS4, d.ruleset = .modalS4) d hd
    obtain ⟨system, m, hf, hmem⟩ := hmodal (by simp [e]) (by simp [e])
    have ht : system.transitive = true := by
      rw [e] at hmem
      revert hmem
      cases system <;> decide
    exact modalRulesS4_sound m (hf.trans ht) d hd
  · have e : d.ruleset = .modalS5 := (by decide : ∀ d ∈ modalRulesS5, d.ruleset = .modalS5) d hd
    obtain ⟨system, m, hf, hmem⟩ := hmodal (by simp [e]) (by simp [e])
    have ht : system.transitive = true ∧ system.symmetric = true := by
      rw [e] at hmem
      revert hmem
      cases system <;> decide
    exact modalRulesS5_sound m (hf.trans ht.1) (hf.symm ht.2) d hd

/-- No premise asks for the marker. -/
theorem asks_proper : ∀ d ∈ definitions, ∀ s ∈ d.schemas, ∀ p ∈ s.premises, p.asks ≠ .marker := by
  decide

end Catalog

end ModalFitch
