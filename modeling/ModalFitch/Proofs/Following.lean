import Mathlib.Logic.Function.Basic
import ModalFitch.Proofs.Semantics
import ModalFitch.Proofs.WorldTree

/-! Points of an interpretation for the worlds of a proof.

The worlds from the actual one to the world of a line are read as points that see each other in
turn.

* `WorldTree.Follows`: points for the worlds around a world.
* `Follows.enter`, `Follows.carry`: how the points change on the way into a strict subproof, and on
  the way to a world that a sentence is carried over from. -/

namespace ModalFitch
set_option autoImplicit false

universe u

namespace WorldTree

/-- Points for the worlds from the actual one to the given one, where every world sees those below
it. -/
def Follows {α : Type u} (t : WorldTree) (access : α → α → Prop) (σ : World → α) (w : World) : Prop :=
  ∀ u ∈ t.lineage w, ∀ v ∈ t.lineage w, v.parent = some u.id → access (σ u) (σ v)

namespace Follows

variable {t : WorldTree} {scopes : List Scope} (r : t.Reflects scopes)
variable {α : Type u} {access : α → α → Prop} {σ : World → α}
include r

theorem outward {v w : World} (hw : w ∈ t.worlds) (hv : v ∈ t.lineage w)
    (h : t.Follows access σ w) : t.Follows access σ v := by
  intro a ha b hb hp
  exact h a (r.lineage_trans hw hv ha) b (r.lineage_trans hw hv hb) hp

/-- On the way into a strict subproof any point that is seen may stand for its world. -/
theorem enter {v w : World} (hv : v ∈ t.worlds) (hw : w ∈ t.worlds) (hp : w.parent = some v.id)
    (h : t.Follows access σ v) {y : α} (hy : access (σ v) y) :
    ∃ τ : World → α, t.Follows access τ w ∧ τ w = y ∧ ∀ x ∈ t.lineage v, τ x = σ x := by
  have hlt := (r.parent_cases hw hv hp).2
  have hkeep : ∀ x ∈ t.lineage v, Function.update σ w y x = σ x := by
    intro x hx
    have hle := (r.lineage_mem hv hx).2
    apply Function.update_of_ne
    rintro rfl
    omega
  refine ⟨Function.update σ w y, ?_, Function.update_self w y σ, hkeep⟩
  intro a ha b hb hab
  rw [r.lineage_below hv hw hp] at ha hb
  rcases List.mem_cons.mp hb with rfl | hb
  · rw [hp] at hab
    have hav : a ∈ t.worlds := by
      rcases List.mem_cons.mp ha with rfl | ha
      · exact hw
      · exact (r.lineage_mem hv ha).1
    have e : a = v := r.worlds_ext hav hv (Option.some.inj hab).symm
    rw [e, Function.update_self, hkeep v (mem_lineage_self t v)]
    exact hy
  · have hbm := r.lineage_mem hv hb
    rcases List.mem_cons.mp ha with rfl | ha
    · have := (r.parent_cases hbm.1 hw hab).2
      omega
    · rw [hkeep a ha, hkeep b hb]
      exact h a ha b hb hab

/-- Where access is reflexive and transitive, every world around sees the world. -/
theorem sees (refl : ∀ x, access x x) (trans : ∀ {x y z}, access x y → access y z → access x z)
    {v w : World} (hw : w ∈ t.worlds) (hv : v ∈ t.lineage w) (h : t.Follows access σ w) :
    access (σ v) (σ w) := by
  revert v
  refine r.induct (P := fun w => t.Follows access σ w → ∀ {v}, v ∈ t.lineage w →
    access (σ v) (σ w)) ?_ ?_ w hw h
  · intro _ v hv
    rw [List.mem_singleton.mp hv]
    exact refl _
  · intro a w ha hw hp ih h v hv
    have hmem : a ∈ t.lineage w := by
      rw [r.lineage_below ha hw hp]
      exact List.mem_cons_of_mem w (mem_lineage_self t a)
    have hstep := h a hmem w (mem_lineage_self t w) hp
    rw [r.lineage_below ha hw hp] at hv
    rcases List.mem_cons.mp hv with rfl | hv
    · exact refl _
    · exact trans (ih (outward r hw hmem h) hv) hstep

theorem carry_outward {system : ModalSystem} (hf : system.Frame access)
    (hsym : system.symmetric = false) {here there : World} (hh : here ∈ t.worlds)
    (ht : there ∈ t.worlds) (hcan : t.canImport system here there = true)
    (h : t.Follows access σ here) : there ∈ t.lineage here ∧ access (σ there) (σ here) := by
  unfold canImport at hcan
  split at hcan
  · rename_i e
    subst e
    exact ⟨mem_lineage_self t here, hf.refl hcan _⟩
  · rename_i hne
    have hmem := r.accessible_mem_lineage hsym hh ht hcan
    refine ⟨hmem, ?_⟩
    unfold accessible at hcan
    split at hcan
    · rename_i htr
      have hr : system.reflexive = true := by
        revert htr
        cases system <;> decide
      exact h.sees r (hf.refl hr) (hf.trans htr) hh hmem
    · unfold edge at hcan
      rw [hsym, Bool.false_and, Bool.or_false, Bool.or_eq_true, decide_eq_true_iff,
        decide_eq_true_iff] at hcan
      exact h there hmem here (mem_lineage_self t here) (hcan.resolve_left hne)

/-- A world that a sentence may be carried over from has a point that sees the point of the world
that it is carried to. In a symmetric system the two worlds need not be in one line: the worlds that
are not around the second one take the point of the actual world. -/
theorem carry {system : ModalSystem} (hf : system.Frame access) {here there : World}
    (hh : here ∈ t.worlds) (ht : there ∈ t.worlds) (hcan : t.canImport system here there = true)
    (h : t.Follows access σ here) :
    ∃ τ : World → α, t.Follows access τ there ∧ access (τ there) (σ here) ∧
      ∀ x ∈ t.lineage here, τ x = σ x := by
  cases hsym : system.symmetric with
  | false =>
    obtain ⟨hmem, hacc⟩ := carry_outward r hf hsym hh ht hcan h
    exact ⟨σ, outward r hh hmem h, hacc, fun _ _ => rfl⟩
  | true =>
    have htr : system.transitive = true := by
      revert hsym
      cases system <;> decide
    have hr : system.reflexive = true := by
      revert hsym
      cases system <;> decide
    have hsees : ∀ {v}, v ∈ t.lineage here → access (σ v) (σ here) := fun hv =>
      h.sees r (hf.refl hr) (hf.trans htr) hh hv
    have hτ : ∀ v, access (if v ∈ t.lineage here then σ v else σ .actual) (σ here) := by
      intro v
      split
      · rename_i hv
        exact hsees hv
      · exact hsees (r.actual_mem_lineage hh)
    refine ⟨fun v => if v ∈ t.lineage here then σ v else σ .actual, ?_, hτ there, ?_⟩
    · intro a _ b _ _
      exact hf.trans htr (hτ a) (hf.symm hsym (hτ b))
    · intro x hx
      exact if_pos hx

end Follows

end WorldTree

end ModalFitch
