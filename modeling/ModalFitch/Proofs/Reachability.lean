import Mathlib.Data.List.Basic
import Mathlib.Logic.Function.Iterate
import ModalFitch.Reach

/-! Sweeps over a finite domain find exactly what paths lead to.

A sweep marks only what a step leads to, and it misses nothing that is one step from what was marked
when it began. So nothing can be reached any more where a sweep marks nothing.

* `Reaches`: steps inside the domain lead to an element.
* `markSweep_sound`, `markSweep_complete`: what a sweep marks.
* `reachable_iterate`: the loop is a number of sweeps. Each marks an element, and one more marks none.
* `mem_reachable_iff`: what is marked at the end. -/

namespace ModalFitch
set_option autoImplicit false

/-- One or more steps inside the domain lead from a seed to the element. -/
inductive Reaches {α : Type} (step : α → α → Bool) (domain seeds : List α) : α → Prop where
  | first {x y : α} : y ∈ seeds → step y x = true → x ∈ domain → Reaches step domain seeds x
  | next {x y : α} : Reaches step domain seeds y → step y x = true → x ∈ domain →
      Reaches step domain seeds x

namespace Reaches

variable {α : Type} {step : α → α → Bool} {domain seeds : List α} {x : α}

theorem mem_domain (h : Reaches step domain seeds x) : x ∈ domain := by
  cases h with
  | first _ _ hx => exact hx
  | next _ _ hx => exact hx

/-- More steps, a larger domain and more seeds reach more. -/
theorem mono {step' : α → α → Bool} {domain' seeds' : List α}
    (hstep : ∀ a b, step a b = true → step' a b = true) (hd : domain ⊆ domain')
    (hs : seeds ⊆ seeds') (h : Reaches step domain seeds x) : Reaches step' domain' seeds' x := by
  induction h with
  | first hy hyx hx => exact .first (hs hy) (hstep _ _ hyx) (hd hx)
  | next _ hyx hx ih => exact .next ih (hstep _ _ hyx) (hd hx)

/-- A step goes on from a seed or from what is reached already. -/
theorem step_of {y : α} (hy : y ∈ seeds ∨ Reaches step domain seeds y) (hyx : step y x = true)
    (hx : x ∈ domain) : Reaches step domain seeds x :=
  hy.elim (fun hy => .first hy hyx hx) fun hy => .next hy hyx hx

/-- A path from what is reached already goes on from a path to it. -/
theorem trans {fresh : List α} (hfresh : ∀ z ∈ fresh, z ∈ seeds ∨ Reaches step domain seeds z)
    (h : Reaches step domain fresh x) : Reaches step domain seeds x := by
  induction h with
  | first hy hyx hx => exact step_of (hfresh _ hy) hyx hx
  | next _ hyx hx ih => exact .next ih hyx hx

end Reaches

/-! ## Sweeps -/

section Sweeps

variable {α : Type} [DecidableEq α] {step : α → α → Bool} {domain marked : List α} {x : α}

theorem markSweep_sound (h : x ∈ markSweep step domain marked) :
    x ∈ marked ∨ Reaches step domain marked x := by
  revert x
  refine markSweep_induct
    (P := fun found => ∀ {x}, x ∈ found → x ∈ marked ∨ Reaches step domain marked x) ?_ .inl
  intro found z y hz _ hy hyz hfound x hx
  rcases List.mem_cons.mp hx with rfl | hx
  · exact .inr (.step_of (hfound hy) hyz hz)
  · exact hfound hx

theorem markSweep_complete {y : α} (hx : x ∈ domain) (hy : y ∈ marked) (hyx : step y x = true) :
    x ∈ markSweep step domain marked := by
  have hsub : ∀ (found : List α) (z : α), found ⊆ markNext step found z := by
    intro found z
    unfold markNext
    split
    · exact List.subset_cons_self z found
    · exact List.Subset.refl found
  -- the marks stay, so the step counts when the element has its turn
  have hfold : ∀ (zs found : List α), x ∈ zs ∨ x ∈ found → y ∈ found →
      x ∈ zs.foldl (markNext step) found := by
    intro zs
    induction zs with
    | nil => exact fun found h _ => h.resolve_left List.not_mem_nil
    | cons z zs ih =>
      intro found h hy
      refine ih _ ?_ (hsub found z hy)
      rcases h with h | h
      · rcases List.mem_cons.mp h with rfl | h
        · right
          unfold markNext
          split
          · exact List.mem_cons_self
          · rename_i hturn
            simp only [Bool.and_eq_true, Bool.not_eq_true', List.any_eq_true, not_and, not_exists] at hturn
            by_contra hx
            exact hturn (by simpa using hx) y hy hyx
        · exact .inl h
      · exact .inr (hsub found z h)
  exact hfold domain marked (.inl hx) hy

theorem markSweep_nodup (h : marked.Nodup) : (markSweep step domain marked).Nodup :=
  markSweep_induct (P := List.Nodup) (fun _ _ _ _ hx _ _ h => List.nodup_cons.mpr ⟨hx, h⟩) h

/-! ## The loop -/

/-- The loop is a number of sweeps. Each marks at least one element, and a further one marks none. -/
theorem reachable_iterate (step : α → α → Bool) (domain marked : List α) :
    markSweep step domain (reachable step domain marked) = reachable step domain marked ∧
      ∃ k, reachable step domain marked = (markSweep step domain)^[k] marked ∧
        k + marked.length ≤ (reachable step domain marked).length := by
  fun_induction reachable step domain marked with
  | case1 marked h =>
    exact ⟨((markSweep_suffix step domain marked).eq_of_length h.symm).symm, 0, rfl, by omega⟩
  | case2 marked h ih =>
    obtain ⟨hfixed, k, hk, hlen⟩ := ih
    have hgrow := (markSweep_suffix step domain marked).length_le
    exact ⟨hfixed, k + 1, by rw [Function.iterate_succ_apply]; exact hk, by omega⟩

theorem subset_reachable (step : α → α → Bool) (domain marked : List α) :
    marked ⊆ reachable step domain marked := by
  fun_induction reachable step domain marked with
  | case1 marked h => exact List.Subset.refl marked
  | case2 marked h ih => exact List.Subset.trans (markSweep_suffix step domain marked).subset ih

theorem reachable_nodup (h : marked.Nodup) : (reachable step domain marked).Nodup := by
  fun_induction reachable step domain marked with
  | case1 marked _ => exact h
  | case2 marked _ ih => exact ih (markSweep_nodup h)

/-- What is marked at the end: the seeds, and what steps lead to from them. -/
theorem mem_reachable_iff :
    x ∈ reachable step domain marked ↔ x ∈ marked ∨ Reaches step domain marked x := by
  constructor
  · fun_induction reachable step domain marked with
    | case1 marked _ => exact .inl
    | case2 marked _ ih =>
      intro hx
      rcases ih hx with hx | hx
      · exact markSweep_sound hx
      · exact .inr (hx.trans fun z hz => markSweep_sound hz)
  · have hfixed := (reachable_iterate step domain marked).1
    rintro (hx | hx)
    · exact subset_reachable step domain marked hx
    · induction hx with
      | first hy hyx hx =>
        rw [← hfixed]
        exact markSweep_complete hx (subset_reachable step domain marked hy) hyx
      | next _ hyx hx ih =>
        rw [← hfixed]
        exact markSweep_complete hx ih hyx

end Sweeps

end ModalFitch
