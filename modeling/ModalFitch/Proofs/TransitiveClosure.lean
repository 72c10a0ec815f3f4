import Mathlib.Data.List.Basic
import Mathlib.Logic.Function.Iterate
import Mathlib.Logic.Relation
import ModalFitch.Closure

/-! Sweeps over the pairs of a finite relation end at its transitive closure.

A sweep adds compositions only, and it misses no composition of two pairs that were listed when it
began. So a sweep that adds nothing leaves a transitive relation.

* `sweep_sound`, `sweep_complete`: what a sweep finds.
* `PairsOn.close_iterate`: the loop is a number of sweeps. Each adds a pair, and one more adds none.
* `mem_closure_iff`: the pairs at the end are those that paths connect. -/

namespace ModalFitch
set_option autoImplicit false

section Sweep

variable {α : Type} [DecidableEq α]

theorem composeWith_complete {found : List (α × α)} {p q : α × α} (hq : q ∈ found) (hpq : p.2 = q.1) :
    (p.1, q.2) ∈ composeWith found p := by
  have hfold : ∀ (qs acc : List (α × α)), q ∈ qs ∨ (p.1, q.2) ∈ acc →
      (p.1, q.2) ∈
        qs.foldl (fun found q => if p.2 = q.1 then found.insert (p.1, q.2) else found) acc := by
    intro qs
    induction qs with
    | nil => exact fun acc h => h.resolve_left List.not_mem_nil
    | cons x qs ih =>
      intro acc h
      rw [List.foldl_cons]
      apply ih
      rcases h with h | h
      · rcases List.mem_cons.mp h with rfl | h
        · exact .inr (by rw [if_pos hpq]; exact List.mem_insert_self)
        · exact .inl h
      · refine .inr ?_
        split
        · exact List.mem_insert_of_mem h
        · exact h
  exact hfold found found (.inl hq)

theorem subset_composeWith (found : List (α × α)) (p : α × α) : found ⊆ composeWith found p := by
  have hfold : ∀ (qs acc : List (α × α)),
      acc ⊆ qs.foldl (fun found q => if p.2 = q.1 then found.insert (p.1, q.2) else found) acc := by
    intro qs
    induction qs with
    | nil => exact fun acc => List.Subset.refl acc
    | cons q qs ih =>
      intro acc
      rw [List.foldl_cons]
      refine List.Subset.trans ?_ (ih _)
      split
      · exact (suffix_insert _ _).subset
      · exact List.Subset.refl acc
  exact hfold found found

/-- A sweep finds every composition of two pairs that were listed when it began. -/
theorem sweep_complete {pairs : List (α × α)} {p q : α × α} (hp : p ∈ pairs) (hq : q ∈ pairs)
    (hpq : p.2 = q.1) : (p.1, q.2) ∈ sweep pairs := by
  -- the second pair is listed all along, so it is there when the first one has its turn
  have hfold : ∀ (ps found : List (α × α)), p ∈ ps ∨ (p.1, q.2) ∈ found → q ∈ found →
      (p.1, q.2) ∈ ps.foldl composeWith found := by
    intro ps
    induction ps with
    | nil => exact fun found h _ => h.resolve_left List.not_mem_nil
    | cons x ps ih =>
      intro found h hq
      rw [List.foldl_cons]
      refine ih _ ?_ (subset_composeWith found x hq)
      rcases h with h | h
      · rcases List.mem_cons.mp h with rfl | h
        · exact .inr (composeWith_complete hq hpq)
        · exact .inl h
      · exact .inr (subset_composeWith found x h)
  exact hfold pairs pairs (.inl hp) hq

/-- A sweep finds pairs that paths connect. -/
theorem sweep_sound {pairs : List (α × α)} {p : α × α} (h : p ∈ sweep pairs) :
    Relation.TransGen (fun a b => (a, b) ∈ pairs) p.1 p.2 := by
  revert p
  refine sweep_induct (P := fun found =>
    ∀ {p}, p ∈ found → Relation.TransGen (fun a b => (a, b) ∈ pairs) p.1 p.2) ?_ ?_
  · intro found p q hp hq hpq hfound x hx
    rcases List.mem_insert_iff.mp hx with rfl | hx
    · exact (hfound hp).trans (hpq ▸ hfound hq)
    · exact hfound hx
  · exact fun hp => .single hp

/-- Pairs that a sweep leaves as they are make a transitive relation. -/
theorem mem_of_path {pairs : List (α × α)} (hfixed : sweep pairs = pairs) {a b : α}
    (h : Relation.TransGen (fun x y => (x, y) ∈ pairs) a b) : (a, b) ∈ pairs := by
  induction h with
  | single hab => exact hab
  | tail _ hbc ih => exact hfixed ▸ sweep_complete ih hbc rfl

end Sweep

/-! ## The loop -/

namespace PairsOn

variable {α : Type} {points : List α}

theorem pairs_injective {r s : PairsOn points} (h : r.pairs = s.pairs) : r = s := by
  cases r
  cases s
  cases h
  rfl

variable [DecidableEq α]

theorem swept_eq {r : PairsOn points} (h : r.swept.pairs.length = r.pairs.length) : r.swept = r :=
  pairs_injective ((sweep_suffix r.pairs).eq_of_length h.symm).symm

/-- The loop is a number of sweeps. Each adds at least one pair, and a further one adds nothing. -/
theorem close_iterate (r : PairsOn points) :
    r.close.swept = r.close ∧
      ∃ n, r.close = swept^[n] r ∧ n + r.pairs.length ≤ r.close.pairs.length := by
  fun_induction close r with
  | case1 r h => exact ⟨swept_eq h, 0, rfl, by omega⟩
  | case2 r h ih =>
    obtain ⟨hfixed, n, hn, hlen⟩ := ih
    have hgrow : r.pairs.length ≤ r.swept.pairs.length := (sweep_suffix r.pairs).length_le
    exact ⟨hfixed, n + 1, by rw [Function.iterate_succ_apply]; exact hn, by omega⟩

theorem subset_close (r : PairsOn points) : r.pairs ⊆ r.close.pairs := by
  fun_induction close r with
  | case1 r h => exact List.Subset.refl r.pairs
  | case2 r h ih => exact List.Subset.trans (sweep_suffix r.pairs).subset ih

theorem mem_close_iff {r : PairsOn points} {a b : α} :
    (a, b) ∈ r.close.pairs ↔ Relation.TransGen (fun x y => (x, y) ∈ r.pairs) a b := by
  constructor
  · fun_induction close r with
    | case1 r h => exact fun hab => .single hab
    | case2 r h ih =>
      exact fun hab => Relation.TransGen.closed (fun x y hxy => sweep_sound (p := (x, y)) hxy) _ _ (ih hab)
  · intro hab
    refine mem_of_path (congrArg pairs r.close_iterate.1) ?_
    exact Relation.TransGen.mono (fun x y hxy => r.subset_close hxy) _ _ hab

theorem iterate_pairs (r : PairsOn points) (n : Nat) : (swept^[n] r).pairs = sweep^[n] r.pairs := by
  induction n generalizing r with
  | zero => rfl
  | succ n ih => exact ih r.swept

end PairsOn

section Closure

variable {α : Type} [DecidableEq α]

theorem nodup_closure (pairs : List (α × α)) : (closure pairs).Nodup :=
  (PairsOn.ofList pairs).close.nodup

/-- The closure holds the pairs that paths connect. -/
theorem mem_closure_iff {pairs : List (α × α)} {a b : α} :
    (a, b) ∈ closure pairs ↔ Relation.TransGen (fun x y => (x, y) ∈ pairs) a b := by
  unfold closure
  rw [PairsOn.mem_close_iff]
  simp only [PairsOn.ofList, mem_once]

/-- The closure is reached by no more sweeps than it has pairs, and a further sweep leaves it as it
is. -/
theorem closure_iterate (pairs : List (α × α)) : sweep (closure pairs) = closure pairs ∧
    ∃ n, closure pairs = sweep^[n] (once pairs) ∧ n ≤ (closure pairs).length := by
  obtain ⟨hfixed, n, hn, hlen⟩ := (PairsOn.ofList pairs).close_iterate
  refine ⟨congrArg PairsOn.pairs hfixed, n, ?_, Nat.le_of_add_right_le hlen⟩
  exact (congrArg PairsOn.pairs hn).trans ((PairsOn.ofList pairs).iterate_pairs n)

end Closure

end ModalFitch
