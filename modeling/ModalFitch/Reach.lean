/-! Reachability in a finite domain, by sweeps over it.

* `markNext`: the turn of an element, which is marked if a step leads to it from a marked one.
* `markSweep`: a turn for each element of the domain. What is marked counts for the turns after it.
  All that a sweep does is to mark one step further (`markSweep_induct`).
* `reachable`: sweeps until one of them marks nothing. Each of the others lowers the number of
  elements that are not marked. -/

namespace ModalFitch
set_option autoImplicit false

variable {α : Type} [DecidableEq α]

def markNext (step : α → α → Bool) (marked : List α) (x : α) : List α :=
  if !marked.contains x && marked.any (step · x) then x :: marked else marked

/-- One sweep over the domain. -/
def markSweep (step : α → α → Bool) (domain marked : List α) : List α :=
  domain.foldl (markNext step) marked

/-- What holds of the marked elements and is kept when a step from one of them marks another one
holds after a sweep. -/
theorem markSweep_induct {step : α → α → Bool} {domain marked : List α} {P : List α → Prop}
    (mark : ∀ found x y, x ∈ domain → x ∉ found → y ∈ found → step y x = true → P found →
      P (x :: found)) (start : P marked) : P (markSweep step domain marked) := by
  have hfold : ∀ (xs found : List α), xs ⊆ domain → P found → P (xs.foldl (markNext step) found) := by
    intro xs
    induction xs with
    | nil => exact fun found _ hfound => hfound
    | cons x xs ih =>
      intro found hxs hfound
      refine ih _ (fun y hy => hxs (List.mem_cons_of_mem x hy)) ?_
      unfold markNext
      split
      · rename_i hx
        rw [Bool.and_eq_true, List.any_eq_true] at hx
        obtain ⟨hnew, y, hy, hyx⟩ := hx
        exact mark found x y (hxs List.mem_cons_self) (by simpa using hnew) hy hyx hfound
      · exact hfound
  exact hfold domain marked (fun _ h => h) start

theorem markSweep_suffix (step : α → α → Bool) (domain marked : List α) :
    marked <:+ markSweep step domain marked :=
  markSweep_induct (P := (marked <:+ ·)) (fun found x _ _ _ _ _ h => h.trans (List.suffix_cons x found))
    (List.suffix_refl marked)

/-- How many elements of the domain are not marked. -/
def unmarked (domain marked : List α) : Nat := (domain.filter fun x => !marked.contains x).length

theorem unmarked_sweep {step : α → α → Bool} {domain marked : List α}
    (h : (markSweep step domain marked).length ≠ marked.length) :
    unmarked domain (markSweep step domain marked) < unmarked domain marked := by
  have hsuffix := markSweep_suffix step domain marked
  have hnew : markSweep step domain marked = marked ∨
      ∃ x ∈ domain, x ∉ marked ∧ x ∈ markSweep step domain marked := by
    refine (markSweep_induct (P := fun found => marked ⊆ found ∧
      (found = marked ∨ ∃ x ∈ domain, x ∉ marked ∧ x ∈ found)) ?_ ⟨fun _ h => h, .inl rfl⟩).2
    rintro found x y hx hxf - - ⟨hsub, -⟩
    exact ⟨fun z hz => List.mem_cons_of_mem x (hsub hz),
      .inr ⟨x, hx, fun hxm => hxf (hsub hxm), List.mem_cons_self⟩⟩
  rcases hnew with e | ⟨x, hx, hxm, hxs⟩
  · exact absurd (congrArg List.length e) h
  · have hfilter : (domain.filter fun x => !(markSweep step domain marked).contains x) =
        (domain.filter fun x => !marked.contains x).filter
          fun x => !(markSweep step domain marked).contains x := by
      rw [List.filter_filter]
      congr 1
      funext y
      have hsub : y ∈ marked → y ∈ markSweep step domain marked := fun h => hsuffix.subset h
      by_cases hy : y ∈ marked <;> simp [hy, hsub]
    unfold unmarked
    rw [hfilter, List.length_filter_lt_length_iff_exists]
    exact ⟨x, List.mem_filter.mpr ⟨hx, by simpa using hxm⟩, by simpa using hxs⟩

/-- The marked elements, with all the elements of the domain that steps inside it lead to. -/
def reachable (step : α → α → Bool) (domain marked : List α) : List α :=
  if (markSweep step domain marked).length = marked.length then marked
  else reachable step domain (markSweep step domain marked)
termination_by unmarked domain marked
decreasing_by exact unmarked_sweep ‹_›

end ModalFitch
