/-! The transitive closure of a finite relation, by sweeps over its pairs.

* `sweep`: each pair has its turn and is composed with the pairs listed so far; what it adds counts
  for the turns after it. All that a sweep does is to insert compositions (`sweep_induct`).
* `PairsOn.close`: sweeps until one of them adds nothing. Each of the others lowers the number of
  pairs of points that are missing.
* `closure`: the pairs of a list with all that they compose to. -/

namespace ModalFitch
set_option autoImplicit false

section Once

variable {β : Type} [BEq β]

/-- The elements of a list, each once. -/
def once (xs : List β) : List β := xs.foldr List.insert []

theorem suffix_insert (x : β) (xs : List β) : xs <:+ xs.insert x := by
  unfold List.insert
  split
  · exact List.suffix_refl xs
  · exact List.suffix_cons x xs

variable [LawfulBEq β]

theorem nodup_insert {x : β} {xs : List β} (h : xs.Nodup) : (xs.insert x).Nodup := by
  unfold List.insert
  split
  · exact h
  · rename_i hx
    exact List.nodup_cons.mpr ⟨by simpa using hx, h⟩

theorem nodup_once (xs : List β) : (once xs).Nodup := by
  induction xs with
  | nil => exact List.nodup_nil
  | cons x xs ih => exact nodup_insert ih

@[simp] theorem mem_once {x : β} {xs : List β} : x ∈ once xs ↔ x ∈ xs := by
  induction xs with
  | nil => exact Iff.rfl
  | cons y xs ih => exact List.mem_insert_iff.trans ((or_congr_right ih).trans List.mem_cons.symm)

end Once

/-! ## Sweeps -/

section Sweep

variable {α : Type} [DecidableEq α]

/-- The turn of a pair: the pairs, with what it composes to with each of them. -/
def composeWith (pairs : List (α × α)) (p : α × α) : List (α × α) :=
  pairs.foldl (fun found q => if p.2 = q.1 then found.insert (p.1, q.2) else found) pairs

/-- One sweep: a turn for every pair that is listed when it begins. -/
def sweep (pairs : List (α × α)) : List (α × α) := pairs.foldl composeWith pairs

theorem composeWith_induct {P : List (α × α) → Prop}
    (add : ∀ found p q, p ∈ found → q ∈ found → p.2 = q.1 → P found → P (found.insert (p.1, q.2)))
    {pairs : List (α × α)} {p : α × α} (hp : p ∈ pairs) (start : P pairs) :
    P (composeWith pairs p) ∧ pairs ⊆ composeWith pairs p := by
  have hfold : ∀ (qs found : List (α × α)), qs ⊆ pairs → P found → pairs ⊆ found →
      P (qs.foldl (fun found q => if p.2 = q.1 then found.insert (p.1, q.2) else found) found) ∧
        pairs ⊆ qs.foldl (fun found q => if p.2 = q.1 then found.insert (p.1, q.2) else found) found := by
    intro qs
    induction qs with
    | nil => exact fun found _ hfound hsub => ⟨hfound, hsub⟩
    | cons q qs ih =>
      intro found hqs hfound hsub
      have hq := hqs List.mem_cons_self
      have hrest : qs ⊆ pairs := fun x hx => hqs (List.mem_cons_of_mem q hx)
      rw [List.foldl_cons]
      split
      · rename_i hpq
        exact ih _ hrest (add found p q (hsub hp) (hsub hq) hpq hfound)
          fun x hx => List.mem_insert_of_mem (hsub hx)
      · exact ih _ hrest hfound hsub
  exact hfold pairs pairs (fun _ h => h) start fun _ h => h

/-- What holds of some pairs and is kept when a composition of two of them is inserted holds after a
sweep. -/
theorem sweep_induct {P : List (α × α) → Prop}
    (add : ∀ found p q, p ∈ found → q ∈ found → p.2 = q.1 → P found → P (found.insert (p.1, q.2)))
    {pairs : List (α × α)} (start : P pairs) : P (sweep pairs) := by
  have hfold : ∀ (ps found : List (α × α)), ps ⊆ found → P found → P (ps.foldl composeWith found) := by
    intro ps
    induction ps with
    | nil => exact fun found _ hfound => hfound
    | cons p ps ih =>
      intro found hps hfound
      obtain ⟨hturn, hsub⟩ := composeWith_induct add (hps List.mem_cons_self) hfound
      exact ih _ (fun x hx => hsub (hps (List.mem_cons_of_mem p hx))) hturn
  exact hfold pairs pairs (fun _ h => h) start

theorem sweep_suffix (pairs : List (α × α)) : pairs <:+ sweep pairs :=
  sweep_induct (P := (pairs <:+ ·)) (fun _ _ _ _ _ _ h => h.trans (suffix_insert _ _))
    (List.suffix_refl pairs)

theorem sweep_nodup {pairs : List (α × α)} (h : pairs.Nodup) : (sweep pairs).Nodup :=
  sweep_induct (P := List.Nodup) (fun _ _ _ _ _ _ h => nodup_insert h) h

end Sweep

/-! ## The loop -/

/-- Pairs of some points, each listed once. -/
structure PairsOn {α : Type} (points : List α) where
  pairs : List (α × α)
  nodup : pairs.Nodup
  within : ∀ p ∈ pairs, p.1 ∈ points ∧ p.2 ∈ points

namespace PairsOn

variable {α : Type} {points : List α}

/-- All pairs of points. -/
def square (points : List α) : List (α × α) := points.flatMap fun a => points.map fun b => (a, b)

theorem mem_square {p : α × α} :
    p ∈ square points ↔ p.1 ∈ points ∧ p.2 ∈ points := by
  unfold square
  simp only [List.mem_flatMap, List.mem_map]
  constructor
  · rintro ⟨a, ha, b, hb, rfl⟩
    exact ⟨ha, hb⟩
  · exact fun h => ⟨p.1, h.1, p.2, h.2, rfl⟩

variable [DecidableEq α]

/-- The pairs after a sweep. -/
def swept (r : PairsOn points) : PairsOn points where
  pairs := sweep r.pairs
  nodup := sweep_nodup r.nodup
  within := by
    refine sweep_induct (P := fun found => ∀ p ∈ found, p.1 ∈ points ∧ p.2 ∈ points) ?_ r.within
    intro found p q hp hq _ hfound x hx
    rcases List.mem_insert_iff.mp hx with rfl | hx
    · exact ⟨(hfound p hp).1, (hfound q hq).2⟩
    · exact hfound x hx

/-- How many pairs of points are missing. -/
def missing (r : PairsOn points) : Nat :=
  ((square points).filter fun p => !r.pairs.contains p).length

theorem missing_swept {r : PairsOn points} (h : r.swept.pairs.length ≠ r.pairs.length) :
    r.swept.missing < r.missing := by
  obtain ⟨added, hadded⟩ : r.pairs <:+ r.swept.pairs := sweep_suffix r.pairs
  have hnodup := r.swept.nodup
  rw [← hadded] at hnodup
  cases added with
  | nil => exact absurd (by rw [← hadded, List.nil_append]) h
  | cons p added =>
    have hnew : p ∉ r.pairs := fun hp => (List.nodup_append.mp hnodup).2.2 p List.mem_cons_self p hp rfl
    have hp : p ∈ r.swept.pairs := hadded ▸ List.mem_cons_self
    have hfilter : ((square points).filter fun p => !r.swept.pairs.contains p) =
        ((square points).filter fun p => !r.pairs.contains p).filter
          fun p => !r.swept.pairs.contains p := by
      rw [List.filter_filter]
      congr 1
      funext x
      have hsub : x ∈ r.pairs → x ∈ r.swept.pairs := fun h => (sweep_suffix r.pairs).subset h
      by_cases hx : x ∈ r.pairs <;> simp [hx, hsub]
    unfold missing
    rw [hfilter, List.length_filter_lt_length_iff_exists]
    refine ⟨p, List.mem_filter.mpr ⟨mem_square.mpr (r.swept.within p hp), ?_⟩, by simpa using hp⟩
    simpa using hnew

/-- Sweeps until one of them adds nothing. -/
def close (r : PairsOn points) : PairsOn points :=
  if r.swept.pairs.length = r.pairs.length then r else r.swept.close
termination_by r.missing
decreasing_by exact missing_swept ‹_›

/-- The pairs of a list. -/
def ofList (pairs : List (α × α)) : PairsOn (pairs.map Prod.fst ++ pairs.map Prod.snd) where
  pairs := once pairs
  nodup := nodup_once pairs
  within := by
    intro p hp
    have hp := mem_once.mp hp
    exact ⟨List.mem_append_left _ (List.mem_map_of_mem hp),
      List.mem_append_right _ (List.mem_map_of_mem hp)⟩

end PairsOn

/-- The pairs with all that they compose to. -/
def closure {α : Type} [DecidableEq α] (pairs : List (α × α)) : List (α × α) :=
  (PairsOn.ofList pairs).close.pairs

end ModalFitch
