import Mathlib.Data.List.Basic
import ModalFitch.Outline.Visibility

/-! The layouts that the lines of an outline go through, one after the other.

* `Layout.step_cases`: what one line does to the open scopes.
* `Layout.Ordered`: open scopes are numbered and nested in the order in which they were opened.
* `Layout.Trace`: the layouts before and after each line. A scope that is open at some point was
  opened by an earlier line, and the scopes around it have not changed since. -/

namespace ModalFitch
set_option autoImplicit false

namespace Layout

/-! ## One line -/

theorem step_cases {p q : Layout} {n : Nat} {l : Line} (h : p.step n l = .ok q) :
    (∃ kind around, l.opens = some kind ∧ 1 ≤ l.depth ∧ l.depth ≤ p.depth + 1 ∧
      around = p.stack.dropWhile (fun s => l.depth ≤ s.depth) ∧
      q = ⟨p.count + 1, ⟨p.count, l.depth⟩ :: around⟩) ∨
    (∃ around, l.opens = none ∧ 0 ≤ l.depth ∧ l.depth ≤ p.depth ∧
      around = p.stack.dropWhile (fun s => l.depth < s.depth) ∧ q = ⟨p.count, around⟩) := by
  unfold step at h
  split at h
  · cases h
  · rename_i h0
    cases ho : l.opens with
    | none =>
      simp only [ho] at h
      split at h
      · cases h
      · rename_i h1
        cases h
        exact .inr ⟨_, rfl, by omega, by omega, rfl, rfl⟩
    | some kind =>
      simp only [ho] at h
      split at h
      · cases h
      · split at h
        · cases h
        · rename_i h1 h2
          cases h
          exact .inl ⟨kind, _, rfl, by omega, by omega, rfl, rfl⟩

/-! ## Order of the open scopes -/

/-- The depths of a stack are those of its places, counted from the outermost subproof. -/
def Stacked (stack : List OpenScope) : Prop :=
  ∀ s rest, s :: rest <:+ stack → s.depth = rest.length + 1

/-- Scopes are numbered in the order in which they are opened, and each open one is a level deeper
than the one around it. -/
structure Ordered (p : Layout) : Prop where
  descending : p.chain.Pairwise (· > ·)
  below : ∀ k ∈ p.chain, k < p.count
  stacked : Stacked p.stack

theorem Stacked.suffix {s t : List OpenScope} (h : Stacked t) (hs : s <:+ t) : Stacked s :=
  fun x rest hx => h x rest (hx.trans hs)

theorem Stacked.depth_eq {p : Layout} (h : Stacked p.stack) : p.depth = p.stack.length := by
  unfold depth
  split
  · rename_i e
    rw [e]; rfl
  · rename_i s rest e
    rw [h s rest (e ▸ List.suffix_refl _), e, List.length_cons]
    push_cast; rfl

theorem Stacked.length_dropWhile {stack : List OpenScope} (h : Stacked stack) (k : Nat)
    (hk : k ≤ stack.length) :
    (stack.dropWhile fun s => decide ((k : Int) < s.depth)).length = k := by
  induction stack with
  | nil => simp at hk; simp [hk]
  | cons s rest ih =>
    have hs : s.depth = rest.length + 1 := h s rest (List.suffix_refl _)
    rw [List.dropWhile_cons]
    by_cases hlt : (k : Int) < s.depth
    · rw [if_pos (by simpa using hlt)]
      exact ih (h.suffix (List.suffix_cons s rest)) (by omega)
    · rw [if_neg (by simpa using hlt)]
      rw [List.length_cons] at hk ⊢
      omega

theorem start_ordered : start.Ordered := by
  refine ⟨by simp [start, chain], by simp [start, chain], ?_⟩
  intro s rest h
  simp [start] at h

theorem chain_suffix {p : Layout} {around : List OpenScope} (h : around <:+ p.stack) (count : Nat) :
    (Layout.mk count around).chain <:+ p.chain := by
  obtain ⟨front, hf⟩ := h
  exact ⟨front.map OpenScope.id, by simp [chain, ← hf]⟩

/-- What a line does to an ordered layout: it keeps the scopes around it, as many as its depth
says, and may open one more. -/
theorem Ordered.step {p q : Layout} {n : Nat} {l : Line} (hp : p.Ordered)
    (h : p.step n l = .ok q) :
    q.Ordered ∧ (q.chain.length : Int) = l.depth + 1 ∧
      ((∃ kind around, l.opens = some kind ∧ q.count = p.count + 1 ∧ around ≠ [] ∧
        around <:+ p.chain ∧ q.chain = p.count :: around) ∨
       (l.opens = none ∧ q.count = p.count ∧ q.chain <:+ p.chain)) := by
  have hd := hp.stacked.depth_eq
  obtain ⟨kind, around, ho, h1, h2, ha, rfl⟩ | ⟨around, ho, h1, h2, ha, rfl⟩ := step_cases h
  · have hs : around <:+ p.stack := by rw [ha]; exact List.dropWhile_suffix _
    have hc := chain_suffix hs p.count
    have hlen : around.length = l.depth.toNat - 1 := by
      have e : (fun s : OpenScope => decide (l.depth ≤ s.depth)) =
          fun s : OpenScope => decide (((l.depth.toNat - 1 : Nat) : Int) < s.depth) := by
        funext s
        congr 1
        apply propext
        omega
      rw [ha, e]
      exact hp.stacked.length_dropWhile _ (by omega)
    have hq : (Layout.mk (p.count + 1) (⟨p.count, l.depth⟩ :: around)).chain =
        p.count :: (Layout.mk p.count around).chain := rfl
    refine ⟨⟨?_, ?_, ?_⟩, ?_, .inl ⟨kind, (Layout.mk p.count around).chain, ho, rfl,
      by simp [chain], hc, hq⟩⟩
    · rw [hq, List.pairwise_cons]
      exact ⟨fun k hk => hp.below k (hc.subset hk), hp.descending.sublist hc.sublist⟩
    · rw [hq]
      intro k hk
      rcases List.mem_cons.mp hk with rfl | hk
      · exact Nat.lt_succ_self _
      · exact Nat.lt_succ_of_lt (hp.below k (hc.subset hk))
    · intro s rest hsr
      rcases List.suffix_cons_iff.mp hsr with e | hsr
      · obtain ⟨rfl, rfl⟩ := List.cons.inj e
        show l.depth = _
        omega
      · exact hp.stacked s rest (hsr.trans hs)
    · rw [hq]
      simp only [chain, List.length_cons, List.length_append, List.length_map, List.length_nil]
      omega
  · have hs : around <:+ p.stack := by rw [ha]; exact List.dropWhile_suffix _
    have hc := chain_suffix hs p.count
    have hlen : around.length = l.depth.toNat := by
      have e : (fun s : OpenScope => decide (l.depth < s.depth)) =
          fun s : OpenScope => decide (((l.depth.toNat : Nat) : Int) < s.depth) := by
        funext s
        congr 1
        apply propext
        omega
      rw [ha, e]
      exact hp.stacked.length_dropWhile _ (by omega)
    refine ⟨⟨hp.descending.sublist hc.sublist, fun k hk => hp.below k (hc.subset hk),
      hp.stacked.suffix hs⟩, ?_, .inr ⟨ho, rfl, hc⟩⟩
    simp only [chain, List.length_append, List.length_map, List.length_cons, List.length_nil]
    omega

/-! ## All lines -/

/-- The layouts before and after each line: `f i` is the one before the line with index `i`. -/
structure Trace (lines : List Line) (f : Nat → Layout) : Prop where
  start : f 0 = .start
  step : ∀ i l, lines[i]? = some l → (f i).step (i + 1) l = .ok (f (i + 1))

theorem chains_trace {p : Layout} {n : Nat} {lines : List Line} {cs : List (List Nat)}
    (h : p.chains n lines = .ok cs) :
    ∃ f : Nat → Layout, f 0 = p ∧
      (∀ i l, lines[i]? = some l → (f i).step (n + i) l = .ok (f (i + 1))) ∧
      cs = (List.range lines.length).map fun i => (f (i + 1)).chain := by
  induction lines generalizing p n cs with
  | nil =>
    cases h
    exact ⟨fun _ => p, rfl, by simp, by simp⟩
  | cons line rest ih =>
    rw [chains] at h
    cases hq : p.step n line with
    | error e => rw [hq] at h; cases h
    | ok q =>
      rw [hq] at h
      cases hr : q.chains (n + 1) rest with
      | error e => simp [bind, Except.bind, hr] at h
      | ok ds =>
        simp only [bind, Except.bind, hr, Except.ok.injEq] at h
        obtain ⟨g, hg0, hg, hds⟩ := ih hr
        refine ⟨fun i => if i = 0 then p else g (i - 1), rfl, ?_, ?_⟩
        · intro i l hl
          cases i with
          | zero =>
            simp only [List.getElem?_cons_zero, Option.some.injEq] at hl
            subst hl
            simpa [hg0] using hq
          | succ i =>
            have e : n + (i + 1) = n + 1 + i := by omega
            rw [List.getElem?_cons_succ] at hl
            simpa [e] using hg i l hl
        · rw [← h, hds, List.length_cons, List.range_succ_eq_map, List.map_cons, List.map_map]
          simp [hg0, Function.comp_def]

theorem Trace.ordered {lines : List Line} {f : Nat → Layout} (t : Trace lines f) {i : Nat}
    (hi : i ≤ lines.length) : (f i).Ordered := by
  induction i with
  | zero => rw [t.start]; exact start_ordered
  | succ i ih =>
    have hl : lines[i]? = some lines[i] := List.getElem?_eq_getElem (by omega)
    exact ((ih (by omega)).step (t.step i _ hl)).1

/-- The scopes around a line and the count of scopes after it. -/
theorem Trace.line {lines : List Line} {f : Nat → Layout} (t : Trace lines f) {i : Nat} {l : Line}
    (hl : lines[i]? = some l) :
    ((f (i + 1)).chain.length : Int) = l.depth + 1 ∧
      ((∃ kind around, l.opens = some kind ∧ (f (i + 1)).count = (f i).count + 1 ∧ around ≠ [] ∧
        around <:+ (f i).chain ∧ (f (i + 1)).chain = (f i).count :: around) ∨
       (l.opens = none ∧ (f (i + 1)).count = (f i).count ∧ (f (i + 1)).chain <:+ (f i).chain)) := by
  obtain ⟨hi, -⟩ := List.getElem?_eq_some_iff.mp hl
  exact ((t.ordered (by omega)).step (t.step i l hl)).2

/-- In a descending list, a suffix that starts with an element of another suffix is a suffix of
that. -/
theorem suffix_of_head_mem {xs ys zs : List Nat} {k : Nat} (hd : zs.Pairwise (· > ·))
    (hx : k :: xs <:+ zs) (hy : ys <:+ zs) (hk : k ∈ ys) : k :: xs <:+ ys := by
  rcases List.suffix_or_suffix_of_suffix hx hy with h | h
  · exact h
  · rcases List.suffix_cons_iff.mp h with e | h
    · exact e ▸ List.suffix_refl _
    · have hp : (k :: xs).Pairwise (· > ·) := hd.sublist hx.sublist
      have := (List.pairwise_cons.mp hp).1 k (h.subset hk)
      omega

theorem eq_of_head_suffix {xs ys : List Nat} {k : Nat} (hd : (k :: ys).Pairwise (· > ·))
    (h : k :: xs <:+ k :: ys) : xs = ys := by
  rcases List.suffix_cons_iff.mp h with e | h
  · exact (List.cons.inj e).2
  · have := (List.pairwise_cons.mp hd).1 k (h.subset List.mem_cons_self)
    omega

/-- An open subproof was opened by an earlier line, and the scopes around it are those of that
line. -/
theorem Trace.opener {lines : List Line} {f : Nat → Layout} (t : Trace lines f) {i k : Nat}
    (hi : i ≤ lines.length) (hk : k ∈ (f i).chain) (h0 : k ≠ 0) :
    ∃ j l kind, j < i ∧ lines[j]? = some l ∧ l.opens = some kind ∧ (f j).count = k ∧
      (f (j + 1)).chain <:+ (f i).chain := by
  induction i with
  | zero =>
    rw [t.start] at hk
    simp [Layout.start, chain] at hk
    exact absurd hk h0
  | succ i ih =>
    have hl : lines[i]? = some lines[i] := List.getElem?_eq_getElem (by omega)
    -- a scope open before the line and still open after it has kept the scopes around it
    have older : ∀ ys, ys <:+ (f i).chain → k ∈ ys → ∃ j l kind, j < i + 1 ∧ lines[j]? = some l ∧
        l.opens = some kind ∧ (f j).count = k ∧ (f (j + 1)).chain <:+ ys := by
      intro ys hys hky
      obtain ⟨j, l, kind, hj, hlj, ho, hc, hs⟩ := ih (by omega) (hys.subset hky)
      refine ⟨j, l, kind, by omega, hlj, ho, hc, ?_⟩
      obtain ⟨-, ⟨_, around, -, -, -, -, e⟩ | ⟨ho', -⟩⟩ := t.line hlj
      · rw [e, hc] at hs ⊢
        exact suffix_of_head_mem (t.ordered (by omega)).descending hs hys hky
      · rw [ho] at ho'; cases ho'
    obtain ⟨-, ⟨kind, around, ho, -, -, hs, e⟩ | ⟨-, -, hs⟩⟩ := t.line hl
    · rw [e] at hk ⊢
      rcases List.mem_cons.mp hk with rfl | hk
      · exact ⟨i, _, kind, by omega, hl, ho, rfl, e ▸ List.suffix_refl _⟩
      · obtain ⟨j, l, kind, hj, hlj, ho, hc, hsj⟩ := older around hs hk
        exact ⟨j, l, kind, hj, hlj, ho, hc, hsj.trans (List.suffix_cons _ _)⟩
    · exact older _ hs hk

end Layout

end ModalFitch
