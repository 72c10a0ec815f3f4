import ModalFitch.Proofs.Citing
import ModalFitch.Proofs.WorldTree

/-! Scopes as intervals of lines, beside the scopes around a scope.

* `Outline.Nested.encloses_iff_interval`: a scope is around a line exactly if the line is one of those
  from its first to its last.
* `Outline.Nested.laminar`: the intervals of two scopes are nested or disjoint.
* `Outline.Nested.subproofAt_iff`: a range of lines belongs to one subproof or to none. -/

namespace ModalFitch
set_option autoImplicit false

/-! ## Scopes stay closed -/

namespace Layout

variable {lines : List Line} {f : Nat → Layout} (t : Trace lines f)
include t

theorem Trace.count_mono {i j : Nat} (hij : i ≤ j) (hj : j ≤ lines.length) :
    (f i).count ≤ (f j).count := by
  induction j with
  | zero =>
    cases Nat.le_zero.mp hij
    exact Nat.le_refl _
  | succ j ih =>
    rcases Nat.lt_or_eq_of_le hij with hlt | rfl
    · have hl : lines[j]? = some lines[j] := List.getElem?_eq_getElem (by omega)
      have hih := ih (by omega) (by omega)
      obtain ⟨-, ⟨_, _, -, hc, -⟩ | ⟨-, hc, -⟩⟩ := t.line hl
      · omega
      · omega
    · exact Nat.le_refl _

/-- A scope that was there at one point and is open later has been open all the time. -/
theorem Trace.open_between {i j k : Nat} (hij : i ≤ j) (hj : j ≤ lines.length)
    (hold : k < (f i).count) (hk : k ∈ (f j).chain) : k ∈ (f i).chain := by
  induction j with
  | zero => rwa [Nat.le_zero.mp hij]
  | succ j ih =>
    rcases Nat.lt_or_eq_of_le hij with hlt | rfl
    · have hl : lines[j]? = some lines[j] := List.getElem?_eq_getElem (by omega)
      have hmono := t.count_mono (by omega : i ≤ j) (by omega)
      refine ih (by omega) (by omega) ?_
      obtain ⟨-, ⟨_, around, -, -, -, hs, hc⟩ | ⟨-, -, hs⟩⟩ := t.line hl
      · rw [hc] at hk
        rcases List.mem_cons.mp hk with rfl | hk
        · omega
        · exact hs.subset hk
      · exact hs.subset hk
    · exact hk

end Layout

namespace Outline

theorem ancestors_cons {o : Outline} {s p : Scope} (hs : o.HasScope s)
    (henc : s.enclosing = s.id :: p.enclosing) : o.ancestors s = s :: o.ancestors p := by
  unfold ancestors
  rw [henc, List.filterMap_cons_some hs]

namespace Nested

variable {o : Outline} (h : o.Nested)
include h

/-! ## Depths -/

theorem scope_depth {s : Scope} (hs : o.HasScope s) : (s.enclosing.length : Int) = s.depth + 1 := by
  obtain ⟨f, a⟩ := h.along
  rcases a.scope_cases hs with ⟨-, rfl⟩ | ⟨i, l, kind, hl, -, -, rfl⟩
  · rfl
  · exact (a.trace.line hl).1

theorem home_depth {n : Nat} {l : Line} (hl : o.line? n = some l) :
    ∃ s, o.scopeOf n = .ok s ∧ o.HasScope s ∧ s.depth = l.depth := by
  obtain ⟨s, hs, hk, hlen⟩ := h.line_scope hl
  have hdepth := h.scope_depth hk
  exact ⟨s, hs, hk, by omega⟩

theorem parent_of {s : Scope} (hs : o.HasScope s) (h0 : s.id ≠ 0) :
    ∃ p, o.HasScope p ∧ o.parent? s = some p ∧ s.enclosing = s.id :: p.enclosing ∧ p.id < s.id ∧
      s.depth = p.depth + 1 := by
  obtain ⟨p, _, hp, henc, hlt, hpar, -⟩ := h.subproof hs h0
  refine ⟨p, hp, ?_, henc, hlt, ?_⟩
  · rw [parent?, hpar, Option.bind_some]
    exact hp
  · have hds := h.scope_depth hs
    have hdp := h.scope_depth hp
    rw [henc, List.length_cons] at hds
    omega

/-! ## Intervals -/

theorem zero_mem {s : Scope} (hs : o.HasScope s) : 0 ∈ s.enclosing := by
  obtain ⟨f, a⟩ := h.along
  rcases a.scope_cases hs with ⟨-, rfl⟩ | ⟨i, l, kind, -, -, -, rfl⟩
  · exact List.mem_cons_self
  · exact List.mem_append_right _ (List.mem_singleton.mpr rfl)

theorem first_pos {s : Scope} (hs : o.HasScope s) : 1 ≤ s.first := by
  obtain ⟨f, a⟩ := h.along
  rcases a.scope_cases hs with ⟨-, rfl⟩ | ⟨i, l, kind, -, -, -, rfl⟩
  · exact Nat.le_refl 1
  · exact Nat.succ_le_succ (Nat.zero_le i)

theorem encloses_of_interval {n : Nat} {home s : Scope} (hn : o.scopeOf n = .ok home)
    (hs : o.HasScope s) (hfirst : s.first ≤ n) (hlast : n ≤ s.last) : s.id ∈ home.enclosing := by
  by_cases h0 : s.id = 0
  · rw [h0]
    exact h.zero_mem (h.scopeOf_cases hn).1
  · obtain ⟨f, a⟩ := h.along
    obtain ⟨-, l, hl, -⟩ := h.scopeOf_cases hn
    obtain ⟨hpos, hat⟩ := line?_eq_some.mp hl
    have hlt := (List.getElem?_eq_some_iff.mp hat).1
    have hchain : home.enclosing = (f n).chain := by
      obtain ⟨r, hr, -, he⟩ := a.home hat
      rw [Nat.sub_add_cancel (Nat.one_le_iff_ne_zero.mpr hpos)] at hr he
      rw [hn] at hr
      cases hr
      exact he
    rcases a.scope_cases hs with ⟨hz, -⟩ | ⟨i, k, kind, hk, ho, hcount, e⟩
    · exact absurd hz h0
    · have hopened : s.id < (f (i + 1)).count := by
        obtain ⟨-, ⟨_, _, -, hc, -⟩ | ⟨ho', -⟩⟩ := a.trace.line hk
        · omega
        · rw [ho] at ho'
          cases ho'
      have hfi : s.first = i + 1 := by rw [e]; rfl
      have hlasteq : s.last = Placed.lastIn s.id (Layout.along o.lines f) := by
        rw [← hcount, e]
        rfl
      -- the last line of the scope is one that the scope is around
      rcases Placed.lastIn_cases s.id (Layout.along o.lines f) with hz | ⟨p, hp, hmem, hnum⟩
      · omega
      · obtain ⟨j, m, hm, rfl⟩ := Layout.along_mem.mp hp
        have hj := (List.getElem?_eq_some_iff.mp hm).1
        have hend : s.last = j + 1 := hlasteq.trans hnum
        have hmono := a.trace.count_mono (by omega : i + 1 ≤ n) (by omega)
        rw [hchain]
        exact a.trace.open_between (by omega : n ≤ j + 1) (by omega) (by omega) hmem

theorem encloses_iff_interval {n : Nat} {home s : Scope} (hn : o.scopeOf n = .ok home)
    (hs : o.HasScope s) : s.id ∈ home.enclosing ↔ s.first ≤ n ∧ n ≤ s.last :=
  ⟨h.range hn hs, fun hr => h.encloses_of_interval hn hs hr.1 hr.2⟩

theorem line_of_interval {n : Nat} {s : Scope} (hs : o.HasScope s) (hfirst : s.first ≤ n)
    (hlast : n ≤ s.last) : ∃ home, o.scopeOf n = .ok home ∧ o.HasScope home := by
  have hpos := h.first_pos hs
  have hle := h.last_le hs
  obtain ⟨l, hl⟩ : ∃ l, o.line? n = some l := exists_line (by omega) (by omega)
  obtain ⟨home, hhome, hk, -⟩ := h.line_scope hl
  exact ⟨home, hhome, hk⟩

theorem subproof_nonempty {s : Scope} (hs : o.HasScope s) (h0 : s.id ≠ 0) : s.first ≤ s.last := by
  obtain ⟨_, l, -, -, -, -, -, -, hfirst⟩ := h.subproof hs h0
  exact (h.range hfirst hs (h.self_mem hs)).2

theorem interval_le {r s : Scope} (hr : o.HasScope r) (hs : o.HasScope s) (henc : r.id ∈ s.enclosing) :
    r.first ≤ s.first ∧ s.last ≤ r.last := by
  by_cases h0 : s.id = 0
  · rw [(h.main_scope hs h0).1, List.mem_singleton] at henc
    rw [hr.unique hs (henc.trans h0.symm)]
    exact ⟨Nat.le_refl _, Nat.le_refl _⟩
  · obtain ⟨_, l, -, -, -, -, -, -, hfirst⟩ := h.subproof hs h0
    refine ⟨(h.range hfirst hr henc).1, ?_⟩
    have hle := h.subproof_nonempty hs h0
    obtain ⟨home, hhome, hk⟩ := h.line_of_interval hs hle (Nat.le_refl _)
    have hin := h.encloses_of_interval hhome hs hle (Nat.le_refl _)
    exact (h.range hhome hr (h.enclosing_subset hk hs hin henc)).2

theorem enclosing_suffix_of {r s : Scope} (hr : o.HasScope r) (hs : o.HasScope s)
    (henc : r.id ∈ s.enclosing) : r.enclosing <:+ s.enclosing := by
  obtain ⟨r', hr', hsuf⟩ := h.enclosing_suffix hs henc
  rwa [hr.unique (h.hasScope hr').2 (h.hasScope hr').1.symm]

/-- Of two scopes around one line, one is around the other. -/
theorem encloses_total {home r s : Scope} (hhome : o.HasScope home) (hr : o.HasScope r)
    (hs : o.HasScope s) (hrh : r.id ∈ home.enclosing) (hsh : s.id ∈ home.enclosing) :
    r.id ∈ s.enclosing ∨ s.id ∈ r.enclosing := by
  rcases List.suffix_or_suffix_of_suffix (h.enclosing_suffix_of hr hhome hrh)
    (h.enclosing_suffix_of hs hhome hsh) with hsuf | hsuf
  · exact .inl (hsuf.subset (h.self_mem hr))
  · exact .inr (hsuf.subset (h.self_mem hs))

/-- Two scopes lie apart, or one is around the other. -/
theorem laminar {r s : Scope} (hr : o.HasScope r) (hs : o.HasScope s) :
    r.last < s.first ∨ s.last < r.first ∨ r.id ∈ s.enclosing ∨ s.id ∈ r.enclosing := by
  by_cases h1 : r.last < s.first
  · exact .inl h1
  · by_cases h2 : s.last < r.first
    · exact .inr (.inl h2)
    · by_cases hr0 : r.id = 0
      · rw [hr0]
        exact .inr (.inr (.inl (h.zero_mem hs)))
      · by_cases hs0 : s.id = 0
        · rw [hs0]
          exact .inr (.inr (.inr (h.zero_mem hr)))
        · have hrl := h.subproof_nonempty hr hr0
          have hsl := h.subproof_nonempty hs hs0
          -- the later of the two first lines lies in both
          obtain ⟨home, hhome, hk⟩ := h.line_of_interval (n := max r.first s.first) hr (by omega) (by omega)
          have hrh := h.encloses_of_interval hhome hr (by omega) (by omega)
          have hsh := h.encloses_of_interval hhome hs (by omega) (by omega)
          exact .inr (.inr (h.encloses_total hk hr hs hrh hsh))

theorem first_injective {r s : Scope} (hr : o.HasScope r) (hs : o.HasScope s) (hr0 : r.id ≠ 0)
    (hs0 : s.id ≠ 0) (hfirst : r.first = s.first) : r = s := by
  obtain ⟨_, _, -, -, -, -, -, -, hrf⟩ := h.subproof hr hr0
  obtain ⟨_, _, -, -, -, -, -, -, hsf⟩ := h.subproof hs hs0
  rw [hfirst, hsf] at hrf
  cases hrf
  rfl

theorem subproofAt_iff (hroot : o.Rootless) {first last : Nat} {s : Scope} :
    o.subproofAt first last = some s ↔ o.HasScope s ∧ s.id ≠ 0 ∧ s.first = first ∧ s.last = last := by
  have hfound : ∀ r, o.subproofAt first last = some r →
      o.HasScope r ∧ r.id ≠ 0 ∧ r.first = first ∧ r.last = last := by
    intro r hfind
    have hrange := List.find?_some hfind
    rw [Bool.and_eq_true, decide_eq_true_iff, decide_eq_true_iff] at hrange
    obtain ⟨hk, h0⟩ := (h.mem_subproofs hroot).mp (List.mem_of_find?_eq_some hfind)
    exact ⟨hk, h0, hrange⟩
  refine ⟨hfound s, ?_⟩
  rintro ⟨hk, h0, rfl, rfl⟩
  cases hfind : o.subproofAt s.first s.last with
  | none =>
    have hno := List.find?_eq_none.mp hfind s ((h.mem_subproofs hroot).mpr ⟨hk, h0⟩)
    simp at hno
  | some r =>
    obtain ⟨hrk, hr0, hfirst, -⟩ := hfound r hfind
    rw [h.first_injective hrk hk hr0 h0 hfirst]

end Nested

end Outline

end ModalFitch
