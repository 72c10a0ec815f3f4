import Mathlib.Data.List.Sort
import ModalFitch.Proofs.Intervals

/-! What stands in a scope, item by item.

* `Outline.Flattens`: what the items of a scope come to, line by line. The items of a scope come to its
  interval, in order.
* `Outline.Nested.last_item`: a scope ends with its last line, or with a subproof that holds it.
* `build_scopeTree`: the tree, the intervals and the items agree for every list of lines that nests. -/

namespace ModalFitch
set_option autoImplicit false

/-! ## Items -/

namespace Placed

theorem scope_mem_itemsIn {p : Placed} {scope k : Nat} : Item.scope k ∈ p.itemsIn scope ↔
    p.line.opens.isSome = true ∧ p.chain[1]? = some scope ∧ p.chain.head? = some k := by
  unfold itemsIn
  rw [List.mem_append]
  constructor
  · rintro (hmem | hmem)
    · split at hmem
      · rename_i hc
        rw [Bool.and_eq_true, decide_eq_true_iff] at hc
        rw [Option.mem_toList, Option.map_eq_some_iff] at hmem
        obtain ⟨k', hk', hitem⟩ := hmem
        cases hitem
        exact ⟨hc.1, hc.2, hk'⟩
      · cases hmem
    · split at hmem
      · cases List.mem_singleton.mp hmem
      · cases hmem
  · rintro ⟨ho, hscope, hk⟩
    left
    rw [if_pos (by simp [ho, hscope]), hk]
    exact List.mem_singleton.mpr rfl

/-- A line is an item of a scope or opens one, never both. -/
theorem length_itemsIn_le {p : Placed} (hp : p.chain.Pairwise (· > ·)) (scope : Nat) :
    (p.itemsIn scope).length ≤ 1 := by
  unfold itemsIn
  by_cases hhead : p.chain.head? = some scope
  · have hne : p.chain[1]? ≠ some scope := by
      intro hone
      cases hc : p.chain with
      | nil => simp [hc] at hhead
      | cons x xs =>
        rw [hc, List.head?_cons] at hhead
        rw [hc, List.getElem?_cons_succ] at hone
        rw [hc, List.pairwise_cons] at hp
        cases hhead
        have hlt := hp.1 _ (List.mem_of_getElem? hone)
        omega
    simp [hhead, hne]
  · rw [if_neg hhead]
    split
    · cases p.chain.head? <;> simp
    · simp

end Placed

namespace Outline

/-- The lines that an item comes to. -/
def linesOf (o : Outline) : Item → List Nat
  | .line n => [n]
  | .scope k =>
    match o.scopes[k]? with
    | some s => List.range' s.first (s.last + 1 - s.first)
    | none => []

theorem linesOf_scope {o : Outline} {s : Scope} (hs : o.HasScope s) :
    o.linesOf (.scope s.id) = List.range' s.first (s.last + 1 - s.first) := by
  rw [linesOf, show o.scopes[s.id]? = some s from hs]

/-- What a list of items comes to when each subproof is replaced by what its own items come to. -/
inductive Flattens (o : Outline) : List Item → List Nat → Prop where
  | nil : Flattens o [] []
  | line {n items ns} : Flattens o items ns → Flattens o (.line n :: items) (n :: ns)
  | scope {s k items ms ns} : o.scopes[k]? = some s → Flattens o s.items ms → Flattens o items ns →
      Flattens o (.scope k :: items) (ms ++ ns)

theorem Flattens.unique {o : Outline} {items : List Item} {ns ns' : List Nat}
    (h : o.Flattens items ns) (h' : o.Flattens items ns') : ns = ns' := by
  induction h generalizing ns' with
  | nil => cases h'; rfl
  | line _ ih =>
    cases h' with
    | line h' => rw [ih h']
  | scope hs _ _ ihs ih =>
    cases h' with
    | scope hs' h₁ h₂ =>
      rw [hs] at hs'
      cases hs'
      rw [ihs h₁, ih h₂]

theorem flattens_linesOf {o : Outline} {items : List Item}
    (h : ∀ k, Item.scope k ∈ items → ∃ s, o.scopes[k]? = some s ∧
      o.Flattens s.items (List.range' s.first (s.last + 1 - s.first))) :
    o.Flattens items (items.flatMap o.linesOf) := by
  induction items with
  | nil => exact .nil
  | cons x items ih =>
    have hrest := ih fun k hk => h k (List.mem_cons_of_mem x hk)
    cases x with
    | line n => exact .line hrest
    | scope k =>
      obtain ⟨s, hs, hflat⟩ := h k List.mem_cons_self
      have hlines : o.linesOf (.scope k) = List.range' s.first (s.last + 1 - s.first) := by
        simp [linesOf, hs]
      rw [List.flatMap_cons, hlines]
      exact .scope hs hflat hrest

namespace Nested

variable {o : Outline} (h : o.Nested)
include h

theorem enclosing_below {s : Scope} (hs : o.HasScope s) {e : List Nat} (henc : s.enclosing = s.id :: e)
    {k : Nat} (hk : k ∈ e) : k < s.id := by
  obtain ⟨f, a⟩ := h.along
  have hdesc := (a.scope_shape hs).2.2
  rw [henc, List.pairwise_cons] at hdesc
  exact hdesc.1 k hk

theorem child_ne_main {s t : Scope} (hs : o.HasScope s) (ht : o.HasScope t)
    (henc : t.enclosing = t.id :: s.enclosing) : t.id ≠ 0 := by
  intro h0
  have hlt := h.enclosing_below ht henc (h.self_mem hs)
  omega

/-- What a line adds to a scope: itself, or the subproof that it opens there. -/
theorem placed_item {f : Nat → Layout} (a : o.Along f) {s : Scope} (hs : o.HasScope s) {p : Placed}
    (hp : p ∈ Layout.along o.lines f) {x : Item} (hx : x ∈ p.itemsIn s.id) :
    (x = .line p.number ∧ o.scopeOf p.number = .ok s) ∨
    ∃ t, x = .scope t.id ∧ o.HasScope t ∧ t.enclosing = t.id :: s.enclosing ∧ t.first = p.number := by
  obtain ⟨i, l, hl, rfl⟩ := Layout.along_mem.mp hp
  cases x with
  | line n =>
    obtain ⟨hhead, rfl⟩ := Placed.line_mem_itemsIn.mp hx
    obtain ⟨r, hr, hrs, hre⟩ := a.home hl
    obtain ⟨-, ⟨e, he⟩, -⟩ := a.scope_shape hrs
    refine .inl ⟨rfl, ?_⟩
    have hid : r.id = s.id := by
      rw [← hre, he] at hhead
      exact Option.some.inj hhead
    rw [hr, HasScope.unique hrs hs hid]
  | scope k =>
    obtain ⟨hopens, hone, hhead⟩ := Placed.scope_mem_itemsIn.mp hx
    obtain ⟨kind, ho⟩ := Option.isSome_iff_exists.mp hopens
    have hsub := a.scope_subproof hl ho
    obtain ⟨hid, ht⟩ := h.hasScope hsub
    have h0 : (o.subproofOf f i l kind).id ≠ 0 := by
      obtain ⟨-, ⟨_, around, -, -, hne, -, hc⟩ | ⟨ho', -⟩⟩ := a.trace.line hl
      · intro h0
        have hmain := (h.main_scope ht h0).1
        have hchain : (f (i + 1)).chain = [0] := hmain
        rw [hc] at hchain
        exact hne (List.cons.inj hchain).2
      · rw [ho] at ho'
        cases ho'
    obtain ⟨p, hpk, -, henc, -⟩ := h.parent_of ht h0
    have hchain : (f (i + 1)).chain = (o.subproofOf f i l kind).id :: p.enclosing := henc
    have hps : p = s := by
      obtain ⟨-, ⟨e, he⟩, -⟩ := a.scope_shape hpk
      dsimp only at hone
      rw [hchain, he] at hone
      exact hpk.unique hs (Option.some.inj hone)
    have hk : k = (o.subproofOf f i l kind).id := by
      dsimp only at hhead
      rw [hchain] at hhead
      exact (Option.some.inj hhead).symm
    exact .inr ⟨o.subproofOf f i l kind, by rw [hk], ht, by rw [henc, hps], rfl⟩

theorem item_cases {s : Scope} (hs : o.HasScope s) {x : Item} (hx : x ∈ s.items) :
    (∃ n, x = .line n ∧ o.scopeOf n = .ok s) ∨
    ∃ t, x = .scope t.id ∧ o.HasScope t ∧ t.enclosing = t.id :: s.enclosing := by
  obtain ⟨f, a, -, hitems⟩ := h.scope_contents hs
  rw [hitems] at hx
  obtain ⟨p, hp, hx⟩ := List.mem_flatMap.mp hx
  rcases h.placed_item a hs hp hx with ⟨hline, hhome⟩ | ⟨t, hscope, ht, henc, -⟩
  · exact .inl ⟨p.number, hline, hhome⟩
  · exact .inr ⟨t, hscope, ht, henc⟩

theorem scope_item {s t : Scope} (hs : o.HasScope s) (ht : o.HasScope t)
    (henc : t.enclosing = t.id :: s.enclosing) : Item.scope t.id ∈ s.items := by
  obtain ⟨f, a, -, hitems⟩ := h.scope_contents hs
  rcases a.scope_cases ht with ⟨h0, -⟩ | ⟨i, l, kind, hl, ho, hcount, e⟩
  · exact absurd h0 (h.child_ne_main hs ht henc)
  · have hchain : (f (i + 1)).chain = t.id :: s.enclosing := by
      rw [← henc, e]
      rfl
    obtain ⟨-, ⟨e', he'⟩, -⟩ := a.scope_shape hs
    rw [hitems]
    refine List.mem_flatMap.mpr ⟨_, Layout.along_mem.mpr ⟨i, l, hl, rfl⟩, ?_⟩
    refine Placed.scope_mem_itemsIn.mpr ⟨by rw [ho]; rfl, ?_, ?_⟩
    · rw [hchain, he']
      rfl
    · rw [hchain]
      rfl

/-- Toward a scope further in, a scope has a subproof that is around it. -/
theorem child_toward {s home : Scope} (hs : o.HasScope s) (hhome : o.HasScope home)
    (henc : s.id ∈ home.enclosing) (hne : home.id ≠ s.id) :
    ∃ t, o.HasScope t ∧ t.enclosing = t.id :: s.enclosing ∧ t.id ∈ home.enclosing := by
  obtain ⟨f, a⟩ := h.along
  obtain ⟨front, hfront⟩ := h.enclosing_suffix_of hs hhome henc
  have hdesc := (a.scope_shape hhome).2.2
  cases front using List.reverseRecOn with
  | nil =>
    obtain ⟨-, ⟨e, he⟩, -⟩ := a.scope_shape hs
    obtain ⟨-, ⟨e', he'⟩, -⟩ := a.scope_shape hhome
    rw [List.nil_append, he, he'] at hfront
    exact absurd (List.cons.inj hfront).1.symm hne
  | append_singleton front x =>
    rw [List.append_assoc, List.singleton_append] at hfront
    have hx : x ∈ home.enclosing := by
      rw [← hfront]
      exact List.mem_append_right _ List.mem_cons_self
    obtain ⟨t, ht, hsuf⟩ := h.enclosing_suffix hhome hx
    obtain ⟨rfl, hk⟩ := h.hasScope ht
    obtain ⟨-, ⟨e, he⟩, -⟩ := a.scope_shape hk
    rw [he] at hsuf
    have hown : t.id :: s.enclosing <:+ home.enclosing := ⟨front, hfront⟩
    have hboth := Layout.suffix_of_head_mem hdesc hsuf hown List.mem_cons_self
    have heq := Layout.eq_of_head_suffix (hdesc.sublist hown.sublist) hboth
    exact ⟨t, hk, by rw [he, heq], hx⟩

theorem mem_items_lines {s : Scope} (hs : o.HasScope s) {n : Nat} :
    n ∈ s.items.flatMap o.linesOf ↔ s.first ≤ n ∧ n ≤ s.last := by
  rw [List.mem_flatMap]
  constructor
  · rintro ⟨x, hx, hn⟩
    rcases h.item_cases hs hx with ⟨m, rfl, hm⟩ | ⟨t, rfl, ht, henc⟩
    · rw [List.mem_singleton.mp hn]
      exact h.range hm hs (h.self_mem hs)
    · rw [linesOf_scope ht, List.mem_range'_1] at hn
      have hin : s.id ∈ t.enclosing := by
        rw [henc]
        exact List.mem_cons_of_mem _ (h.self_mem hs)
      have hle := h.interval_le hs ht hin
      omega
  · rintro ⟨hfirst, hlast⟩
    obtain ⟨home, hhome, hk⟩ := h.line_of_interval hs hfirst hlast
    have henc := h.encloses_of_interval hhome hs hfirst hlast
    by_cases hid : home.id = s.id
    · have hsame := hk.unique hs hid
      subst hsame
      exact ⟨.line n, h.item_of_scopeOf hhome, List.mem_singleton.mpr rfl⟩
    · obtain ⟨t, ht, hte, hth⟩ := h.child_toward hs hk henc hid
      refine ⟨.scope t.id, h.scope_item hs ht hte, ?_⟩
      have hrange := h.range hhome ht hth
      rw [linesOf_scope ht, List.mem_range'_1]
      omega

theorem placed_lines {f : Nat → Layout} (a : o.Along f) {s : Scope} (hs : o.HasScope s) {p q : Placed}
    (hp : p ∈ Layout.along o.lines f) (hq : q ∈ Layout.along o.lines f) (hpq : p.number < q.number)
    {x y : Item} (hx : x ∈ p.itemsIn s.id) (hy : y ∈ q.itemsIn s.id) :
    ∀ m ∈ o.linesOf x, ∀ n ∈ o.linesOf y, m < n := by
  have hafter : ∀ n ∈ o.linesOf y, q.number ≤ n := by
    intro n hn
    rcases h.placed_item a hs hq hy with ⟨rfl, -⟩ | ⟨u, rfl, hu, -, hfirst⟩
    · exact Nat.le_of_eq (List.mem_singleton.mp hn).symm
    · rw [linesOf_scope hu, List.mem_range'_1] at hn
      omega
  intro m hm n hn
  have hqn := hafter n hn
  rcases h.placed_item a hs hp hx with ⟨rfl, -⟩ | ⟨t, rfl, ht, hte, htf⟩
  · rw [List.mem_singleton.mp hm]
    omega
  · rw [linesOf_scope ht, List.mem_range'_1] at hm
    -- a subproof that reached to the later line would be around it
    have hclosed : t.last < q.number := by
      by_contra hopen
      rcases h.placed_item a hs hq hy with ⟨-, hhome⟩ | ⟨u, -, hu, hue, huf⟩
      · have hin := h.encloses_of_interval hhome ht (by omega) (by omega)
        have hlt := h.enclosing_below ht hte hin
        omega
      · have hu0 := h.child_ne_main hs hu hue
        obtain ⟨_, _, -, -, -, -, -, -, hhome⟩ := h.subproof hu hu0
        have hin := h.encloses_of_interval hhome ht (by omega) (by omega)
        rw [hue] at hin
        rcases List.mem_cons.mp hin with heq | hin
        · have hsame := ht.unique hu heq
          subst hsame
          omega
        · have hlt := h.enclosing_below ht hte hin
          omega
    omega

theorem items_rising {s : Scope} (hs : o.HasScope s) :
    (s.items.flatMap o.linesOf).Pairwise (· < ·) := by
  obtain ⟨f, a, -, hitems⟩ := h.scope_contents hs
  rw [List.pairwise_flatMap]
  refine ⟨fun x _ => ?_, ?_⟩
  · cases x with
    | line n => exact List.pairwise_singleton _ _
    | scope k =>
      simp only [linesOf]
      split
      · exact List.pairwise_lt_range'
      · exact .nil
  · rw [hitems, List.pairwise_flatMap]
    refine ⟨fun p hp => ?_, ?_⟩
    · obtain ⟨i, l, hl, rfl⟩ := Layout.along_mem.mp hp
      have hi := (List.getElem?_eq_some_iff.mp hl).1
      have hshort := Placed.length_itemsIn_le (p := ⟨i + 1, l, (f (i + 1)).chain⟩)
        (a.trace.ordered (by omega : i + 1 ≤ o.lines.length)).descending s.id
      generalize Placed.itemsIn ⟨i + 1, l, (f (i + 1)).chain⟩ s.id = xs at hshort
      match xs, hshort with
      | [], _ => exact .nil
      | [x], _ => exact List.pairwise_singleton _ _
    · refine (Layout.along_rising o.lines f).imp_of_mem fun hp hq hpq x hx y hy => ?_
      exact h.placed_lines a hs hp hq hpq hx hy

theorem items_lines {s : Scope} (hs : o.HasScope s) :
    s.items.flatMap o.linesOf = List.range' s.first (s.last + 1 - s.first) := by
  refine (h.items_rising hs).sortedLT.eq_of_mem_iff (List.sortedLT_range' _ _ Nat.one_ne_zero) fun n => ?_
  rw [h.mem_items_lines hs, List.mem_range'_1]
  omega

/-- The items of a scope come to its interval, whatever subproofs there are in it. -/
theorem flattens {s : Scope} (hs : o.HasScope s) :
    o.Flattens s.items (List.range' s.first (s.last + 1 - s.first)) := by
  -- the subproofs of a scope have larger numbers than the scope
  induction hd : o.scopes.length - s.id using Nat.strongRecOn generalizing s with
  | ind d ih =>
    rw [← h.items_lines hs]
    refine flattens_linesOf fun k hk => ?_
    rcases h.item_cases hs hk with ⟨n, hline, -⟩ | ⟨t, hscope, ht, henc⟩
    · cases hline
    · cases hscope
      have hlt := h.enclosing_below ht henc (h.self_mem hs)
      have hbound := (List.getElem?_eq_some_iff.mp ht).1
      exact ⟨t, ht, ih _ (by omega) ht rfl⟩

theorem main_last {s : Scope} (hs : o.HasScope s) (h0 : s.id = 0) : s.first = 1 ∧ s.last = o.size := by
  obtain ⟨f, a⟩ := h.along
  have hfirst : s.first = 1 := by
    unfold HasScope at hs
    rw [h0, a.scope_main] at hs
    cases hs
    rfl
  refine ⟨hfirst, Nat.le_antisymm (h.last_le hs) ?_⟩
  by_cases hsize : o.size = 0
  · omega
  · obtain ⟨l, hl⟩ := hasLine_iff.mp (hasLine_bounds.mpr ⟨by omega, Nat.le_refl _⟩ : o.hasLine o.size = true)
    obtain ⟨home, hhome, hk, -⟩ := h.line_scope hl
    exact (h.range hhome hs (h0 ▸ h.zero_mem hk)).2

/-- A scope ends with its last line, or with a subproof that the last line lies in. -/
theorem last_item {s : Scope} (hs : o.HasScope s) (hle : s.first ≤ s.last) :
    (s.items.getLast? = some (.line s.last) ∧ o.scopeOf s.last = .ok s) ∨
    ∃ t, s.items.getLast? = some (.scope t) ∧ o.scopeOf s.last ≠ .ok s := by
  have hlines := h.items_lines hs
  have hend : (s.items.flatMap o.linesOf).getLast? = some s.last := by
    rw [hlines, List.getLast?_range', if_neg (by omega)]
    congr 1
    omega
  cases hlast : s.items.getLast? with
  | none =>
    rw [List.getLast?_eq_none_iff.mp hlast] at hend
    cases hend
  | some x =>
    obtain ⟨front, hitems⟩ := List.getLast?_eq_some_iff.mp hlast
    have hx : x ∈ s.items := List.mem_of_getLast? hlast
    rw [hitems, List.flatMap_append, List.flatMap_singleton] at hend
    rcases h.item_cases hs hx with ⟨n, rfl, hn⟩ | ⟨t, rfl, ht, henc⟩
    · have heq : n = s.last := by simpa [linesOf] using hend
      subst heq
      exact .inl ⟨rfl, hn⟩
    · refine .inr ⟨t.id, rfl, fun hhome => ?_⟩
      have ht0 := h.child_ne_main hs ht henc
      have htle := h.subproof_nonempty ht ht0
      have heq : t.last = s.last := by
        rw [linesOf_scope ht, List.getLast?_append, List.getLast?_range', if_neg (by omega)] at hend
        have hval := Option.some.inj hend
        omega
      have hin := h.encloses_of_interval hhome ht (by omega) (by omega)
      have hlt := h.enclosing_below ht henc hin
      omega

/-- The result of a scope is the sentence of its last line, where that line stands directly in the
scope and is not the lone box that opens it. -/
theorem summary_result {s : Scope} (hs : o.HasScope s) (hle : s.first ≤ s.last) :
    ∃ m, o.summary s = .ok m ∧
      (o.scopeOf s.last = .ok s → ¬(s.first = s.last ∧ o.isMarkerAt s.first = true) →
        m.result = o.sentenceAt? s.last) ∧
      (o.scopeOf s.last ≠ .ok s ∨ (s.first = s.last ∧ o.isMarkerAt s.first = true) →
        m.result = none) := by
  have hpos := h.first_pos hs
  have hsize := h.last_le hs
  obtain ⟨l, hl⟩ := hasLine_iff.mp (hasLine_bounds.mpr ⟨hpos, by omega⟩ : o.hasLine s.first = true)
  have hmarker : o.isMarkerAt s.first = l.isMarker := by rw [isMarkerAt, hl, Option.any_some]
  unfold summary
  rw [line_ok.mpr hl, hmarker]
  refine ⟨_, rfl, ?_⟩
  rcases h.last_item hs hle with ⟨hlast, hhome⟩ | ⟨t, hlast, hhome⟩
  · rw [hlast]
    dsimp only
    refine ⟨fun _ hnot => if_neg fun hboth => hnot ?_, fun hor => if_pos ?_⟩
    · rw [Bool.and_eq_true, decide_eq_true_iff] at hboth
      exact ⟨hboth.1.symm, hboth.2⟩
    · rcases hor with hne | hboth
      · exact absurd hhome hne
      · rw [Bool.and_eq_true, decide_eq_true_iff]
        exact ⟨hboth.1.symm, hboth.2⟩
  · rw [hlast]
    exact ⟨fun hyes => absurd hyes hhome, fun _ => rfl⟩

end Nested

/-! ## The tree -/

/-- The scopes of an outline are a tree of intervals. -/
structure ScopeTree (o : Outline) : Prop where
  /-- A line has the depth of the scope that it stands in. -/
  depth : ∀ n l, o.line? n = some l → ∃ s ∈ o.scopes, o.scopeOf n = .ok s ∧ s.depth = l.depth
  /-- The main proof has nothing around it. -/
  main : ∃ s, o.scopes[0]? = some s ∧ s.depth = 0 ∧ o.ancestors s = [s] ∧ s.first = 1 ∧ s.last = o.size
  /-- Every other scope stands in one with a smaller number, one level up. -/
  parent : ∀ s ∈ o.scopes, s.id ≠ 0 → ∃ p ∈ o.scopes, o.parent? s = some p ∧ p.id < s.id ∧
    s.depth = p.depth + 1 ∧ o.ancestors s = s :: o.ancestors p
  /-- The scopes around a line are those whose interval it lies in. -/
  encloses : ∀ s ∈ o.scopes, ∀ n home, o.scopeOf n = .ok home →
    (s.encloses home = true ↔ s.first ≤ n ∧ n ≤ s.last) ∧ (s ∈ o.ancestors home ↔ s.encloses home = true)
  /-- Two intervals are nested or disjoint. -/
  laminar : ∀ r ∈ o.scopes, ∀ s ∈ o.scopes, r.last < s.first ∨ s.last < r.first ∨
    (r.first ≤ s.first ∧ s.last ≤ r.last) ∨ (s.first ≤ r.first ∧ r.last ≤ s.last)
  /-- No two subproofs have the same interval. -/
  distinct : ∀ r ∈ o.scopes, ∀ s ∈ o.scopes, r.id ≠ 0 → s.id ≠ 0 → r.first = s.first →
    r.last = s.last → r = s
  /-- A range of lines is a subproof's or nobody's. -/
  subproofAt : (∀ l ∈ o.lines, l.opens ≠ some .root) → ∀ first last s,
    o.subproofAt first last = some s ↔ s ∈ o.scopes ∧ s.id ≠ 0 ∧ s.first = first ∧ s.last = last
  /-- The items of the main proof come to all lines, in order and each once. -/
  flattens : ∀ s, o.scopes[0]? = some s → ∀ ns, o.Flattens s.items ns ↔ ns = List.range' 1 o.size
  /-- The result of a scope is its last line's, unless it ends inside a subproof or is nothing but the
  lone box. -/
  summary : ∀ s ∈ o.scopes, s.id ≠ 0 ∨ o.lines ≠ [] → ∃ m, o.summary s = .ok m ∧
    (o.scopeOf s.last = .ok s → ¬(s.first = s.last ∧ o.isMarkerAt s.first = true) →
      m.result = o.sentenceAt? s.last) ∧
    (o.scopeOf s.last ≠ .ok s ∨ (s.first = s.last ∧ o.isMarkerAt s.first = true) → m.result = none)

end Outline

/-- The scopes of every list of lines that nests are a tree of intervals. -/
theorem build_scopeTree {lines : List Line} {goal : Option Goal} {revision : Nat} {o : Outline}
    (hbuild : Outline.build lines goal revision = .ok o) : o.lines = lines ∧ o.ScopeTree := by
  obtain ⟨h, hlines, -, -⟩ := Outline.build_cases hbuild
  obtain ⟨f, a⟩ := h.along
  have hmem : ∀ s ∈ o.scopes, o.HasScope s := fun s hs => h.hasScope_of_mem hs
  have hmain : ∀ s, o.scopes[0]? = some s → s.id = 0 ∧ o.HasScope s := fun s hs => h.hasScope hs
  refine ⟨hlines, ⟨?_, ?_, ?_, ?_, ?_, ?_, ?_, ?_, ?_⟩⟩
  · intro n l hl
    obtain ⟨s, hs, hk, hdepth⟩ := h.home_depth hl
    exact ⟨s, List.mem_of_getElem? hk, hs, hdepth⟩
  · obtain ⟨h0, hk⟩ := hmain _ a.scope_main
    have hself : o.ancestors (o.mainProof f) = [o.mainProof f] :=
      List.filterMap_cons_some (f := (o.scopes[·]?)) a.scope_main
    exact ⟨_, a.scope_main, rfl, hself, rfl, (h.main_last hk h0).2⟩
  · intro s hs h0
    obtain ⟨p, hp, hpar, henc, hlt, hdepth⟩ := h.parent_of (hmem s hs) h0
    exact ⟨p, List.mem_of_getElem? hp, hpar, hlt, hdepth, Outline.ancestors_cons (hmem s hs) henc⟩
  · intro s hs n home hn
    rw [Outline.encloses_iff, h.mem_ancestors]
    exact ⟨h.encloses_iff_interval hn (hmem s hs), fun hin => hin.2, fun hin => ⟨hmem s hs, hin⟩⟩
  · intro r hr s hs
    rcases h.laminar (hmem r hr) (hmem s hs) with hlt | hlt | henc | henc
    · exact .inl hlt
    · exact .inr (.inl hlt)
    · exact .inr (.inr (.inl (h.interval_le (hmem r hr) (hmem s hs) henc)))
    · exact .inr (.inr (.inr (h.interval_le (hmem s hs) (hmem r hr) henc)))
  · intro r hr s hs hr0 hs0 hfirst _
    exact h.first_injective (hmem r hr) (hmem s hs) hr0 hs0 hfirst
  · intro hroot first last s
    rw [h.subproofAt_iff hroot]
    exact ⟨fun hs => ⟨List.mem_of_getElem? hs.1, hs.2⟩, fun hs => ⟨hmem s hs.1, hs.2⟩⟩
  · intro s hs ns
    obtain ⟨h0, hk⟩ := hmain s hs
    obtain ⟨hfirst, hlast⟩ := h.main_last hk h0
    have hflat := h.flattens hk
    rw [hfirst, hlast, Nat.add_sub_cancel] at hflat
    exact ⟨fun hns => hns.unique hflat, fun hns => hns ▸ hflat⟩
  · intro s hs hne
    refine h.summary_result (hmem s hs) ?_
    by_cases h0 : s.id = 0
    · obtain ⟨hfirst, hlast⟩ := h.main_last (hmem s hs) h0
      rcases hne with hne | hne
      · exact absurd h0 hne
      · have hsize : 0 < o.size := List.length_pos_iff.mpr hne
        omega
    · exact h.subproof_nonempty (hmem s hs) h0

/-- A subproof that ends inside a lone box, and one that goes on after a subproof of its own. -/
def boxedInside : List Line :=
  createLines [("P", "PR", 0, none), ("Q", "PR", 1, some .ordinary), ("□", "", 2, some .modal),
    ("R", "PR", 1, some .ordinary), ("S", "PR", 2, some .ordinary), ("R", "R 4", 1, none)]

theorem build_scopeTree_boxed : ∃ o, Outline.build boxedInside none 0 = .ok o ∧
    o.scopes.map (fun s => (s.first, s.last)) = [(1, 6), (2, 3), (3, 3), (4, 6), (5, 5)] ∧
    o.ScopeTree := by
  obtain ⟨o, ho, hscopes⟩ := exists_ok (x := Outline.build boxedInside none 0)
    (p := fun o => o.scopes.map (fun s => (s.first, s.last)) = [(1, 6), (2, 3), (3, 3), (4, 6), (5, 5)])
    (by decide +kernel)
  exact ⟨o, ho, of_decide_eq_true hscopes, (build_scopeTree ho).2⟩

end ModalFitch
