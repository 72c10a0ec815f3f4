import Mathlib.Data.List.Induction
import ModalFitch.Proofs.Nesting

/-! The scopes of an outline as a tree.

Scopes are found by their numbers, each line stands in a scope, and the scopes around a scope are
those around the scope that it stands in. A scope holds exactly lines between its first and its
last one; the first line is the one that opens it.

* `Outline.Nested`: the outline is the one that its lines make.
* `Outline.Nested.scope_cases`: the main proof, or a subproof with the line that opens it.
* `Outline.Nested.enclosing_suffix`: the scopes around a scope that is around another. -/

namespace ModalFitch
set_option autoImplicit false

/-! ## Places in a filtered list -/

theorem getElem?_filterMap_iff {α β : Type} (g : α → Option β) (xs : List α) (k : Nat) (y : β) :
    (xs.filterMap g)[k]? = some y ↔
      ∃ j x, xs[j]? = some x ∧ g x = some y ∧ ((xs.take j).filterMap g).length = k := by
  induction xs generalizing k with
  | nil => simp
  | cons x xs ih =>
    constructor
    · intro h
      cases hg : g x with
      | none =>
        rw [List.filterMap_cons_none hg] at h
        obtain ⟨j, z, hz, hy, hk⟩ := (ih k).mp h
        exact ⟨j + 1, z, hz, hy, by rw [List.take_succ_cons, List.filterMap_cons_none hg, hk]⟩
      | some w =>
        rw [List.filterMap_cons_some hg] at h
        cases k with
        | zero =>
          simp only [List.getElem?_cons_zero, Option.some.injEq] at h
          exact ⟨0, x, rfl, by rw [hg, h], rfl⟩
        | succ k =>
          rw [List.getElem?_cons_succ] at h
          obtain ⟨j, z, hz, hy, hk⟩ := (ih k).mp h
          exact ⟨j + 1, z, hz, hy, by
            rw [List.take_succ_cons, List.filterMap_cons_some hg, List.length_cons, hk]⟩
    · rintro ⟨j, z, hz, hy, hk⟩
      cases j with
      | zero =>
        simp only [List.getElem?_cons_zero, Option.some.injEq] at hz
        subst hz
        rw [List.filterMap_cons_some hy, ← hk]
        rfl
      | succ j =>
        rw [List.getElem?_cons_succ] at hz
        rw [List.take_succ_cons] at hk
        cases hg : g x with
        | none =>
          rw [List.filterMap_cons_none hg] at hk ⊢
          exact (ih k).mpr ⟨j, z, hz, hy, hk⟩
        | some w =>
          rw [List.filterMap_cons_some hg] at hk ⊢
          rw [← hk, List.length_cons, List.getElem?_cons_succ]
          exact (ih _).mpr ⟨j, z, hz, hy, rfl⟩

/-! ## The last line of a scope -/

namespace Placed

theorem lastIn_concat (scope : Nat) (ps : List Placed) (p : Placed) :
    lastIn scope (ps ++ [p]) = if p.chain.contains scope then p.number else lastIn scope ps := by
  simp [lastIn]

theorem le_lastIn {scope : Nat} {ps : List Placed} {p : Placed}
    (hs : ps.Pairwise fun p q => p.number < q.number) (hp : p ∈ ps) (hc : scope ∈ p.chain) :
    p.number ≤ lastIn scope ps := by
  induction ps using List.reverseRecOn with
  | nil => cases hp
  | append_singleton qs q ih =>
    rw [lastIn_concat]
    obtain ⟨hqs, -, hlt⟩ := List.pairwise_append.mp hs
    rcases List.mem_append.mp hp with hp | hp
    · split
      · exact Nat.le_of_lt (hlt p hp q (List.mem_singleton.mpr rfl))
      · exact ih hqs hp
    · rw [List.mem_singleton] at hp
      subst hp
      exact Nat.le_of_eq (if_pos (by simpa using hc)).symm

theorem lastIn_cases (scope : Nat) (ps : List Placed) :
    lastIn scope ps = 0 ∨ ∃ p ∈ ps, scope ∈ p.chain ∧ lastIn scope ps = p.number := by
  induction ps using List.reverseRecOn with
  | nil => exact .inl rfl
  | append_singleton qs q ih =>
    rw [lastIn_concat]
    split
    · rename_i hc
      exact .inr ⟨q, by simp, by simpa using hc, rfl⟩
    · rcases ih with h | ⟨p, hp, hc, e⟩
      · exact .inl h
      · exact .inr ⟨p, by simp [hp], hc, e⟩

/-- A line is an item of the scope that it stands in directly, and of no other. -/
theorem line_mem_itemsIn {p : Placed} {scope n : Nat} :
    Item.line n ∈ p.itemsIn scope ↔ p.chain.head? = some scope ∧ n = p.number := by
  unfold itemsIn
  constructor
  · intro h
    rcases List.mem_append.mp h with h | h
    · split at h
      · cases hc : p.chain.head? <;> simp [hc] at h
      · cases h
    · split at h
      · rename_i hc
        exact ⟨hc, by simpa using h⟩
      · cases h
  · rintro ⟨hc, rfl⟩
    rw [if_pos hc]
    exact List.mem_append_right _ (List.mem_singleton.mpr rfl)

end Placed

/-! ## The outline along its layouts -/

namespace Layout

/-- The lines with the scopes that the layouts put around them. -/
def along (lines : List Line) (f : Nat → Layout) : List Placed :=
  lines.mapIdx fun i l => ⟨i + 1, l, (f (i + 1)).chain⟩

theorem along_getElem? (lines : List Line) (f : Nat → Layout) (i : Nat) (p : Placed) :
    (along lines f)[i]? = some p ↔
      ∃ l, lines[i]? = some l ∧ p = ⟨i + 1, l, (f (i + 1)).chain⟩ := by
  unfold along
  rw [List.getElem?_mapIdx]
  cases lines[i]? <;> simp [eq_comm]

theorem along_mem {lines : List Line} {f : Nat → Layout} {p : Placed} :
    p ∈ along lines f ↔ ∃ i l, lines[i]? = some l ∧ p = ⟨i + 1, l, (f (i + 1)).chain⟩ := by
  rw [List.mem_iff_getElem?]
  exact exists_congr fun i => along_getElem? lines f i p

theorem along_rising (lines : List Line) (f : Nat → Layout) :
    (along lines f).Pairwise fun p q => p.number < q.number := by
  rw [List.pairwise_iff_getElem]
  intro i j hi hj hij
  simp only [along, List.getElem_mapIdx]
  omega

end Layout

/-- The lines of texts with a depth and a kind of subproof. -/
def createLines (rows : List (Text × Text × Int × Option ScopeKind)) : List Line :=
  rows.filterMap fun (sentence, justification, depth, kind) =>
    (Line.create sentence justification depth kind).toOption

theorem mem_createLines {rows : List (Text × Text × Int × Option ScopeKind)} {l : Line}
    (h : l ∈ createLines rows) :
    ∃ s j depth kind, (s, j, depth, kind) ∈ rows ∧ Line.create s j depth kind = .ok l := by
  obtain ⟨⟨s, j, depth, kind⟩, hrow, hl⟩ := List.mem_filterMap.mp h
  refine ⟨s, j, depth, kind, hrow, ?_⟩
  cases hc : Line.create s j depth kind with
  | error e =>
    simp only [hc] at hl
    cases hl
  | ok k =>
    simp only [hc] at hl
    cases hl
    rfl

namespace Outline

/-- The outline is the one that its lines make. -/
def Nested (o : Outline) : Prop := build o.lines o.goal o.revision = .ok o

theorem build_cases {lines : List Line} {goal : Option Goal} {revision : Nat} {o : Outline}
    (h : build lines goal revision = .ok o) :
    o.Nested ∧ o.lines = lines ∧ o.goal = goal ∧ o.revision = revision := by
  have h' := h
  unfold build at h
  cases hc : Layout.start.chains 1 lines with
  | error e => rw [hc] at h; cases h
  | ok cs =>
    rw [hc] at h
    cases h
    exact ⟨h', rfl, rfl, rfl⟩

/-- The homes and the scopes of an outline are those of its layouts. -/
structure Along (o : Outline) (f : Nat → Layout) : Prop where
  trace : Layout.Trace o.lines f
  homes : o.homes = (List.range o.lines.length).map fun i => (f (i + 1)).chain.headD 0
  scopes : o.scopes = scopesOf (Layout.along o.lines f)

theorem Nested.along {o : Outline} (h : o.Nested) : ∃ f, o.Along f := by
  unfold Nested build at h
  cases hc : Layout.start.chains 1 o.lines with
  | error e => rw [hc] at h; cases h
  | ok cs =>
    rw [hc] at h
    obtain ⟨f, h0, hf, hcs⟩ := Layout.chains_trace hc
    have ho := Except.ok.inj h
    have hp : placed o.lines cs = Layout.along o.lines f := by
      apply List.ext_getElem?
      intro i
      unfold placed Layout.along
      rw [List.getElem?_mapIdx, List.getElem?_mapIdx, hcs, List.zip, List.getElem?_zipWith]
      cases hl : o.lines[i]? with
      | none => rfl
      | some l =>
        obtain ⟨hi, -⟩ := List.getElem?_eq_some_iff.mp hl
        rw [List.getElem?_map, List.getElem?_range hi]
        rfl
    refine ⟨f, ⟨h0, fun i l hl => ?_⟩, ?_, ?_⟩
    · have e : 1 + i = i + 1 := Nat.add_comm 1 i
      exact e ▸ hf i l hl
    · have e := congrArg Outline.homes ho
      rw [← e, hcs, List.map_map]
      rfl
    · have e := congrArg Outline.scopes ho
      rw [← e, hp]

/-- The subproof that a line opens. -/
def subproofOf (o : Outline) (f : Nat → Layout) (i : Nat) (l : Line) (kind : ScopeKind) : Scope :=
  let ps := Layout.along o.lines f
  ⟨(f i).count, (f (i + 1)).chain, kind, l.depth, i + 1, Placed.lastIn (f i).count ps,
    ps.flatMap (·.itemsIn (f i).count)⟩

theorem Along.opened {o : Outline} {f : Nat → Layout} (a : o.Along f) {i : Nat} {l : Line}
    (hl : o.lines[i]? = some l) :
    Placed.opened (Layout.along o.lines f) ⟨i + 1, l, (f (i + 1)).chain⟩ =
      l.opens.map (o.subproofOf f i l) := by
  obtain ⟨-, ⟨kind, around, ho, -, -, -, e⟩ | ⟨ho, -⟩⟩ := a.trace.line hl
  · simp [Placed.opened, ho, e, subproofOf]
  · simp [Placed.opened, ho]

/-- So many subproofs are opened before a line as the count of scopes there says. -/
theorem Along.opened_before {o : Outline} {f : Nat → Layout} (a : o.Along f) {i : Nat}
    (hi : i ≤ o.lines.length) :
    (((Layout.along o.lines f).take i).filterMap (Placed.opened (Layout.along o.lines f))).length + 1
      = (f i).count := by
  induction i with
  | zero => rw [a.trace.start]; rfl
  | succ i ih =>
    have hl : o.lines[i]? = some o.lines[i] := List.getElem?_eq_getElem (by omega)
    have hp := (Layout.along_getElem? o.lines f i _).mpr ⟨_, hl, rfl⟩
    rw [List.take_add_one, hp, Option.toList_some, List.filterMap_append, List.length_append]
    have hih := ih (by omega)
    obtain ⟨-, ⟨kind, around, ho, hc, -⟩ | ⟨ho, hc, -⟩⟩ := a.trace.line hl
    · rw [List.filterMap_cons_some (by rw [a.opened hl, ho]; rfl), hc, ← hih]
      rfl
    · rw [List.filterMap_cons_none (by rw [a.opened hl, ho]; rfl), hc, ← hih]
      rfl

theorem Along.scope_subproof {o : Outline} {f : Nat → Layout} (a : o.Along f) {i : Nat} {l : Line}
    {kind : ScopeKind} (hl : o.lines[i]? = some l) (ho : l.opens = some kind) :
    o.scopes[(f i).count]? = some (o.subproofOf f i l kind) := by
  obtain ⟨hi, -⟩ := List.getElem?_eq_some_iff.mp hl
  rw [a.scopes, scopesOf, ← a.opened_before (by omega), List.getElem?_cons_succ,
    getElem?_filterMap_iff]
  exact ⟨i, _, (Layout.along_getElem? o.lines f i _).mpr ⟨l, hl, rfl⟩, by rw [a.opened hl, ho]; rfl,
    rfl⟩

/-- The main proof. -/
def mainProof (o : Outline) (f : Nat → Layout) : Scope :=
  let ps := Layout.along o.lines f
  ⟨0, [0], .root, 0, 1, Placed.lastIn 0 ps, ps.flatMap (·.itemsIn 0)⟩

theorem Along.scope_main {o : Outline} {f : Nat → Layout} (a : o.Along f) :
    o.scopes[0]? = some (o.mainProof f) := by
  rw [a.scopes]; rfl

theorem Along.scope_cases {o : Outline} {f : Nat → Layout} (a : o.Along f) {k : Nat} {s : Scope}
    (h : o.scopes[k]? = some s) :
    (k = 0 ∧ s = o.mainProof f) ∨
    ∃ i l kind, o.lines[i]? = some l ∧ l.opens = some kind ∧ (f i).count = k ∧
      s = o.subproofOf f i l kind := by
  cases k with
  | zero =>
    rw [a.scope_main] at h
    exact .inl ⟨rfl, (Option.some.inj h).symm⟩
  | succ k =>
    rw [a.scopes, scopesOf, List.getElem?_cons_succ, getElem?_filterMap_iff] at h
    obtain ⟨i, p, hp, hs, hk⟩ := h
    obtain ⟨l, hl, rfl⟩ := (Layout.along_getElem? o.lines f i p).mp hp
    rw [a.opened hl] at hs
    obtain ⟨kind, ho, rfl⟩ := Option.map_eq_some_iff.mp hs
    obtain ⟨hi, -⟩ := List.getElem?_eq_some_iff.mp hl
    exact .inr ⟨i, l, kind, hl, ho, by rw [← a.opened_before (by omega), hk], rfl⟩

/-- Every scope around a line is there, with the scopes around it as they are around the line. -/
theorem Along.enclosing {o : Outline} {f : Nat → Layout} (a : o.Along f) {i k : Nat}
    (hi : i ≤ o.lines.length) (hk : k ∈ (f i).chain) :
    ∃ s, o.scopes[k]? = some s ∧ s.enclosing <:+ (f i).chain ∧ s.first ≤ max i 1 := by
  by_cases h0 : k = 0
  · refine ⟨o.mainProof f, by rw [h0]; exact a.scope_main, ⟨(f i).stack.map OpenScope.id, rfl⟩, ?_⟩
    exact Nat.le_max_right _ _
  · obtain ⟨j, l, kind, hj, hl, ho, hc, hs⟩ := a.trace.opener hi hk h0
    refine ⟨_, hc ▸ a.scope_subproof hl ho, hs, ?_⟩
    show j + 1 ≤ _
    omega

theorem Along.scope_shape {o : Outline} {f : Nat → Layout} (a : o.Along f) {k : Nat} {s : Scope}
    (hs : o.scopes[k]? = some s) :
    s.id = k ∧ (∃ e, s.enclosing = k :: e) ∧ s.enclosing.Pairwise (· > ·) := by
  rcases a.scope_cases hs with ⟨rfl, rfl⟩ | ⟨i, l, kind, hl, ho, rfl, rfl⟩
  · exact ⟨rfl, ⟨[], rfl⟩, List.pairwise_singleton _ _⟩
  · obtain ⟨hi, -⟩ := List.getElem?_eq_some_iff.mp hl
    obtain ⟨-, ⟨_, around, -, -, -, -, e⟩ | ⟨ho', -⟩⟩ := a.trace.line hl
    · exact ⟨rfl, ⟨around, e⟩, (a.trace.ordered (by omega : i + 1 ≤ o.lines.length)).descending⟩
    · rw [ho] at ho'; cases ho'

theorem Along.home {o : Outline} {f : Nat → Layout} (a : o.Along f) {i : Nat} {l : Line}
    (hl : o.lines[i]? = some l) :
    ∃ s, o.scopeOf (i + 1) = .ok s ∧ o.scopes[s.id]? = some s ∧ s.enclosing = (f (i + 1)).chain := by
  obtain ⟨hi, -⟩ := List.getElem?_eq_some_iff.mp hl
  have hd := (a.trace.ordered (by omega : i + 1 ≤ o.lines.length)).descending
  obtain ⟨k, rest, hc⟩ : ∃ k rest, (f (i + 1)).chain = k :: rest :=
    List.exists_cons_of_ne_nil (by simp [Layout.chain])
  have hhome : o.homes[i]? = some k := by
    rw [a.homes, List.getElem?_map, List.getElem?_range hi]
    simp [hc]
  obtain ⟨s, hs, hsuf, -⟩ := a.enclosing (by omega : i + 1 ≤ o.lines.length) (hc ▸ List.mem_cons_self)
  obtain ⟨rfl, ⟨e, he⟩, -⟩ := a.scope_shape hs
  refine ⟨s, by simp [scopeOf, hhome, scope, hs], hs, ?_⟩
  rw [hc] at hd hsuf ⊢
  rw [he] at hsuf ⊢
  rw [Layout.eq_of_head_suffix hd hsuf]

/-! ## Scopes by their numbers -/

/-- The scope is one of the outline's, under its number. -/
def HasScope (o : Outline) (s : Scope) : Prop := o.scopes[s.id]? = some s

theorem HasScope.unique {o : Outline} {r s : Scope} (hr : o.HasScope r) (hs : o.HasScope s)
    (h : r.id = s.id) : r = s := by
  unfold HasScope at hr hs
  rw [h, hs] at hr
  exact (Option.some.inj hr).symm

/-- The last line and the items of a scope, as the layouts give them. -/
theorem Along.contents {o : Outline} {f : Nat → Layout} (a : o.Along f) {s : Scope}
    (hs : o.HasScope s) : s.last = Placed.lastIn s.id (Layout.along o.lines f) ∧
      s.items = (Layout.along o.lines f).flatMap (·.itemsIn s.id) := by
  rcases a.scope_cases hs with ⟨-, e⟩ | ⟨i, l, kind, hl, ho, -, e⟩
  · exact ⟨by rw [e]; rfl, by rw [e]; rfl⟩
  · exact ⟨by rw [e]; rfl, by rw [e]; rfl⟩

namespace Nested

variable {o : Outline} (h : o.Nested)
include h

theorem hasScope {k : Nat} {s : Scope} (hs : o.scopes[k]? = some s) : s.id = k ∧ o.HasScope s := by
  obtain ⟨f, a⟩ := h.along
  obtain ⟨rfl, -⟩ := a.scope_shape hs
  exact ⟨rfl, hs⟩

theorem hasScope_of_mem {s : Scope} (hs : s ∈ o.scopes) : o.HasScope s := by
  obtain ⟨k, hk⟩ := List.mem_iff_getElem?.mp hs
  exact (h.hasScope hk).2

theorem line_scope {n : Nat} {l : Line} (hl : o.line? n = some l) :
    ∃ s, o.scopeOf n = .ok s ∧ o.HasScope s ∧ (s.enclosing.length : Int) = l.depth + 1 := by
  obtain ⟨f, a⟩ := h.along
  cases n with
  | zero => simp [line?] at hl
  | succ i =>
    have hl' : o.lines[i]? = some l := by simpa [line?] using hl
    obtain ⟨s, hs, hk, he⟩ := a.home hl'
    exact ⟨s, hs, hk, by rw [he]; exact (a.trace.line hl').1⟩

theorem scopeOf_cases {n : Nat} {s : Scope} (hs : o.scopeOf n = .ok s) :
    o.HasScope s ∧ ∃ l, o.line? n = some l ∧ (s.enclosing.length : Int) = l.depth + 1 := by
  obtain ⟨f, a⟩ := h.along
  cases n with
  | zero => simp [scopeOf] at hs
  | succ i =>
    by_cases hi : i < o.lines.length
    · have hl : o.line? (i + 1) = some o.lines[i] := by simp [line?, hi]
      obtain ⟨r, hr, hk, he⟩ := h.line_scope hl
      rw [hr] at hs
      cases hs
      exact ⟨hk, _, hl, he⟩
    · have hn : o.homes[i]? = none := by
        rw [a.homes, List.getElem?_eq_none_iff]
        simpa using Nat.le_of_not_lt hi
      simp [scopeOf, hn] at hs

theorem enclosing_suffix {r : Scope} {k : Nat} (hr : o.HasScope r) (hk : k ∈ r.enclosing) :
    ∃ s, o.scopes[k]? = some s ∧ s.enclosing <:+ r.enclosing := by
  obtain ⟨f, a⟩ := h.along
  rcases a.scope_cases hr with ⟨-, rfl⟩ | ⟨i, l, kind, hl, ho, -, rfl⟩
  · have h0 : k = 0 := by simpa [mainProof] using hk
    exact ⟨_, h0 ▸ a.scope_main, List.suffix_refl _⟩
  · obtain ⟨hi, -⟩ := List.getElem?_eq_some_iff.mp hl
    obtain ⟨s, hs, hsuf, -⟩ := a.enclosing (by omega : i + 1 ≤ o.lines.length) hk
    exact ⟨s, hs, hsuf⟩

theorem main_scope {s : Scope} (hs : o.HasScope s) (h0 : s.id = 0) :
    s.enclosing = [0] ∧ s.kind = .root := by
  obtain ⟨f, a⟩ := h.along
  unfold HasScope at hs
  rw [h0, a.scope_main] at hs
  cases hs
  exact ⟨rfl, rfl⟩

/-- A subproof, the scope that it stands in, and the line that opens it. -/
theorem subproof {s : Scope} (hs : o.HasScope s) (h0 : s.id ≠ 0) :
    ∃ around l, o.HasScope around ∧ s.enclosing = s.id :: around.enclosing ∧ around.id < s.id ∧
      s.parent? = some around.id ∧ o.line? s.first = some l ∧ l.opens = some s.kind ∧
      o.scopeOf s.first = .ok s := by
  obtain ⟨f, a⟩ := h.along
  rcases a.scope_cases hs with ⟨hz, -⟩ | ⟨i, l, kind, hl, ho, -, e⟩
  · exact absurd hz h0
  · obtain ⟨-, ⟨_, tail, -, -, hne, -, hc⟩ | ⟨ho', -⟩⟩ := a.trace.line hl
    · obtain ⟨k, rest, rfl⟩ := List.exists_cons_of_ne_nil hne
      have he : s.enclosing = s.id :: k :: rest := by rw [e]; exact hc
      have hd : (s.id :: k :: rest).Pairwise (· > ·) := he ▸ (a.scope_shape hs).2.2
      obtain ⟨t, ht, hsuf⟩ := h.enclosing_suffix hs (he ▸ List.mem_cons_of_mem _ List.mem_cons_self)
      obtain ⟨rfl, ⟨e', he'⟩, -⟩ := a.scope_shape ht
      rw [he, he'] at hsuf
      have htail : e' = rest := Layout.eq_of_head_suffix (List.pairwise_cons.mp hd).2
        (Layout.suffix_of_head_mem hd hsuf (List.suffix_cons _ _) List.mem_cons_self)
      obtain ⟨r, hr, hrs, hre⟩ := a.home hl
      have hrid : r.id = s.id := by
        obtain ⟨-, ⟨e1, he1⟩, -⟩ := a.scope_shape hrs
        rw [he1, hc] at hre
        rw [(List.cons.inj hre).1, e]
        rfl
      have hrs' : r = s := HasScope.unique hrs hs hrid
      have hfirst : s.first = i + 1 := by rw [e]; rfl
      refine ⟨t, l, ht, by rw [he, he', htail], (List.pairwise_cons.mp hd).1 _ List.mem_cons_self,
        by rw [Scope.parent?, he]; rfl, ?_, by rw [e]; exact ho, ?_⟩
      · rw [hfirst]
        simpa [line?] using hl
      · rw [hfirst, hr, hrs']
    · rw [ho] at ho'; cases ho'

/-- A line that opens a subproof is its first line. -/
theorem opener {n : Nat} {l : Line} {kind : ScopeKind} (hl : o.line? n = some l)
    (ho : l.opens = some kind) :
    ∃ s, o.scopeOf n = .ok s ∧ o.HasScope s ∧ s.id ≠ 0 ∧ s.first = n ∧ s.kind = kind := by
  obtain ⟨f, a⟩ := h.along
  cases n with
  | zero => simp [line?] at hl
  | succ i =>
    have hl' : o.lines[i]? = some l := by simpa [line?] using hl
    have hsub := a.scope_subproof hl' ho
    obtain ⟨s, hs, hk, henc⟩ := a.home hl'
    obtain ⟨-, ⟨_, around, -, -, hne, -, hc⟩ | ⟨ho', -⟩⟩ := a.trace.line hl'
    · have hid : s.id = (f i).count := by
        obtain ⟨-, ⟨e, he⟩, -⟩ := a.scope_shape hk
        rw [henc, hc] at he
        exact (List.cons.inj he).1.symm
      rw [← hid, hk] at hsub
      have e := Option.some.inj hsub
      refine ⟨s, hs, hk, ?_, by rw [e]; rfl, by rw [e]; rfl⟩
      intro h0
      obtain ⟨hmain, -⟩ := h.main_scope hk h0
      rw [henc, hc] at hmain
      exact hne (List.cons.inj hmain).2
    · rw [ho] at ho'
      cases ho'

theorem self_mem {s : Scope} (hs : o.HasScope s) : s.id ∈ s.enclosing := by
  obtain ⟨f, a⟩ := h.along
  obtain ⟨-, ⟨e, he⟩, -⟩ := a.scope_shape hs
  rw [he]
  exact List.mem_cons_self

/-- A line at depth 0 stands in the main proof. -/
theorem main_line {n : Nat} {l : Line} {s : Scope} (hl : o.line? n = some l) (hd : l.depth = 0)
    (hs : o.scopeOf n = .ok s) : s.id = 0 := by
  obtain ⟨hk, l', hl', hlen⟩ := h.scopeOf_cases hs
  rw [hl] at hl'
  cases hl'
  by_contra h0
  obtain ⟨around, _, ha, henc, -⟩ := h.subproof hk h0
  have hpos := List.length_pos_of_mem (h.self_mem ha)
  rw [henc, List.length_cons, hd] at hlen
  omega

theorem enclosing_subset {r s : Scope} (hr : o.HasScope r) (hs : o.HasScope s)
    (hk : s.id ∈ r.enclosing) : s.enclosing ⊆ r.enclosing := by
  obtain ⟨s', hs', hsuf⟩ := h.enclosing_suffix hr hk
  rw [hs.unique (h.hasScope hs').2 (h.hasScope hs').1.symm]
  exact hsuf.subset

theorem mem_ancestors {r s : Scope} : r ∈ o.ancestors s ↔ o.HasScope r ∧ r.id ∈ s.enclosing := by
  unfold ancestors
  rw [List.mem_filterMap]
  constructor
  · rintro ⟨k, hk, hr⟩
    obtain ⟨rfl, hs⟩ := h.hasScope hr
    exact ⟨hs, hk⟩
  · rintro ⟨hr, hk⟩
    exact ⟨r.id, hk, hr⟩

theorem scope_contents {s : Scope} (hs : o.HasScope s) : ∃ f, o.Along f ∧
    s.last = Placed.lastIn s.id (Layout.along o.lines f) ∧
    s.items = (Layout.along o.lines f).flatMap (·.itemsIn s.id) := by
  obtain ⟨f, a⟩ := h.along
  exact ⟨f, a, a.contents hs⟩

/-- A line in a scope, directly or deeper, is one of those from the first to the last. -/
theorem range {n : Nat} {r s : Scope} (hr : o.scopeOf n = .ok r) (hs : o.HasScope s)
    (he : s.id ∈ r.enclosing) : s.first ≤ n ∧ n ≤ s.last := by
  obtain ⟨f, a, hlast, -⟩ := h.scope_contents hs
  obtain ⟨hrs, l, hl, -⟩ := h.scopeOf_cases hr
  cases n with
  | zero => simp [line?] at hl
  | succ i =>
    have hl' : o.lines[i]? = some l := by simpa [line?] using hl
    obtain ⟨hi, -⟩ := List.getElem?_eq_some_iff.mp hl'
    obtain ⟨r', hr', -, he'⟩ := a.home hl'
    rw [hr] at hr'
    cases hr'
    rw [he'] at he
    obtain ⟨s', hs', -, hfirst⟩ := a.enclosing (by omega : i + 1 ≤ o.lines.length) he
    have hss : s' = s := by
      rw [hs] at hs'
      exact (Option.some.inj hs').symm
    refine ⟨by rw [← hss]; omega, ?_⟩
    rw [hlast]
    exact Placed.le_lastIn (Layout.along_rising o.lines f) (Layout.along_mem.mpr ⟨i, l, hl', rfl⟩) he

theorem last_le {s : Scope} (hs : o.HasScope s) : s.last ≤ o.size := by
  obtain ⟨f, a, hlast, -⟩ := h.scope_contents hs
  rcases Placed.lastIn_cases s.id (Layout.along o.lines f) with h0 | ⟨p, hp, -, e⟩
  · omega
  · obtain ⟨i, l, hl, rfl⟩ := Layout.along_mem.mp hp
    obtain ⟨hi, -⟩ := List.getElem?_eq_some_iff.mp hl
    rw [hlast, e]
    exact hi

theorem line_item {s : Scope} {n : Nat} (hs : o.HasScope s) (hn : Item.line n ∈ s.items) :
    o.scopeOf n = .ok s := by
  obtain ⟨f, a, -, hitems⟩ := h.scope_contents hs
  rw [hitems] at hn
  obtain ⟨p, hp, hnp⟩ := List.mem_flatMap.mp hn
  obtain ⟨i, l, hl, rfl⟩ := Layout.along_mem.mp hp
  obtain ⟨hhead, rfl⟩ := Placed.line_mem_itemsIn.mp hnp
  obtain ⟨r, hr, hrs, hre⟩ := a.home hl
  obtain ⟨-, ⟨e, he⟩, -⟩ := a.scope_shape hrs
  have hid : r.id = s.id := by
    rw [← hre, he] at hhead
    exact Option.some.inj hhead
  rw [hr, HasScope.unique hrs hs hid]

/-- A line is an item of the innermost scope around it. -/
theorem item_of_scopeOf {n : Nat} {s : Scope} (hs : o.scopeOf n = .ok s) : Item.line n ∈ s.items := by
  obtain ⟨hk, l, hl, -⟩ := h.scopeOf_cases hs
  obtain ⟨f, a, -, hitems⟩ := h.scope_contents hk
  cases n with
  | zero => simp [line?] at hl
  | succ i =>
    have hl' : o.lines[i]? = some l := by simpa [line?] using hl
    obtain ⟨r, hr, hrs, hre⟩ := a.home hl'
    rw [hs] at hr
    cases hr
    obtain ⟨-, ⟨e, he⟩, -⟩ := a.scope_shape hrs
    have hhead : (f (i + 1)).chain.head? = some s.id := by rw [← hre, he, List.head?_cons]
    rw [hitems]
    exact List.mem_flatMap.mpr ⟨_, Layout.along_mem.mpr ⟨i, l, hl', rfl⟩,
      Placed.line_mem_itemsIn.mpr ⟨hhead, rfl⟩⟩

end Nested

theorem encloses_iff {outer inner : Scope} :
    outer.encloses inner = true ↔ outer.id ∈ inner.enclosing := by
  unfold Scope.encloses
  rw [List.contains_iff_mem]

end Outline

end ModalFitch
