import ModalFitch.Proofs.Coverage
import ModalFitch.Proofs.Placement

/-! An outline and the outline of its first lines.

Later lines can make a scope longer and bring new scopes and worlds. They change no scope that was
closed before, no scope around an earlier line but for its end, and nothing about the worlds that
were there.

* `Scope.stem`: what a scope has from its first line on.
* `Outline.Extended`: one outline has the lines of another and perhaps more. Its scopes begin with
  the same stems, and a scope that is closed in one of them is the same in both.
* `WorldTree.Extended`: the worlds of such an outline, with the same access among the old ones. -/

namespace ModalFitch
set_option autoImplicit false

theorem getElem?_of_initial {α : Type} {xs ys : List α} (h : xs <+: ys) {i : Nat} {a : α}
    (ha : xs[i]? = some a) : ys[i]? = some a := by
  obtain ⟨hi, rfl⟩ := List.getElem?_eq_some_iff.mp ha
  exact List.prefix_iff_getElem?.mp h i hi

/-! ## Layouts -/

namespace Layout

variable {lines : List Line} {f g : Nat → Layout}

theorem Trace.of_initial {before : List Line} (t : Trace lines f) (h : before <+: lines) :
    Trace before f :=
  ⟨t.start, fun i l hl => t.step i l (getElem?_of_initial h hl)⟩

theorem Trace.unique (t : Trace lines f) (u : Trace lines g) {i : Nat} (hi : i ≤ lines.length) :
    f i = g i := by
  induction i with
  | zero => rw [t.start, u.start]
  | succ i ih =>
    have hl : lines[i]? = some lines[i] := List.getElem?_eq_getElem (by omega)
    have ht := t.step i _ hl
    rw [ih (by omega), u.step i _ hl] at ht
    exact (Except.ok.inj ht).symm

theorem along_initial {before : List Line} (h : before <+: lines) (f : Nat → Layout) :
    along before f <+: along lines f := by
  obtain ⟨rest, rfl⟩ := h
  unfold along
  rw [List.mapIdx_append]
  exact List.prefix_append _ _

end Layout

theorem Outline.Nested.along_of_trace {o : Outline} (h : o.Nested) {f : Nat → Layout}
    (t : Layout.Trace o.lines f) : o.Along f := by
  obtain ⟨g, a⟩ := h.along
  have hchain : ∀ i, i < o.lines.length → (g (i + 1)).chain = (f (i + 1)).chain := by
    intro i hi
    rw [a.trace.unique t (by omega : i + 1 ≤ o.lines.length)]
  refine ⟨t, ?_, ?_⟩
  · rw [a.homes]
    apply List.map_congr_left
    intro i hi
    rw [hchain i (List.mem_range.mp hi)]
  · rw [a.scopes]
    congr 1
    apply List.ext_getElem
    · simp [Layout.along]
    · intro i hi _
      have hi : i < o.lines.length := by simpa [Layout.along] using hi
      simp [Layout.along, hchain i hi]

/-! ## Scopes -/

/-- The scope as its first line makes it, without its end and its contents. -/
def Scope.stem (s : Scope) : Scope := { s with last := 0, items := [] }

theorem Scope.stem_eq_iff {s s' : Scope} : s'.stem = s.stem ↔ s'.id = s.id ∧
    s'.enclosing = s.enclosing ∧ s'.kind = s.kind ∧ s'.depth = s.depth ∧ s'.first = s.first := by
  simp [stem]

theorem Scope.eq_of_stem {s s' : Scope} (h : s'.stem = s.stem) (hlast : s'.last = s.last)
    (hitems : s'.items = s.items) : s' = s := by
  obtain ⟨hid, henc, hkind, hdepth, hfirst⟩ := stem_eq_iff.mp h
  cases s
  cases s'
  simp only [Scope.mk.injEq]
  exact ⟨hid, henc, hkind, hdepth, hfirst, hlast, hitems⟩

theorem Scope.encloses_eq {outer outer' inner inner' : Scope} (ho : outer'.stem = outer.stem)
    (hi : inner'.stem = inner.stem) : outer'.encloses inner' = outer.encloses inner := by
  unfold encloses
  rw [(stem_eq_iff.mp ho).1, (stem_eq_iff.mp hi).2.1]

theorem Scope.all_enclose_iff {outers outers' : List Scope} {inner inner' : Scope}
    (ho : outers'.map stem = outers.map stem) (hi : inner'.stem = inner.stem) :
    (∀ s ∈ outers', s.encloses inner' = true) ↔ ∀ s ∈ outers, s.encloses inner = true := by
  have hmap : ∀ (ss : List Scope) (r : Scope), (∀ s ∈ ss, s.encloses r = true) ↔
      ∀ s ∈ ss.map stem, s.encloses r.stem = true := by
    intro ss r
    rw [List.forall_mem_map]
    rfl
  rw [hmap outers', hmap outers, ho, hi]

theorem Placed.opened_stem (ps qs : List Placed) (p : Placed) :
    (opened ps p).map Scope.stem = (opened qs p).map Scope.stem := by
  unfold opened
  cases p.line.opens with
  | none => rfl
  | some kind =>
    cases p.chain.head? with
    | none => rfl
    | some id => rfl

theorem scopesOf_stem {ps qs : List Placed} (h : ps <+: qs) :
    (scopesOf ps).map Scope.stem <+: (scopesOf qs).map Scope.stem := by
  unfold scopesOf
  rw [List.map_cons, List.map_cons, List.map_filterMap, List.map_filterMap]
  apply List.cons_prefix_cons.mpr ⟨rfl, ?_⟩
  simp only [Placed.opened_stem ps qs]
  exact h.filterMap _

/-- Lines that do not stand in a scope leave its last line and its items. -/
theorem Placed.contents_append (ps : List Placed) {rest : List Placed} {id : Nat}
    (h : ∀ p ∈ rest, id ∉ p.chain) :
    lastIn id (ps ++ rest) = lastIn id ps ∧
      (ps ++ rest).flatMap (·.itemsIn id) = ps.flatMap (·.itemsIn id) := by
  constructor
  · induction rest using List.reverseRecOn with
    | nil => rw [List.append_nil]
    | append_singleton rest p ih =>
      have hp : p.chain.contains id = false := by
        simpa using h p (List.mem_append_right _ (List.mem_singleton.mpr rfl))
      rw [← List.append_assoc, lastIn_concat, hp, if_neg Bool.false_ne_true]
      exact ih fun q hq => h q (List.mem_append_left _ hq)
  · rw [List.flatMap_append]
    have hnone : rest.flatMap (·.itemsIn id) = [] := by
      rw [List.flatMap_eq_nil_iff]
      intro p hp
      have hhead : p.chain.head? ≠ some id := fun e => h p hp (List.mem_of_head? e)
      have hnext : p.chain[1]? ≠ some id := fun e => h p hp (List.mem_of_getElem? e)
      simp [itemsIn, hhead, hnext]
    rw [hnone, List.append_nil]

namespace Outline

/-- The second outline has the lines of the first one and perhaps more. -/
structure Extended (o o' : Outline) : Prop where
  nested : o.Nested
  nested' : o'.Nested
  lines : o.lines <+: o'.lines

namespace Extended

variable {o o' : Outline} (e : o.Extended o')
include e

theorem size_le : o.size ≤ o'.size := e.lines.length_le

theorem line_eq {n : Nat} (hn : n ≤ o.size) : o'.line? n = o.line? n := by
  unfold line?
  by_cases h0 : n = 0
  · rw [if_pos h0, if_pos h0]
  · have hi : n - 1 < o.lines.length := by
      unfold size at hn
      omega
    rw [if_neg h0, if_neg h0, List.getElem?_eq_getElem hi]
    exact List.prefix_iff_getElem?.mp e.lines _ hi

theorem line_some {n : Nat} {l : Line} (hl : o.line? n = some l) : o'.line? n = some l := by
  rw [e.line_eq (hasLine_bounds.mp (hasLine_iff.mpr ⟨l, hl⟩)).2, hl]

theorem along : ∃ f, o.Along f ∧ o'.Along f := by
  obtain ⟨f, a⟩ := e.nested'.along
  exact ⟨f, e.nested.along_of_trace (a.trace.of_initial e.lines), a⟩

theorem stems : o.scopes.map Scope.stem <+: o'.scopes.map Scope.stem := by
  obtain ⟨f, a, a'⟩ := e.along
  rw [a.scopes, a'.scopes]
  exact scopesOf_stem (Layout.along_initial e.lines f)

theorem scope_some {k : Nat} {s : Scope} (hs : o.scopes[k]? = some s) :
    ∃ s', o'.scopes[k]? = some s' ∧ s'.stem = s.stem := by
  have hstem : (o.scopes.map Scope.stem)[k]? = some s.stem := by
    rw [List.getElem?_map, hs]
    rfl
  have hstem := getElem?_of_initial e.stems hstem
  rw [List.getElem?_map] at hstem
  exact Option.map_eq_some_iff.mp hstem

theorem scopeOf_some {n : Nat} {s : Scope} (hs : o.scopeOf n = .ok s) :
    ∃ s', o'.scopeOf n = .ok s' ∧ s'.stem = s.stem := by
  obtain ⟨f, a, a'⟩ := e.along
  obtain ⟨hk, l, hl, -⟩ := e.nested.scopeOf_cases hs
  obtain ⟨hpos, hat⟩ := line?_eq_some.mp hl
  have hn : n - 1 + 1 = n := by omega
  obtain ⟨r, hr, -, henc⟩ := a.home hat
  obtain ⟨r', hr', hk', henc'⟩ := a'.home (getElem?_of_initial e.lines hat)
  rw [hn] at hr hr' henc henc'
  rw [hs] at hr
  cases hr
  refine ⟨r', hr', ?_⟩
  -- both stand for the innermost scope of one layout
  obtain ⟨s', hs', hstem⟩ := e.scope_some hk
  have hid : r'.id = s.id := by
    obtain ⟨-, ⟨rest, he⟩, -⟩ := a.scope_shape hk
    obtain ⟨-, ⟨rest', he'⟩, -⟩ := a'.scope_shape hk'
    rw [henc', ← henc, he] at he'
    exact (List.cons.inj he').1.symm
  rw [hid, hs'] at hk'
  rw [← Option.some.inj hk', hstem]

theorem scopeOf_back {n : Nat} {s' : Scope} (hs' : o'.scopeOf n = .ok s') (hn : n ≤ o.size) :
    ∃ s, o.scopeOf n = .ok s ∧ s'.stem = s.stem := by
  obtain ⟨-, l, hl, -⟩ := e.nested'.scopeOf_cases hs'
  rw [e.line_eq hn] at hl
  obtain ⟨s, hs, -, -⟩ := e.nested.line_scope hl
  obtain ⟨r, hr, hstem⟩ := e.scopeOf_some hs
  rw [hs'] at hr
  cases hr
  exact ⟨s, hs, hstem⟩

/-- A scope that begins among the first lines is there already. -/
theorem scope_back {s' : Scope} (hs' : o'.HasScope s') (hfirst : s'.first ≤ o.size) :
    ∃ s, o.HasScope s ∧ s'.stem = s.stem := by
  by_cases h0 : s'.id = 0
  · obtain ⟨f, a, -⟩ := e.along
    obtain ⟨r, hr, hstem⟩ := e.scope_some a.scope_main
    rw [HasScope, h0, hr] at hs'
    cases hs'
    exact ⟨o.mainProof f, a.scope_main, hstem⟩
  · obtain ⟨_, _, -, -, -, -, -, -, hhome⟩ := e.nested'.subproof hs' h0
    obtain ⟨s, hs, hstem⟩ := e.scopeOf_back hhome hfirst
    exact ⟨s, (e.nested.scopeOf_cases hs).1, hstem⟩

/-- A scope that is not around some line of the first ones after its beginning is the same in
both. -/
theorem scope_eq {s s' : Scope} (hs : o.HasScope s) (hs' : o'.HasScope s')
    (hstem : s'.stem = s.stem) {n : Nat} (hn : n ≤ o.size)
    (hclosed : s.last < n ∨ s'.last < n) : s' = s := by
  obtain ⟨hid, -, -, -, hfirst⟩ := Scope.stem_eq_iff.mp hstem
  obtain ⟨f, a, a'⟩ := e.along
  obtain ⟨l, hl⟩ : ∃ l, o.line? n = some l := exists_line (by omega) hn
  obtain ⟨home, hhome, -, -⟩ := e.nested.line_scope hl
  obtain ⟨home', hhome', hsame⟩ := e.scopeOf_some hhome
  obtain ⟨hpos, hat⟩ := line?_eq_some.mp hl
  have hchain : home.enclosing = (f n).chain := by
    obtain ⟨r, hr, -, he⟩ := a.home hat
    rw [Nat.sub_add_cancel (Nat.one_le_iff_ne_zero.mpr hpos)] at hr he
    rw [hhome] at hr
    cases hr
    exact he
  have hout : s.id ∉ (f n).chain := by
    intro hmem
    have h1 := (e.nested.range hhome hs (hchain ▸ hmem)).2
    have henc' := (Scope.stem_eq_iff.mp hsame).2.1
    have h2 := (e.nested'.range hhome' hs' (by rw [hid, henc', hchain]; exact hmem)).2
    omega
  have h0 : s.id ≠ 0 := by
    intro h0
    apply hout
    rw [h0, ← hchain]
    exact e.nested.zero_mem (e.nested.scopeOf_cases hhome).1
  have hle := e.nested.subproof_nonempty hs h0
  have hle' := e.nested'.subproof_nonempty hs' (hid ▸ h0)
  -- it was opened before that line, so no later line stands in it
  have hopened : s.id < (f n).count := by
    rcases a.scope_cases hs with ⟨hz, -⟩ | ⟨i, k, kind, hk, ho, hcount, es⟩
    · exact absurd hz h0
    · have hfi : s.first = i + 1 := by rw [es]; rfl
      have hmono := a.trace.count_mono (by omega : i + 1 ≤ n) hn
      obtain ⟨-, ⟨_, _, -, hc, -⟩ | ⟨ho', -⟩⟩ := a.trace.line hk
      · omega
      · rw [ho] at ho'
        cases ho'
  obtain ⟨rest, hrest⟩ := Layout.along_initial e.lines f
  have hlater : ∀ p ∈ rest, s.id ∉ p.chain := by
    intro p hp hmem
    obtain ⟨j, hj⟩ := List.mem_iff_getElem?.mp hp
    have hlen : (Layout.along o.lines f).length = o.size := by simp [Layout.along, size]
    have hwhole : (Layout.along o'.lines f)[o.size + j]? = some p := by
      rw [← hrest, List.getElem?_append_right (by omega), hlen, Nat.add_sub_cancel_left, hj]
    obtain ⟨m, hm, rfl⟩ := (Layout.along_getElem? o'.lines f _ p).mp hwhole
    have hlt := (List.getElem?_eq_some_iff.mp hm).1
    exact hout (a'.trace.open_between (by omega) (by omega) hopened hmem)
  obtain ⟨hlast, hitems⟩ := a.contents hs
  obtain ⟨hlast', hitems'⟩ := a'.contents hs'
  obtain ⟨elast, eitems⟩ := Placed.contents_append (Layout.along o.lines f) hlater
  rw [hid, ← hrest, elast, ← hlast] at hlast'
  rw [hid, ← hrest, eitems, ← hitems] at hitems'
  exact Scope.eq_of_stem hstem hlast' hitems'

/-- The ranges that end before some line of the first ones belong to the same subproofs. -/
theorem subproofAt_eq (hroot : o'.Rootless) {first last n : Nat} (hn : n ≤ o.size)
    (hlast : last < n) :
    o'.subproofAt first last = o.subproofAt first last := by
  have hroot₀ : o.Rootless := fun l hl => hroot l (e.lines.mem hl)
  apply Option.ext
  intro s
  rw [e.nested.subproofAt_iff hroot₀, e.nested'.subproofAt_iff hroot]
  constructor
  · rintro ⟨hs', h0, hfirst, hend⟩
    have hle := e.nested'.subproof_nonempty hs' h0
    obtain ⟨r, hr, hstem⟩ := e.scope_back hs' (by omega)
    have heq := e.scope_eq hr hs' hstem hn (.inr (by omega))
    exact ⟨heq ▸ hr, h0, hfirst, hend⟩
  · rintro ⟨hs, h0, hfirst, hend⟩
    obtain ⟨r, hr, hstem⟩ := e.scope_some hs
    obtain ⟨hid, hr⟩ := e.nested'.hasScope hr
    have heq := e.scope_eq hs hr hstem hn (.inl (by omega))
    exact ⟨heq ▸ hr, h0, hfirst, hend⟩

/-! ## Visibility -/

theorem hasLine_eq {n : Nat} (hn : n ≤ o.size) : o'.hasLine n = o.hasLine n := by
  have hle := e.size_le
  unfold hasLine
  rw [decide_eq_true hn, decide_eq_true (by omega : n ≤ o'.size)]

theorem lineVisible_eq {n m : Nat} (hn : n ≤ o.size) : o'.lineVisible n m = o.lineVisible n m := by
  unfold lineVisible
  by_cases hm : m < n
  · rw [e.hasLine_eq (by omega : m ≤ o.size)]
    by_cases hhas : o.hasLine m = true
    · obtain ⟨k, hk⟩ := hasLine_iff.mp hhas
      obtain ⟨l, hl⟩ : ∃ l, o.line? n = some l := exists_line (by omega) hn
      obtain ⟨there, hthere, -, -⟩ := e.nested.line_scope hk
      obtain ⟨here, hhere, -, -⟩ := e.nested.line_scope hl
      obtain ⟨there', hthere', et⟩ := e.scopeOf_some hthere
      obtain ⟨here', hhere', eh⟩ := e.scopeOf_some hhere
      rw [hthere, hhere, hthere', hhere']
      simp only [bind, Except.bind, Scope.encloses_eq et eh]
    · simp [hhas]
  · simp [hm]

theorem subproofVisible_eq {n : Nat} (hn : n ≤ o.size) {s : Scope} (hs : o.HasScope s) :
    o'.subproofVisible n s = o.subproofVisible n s := by
  unfold subproofVisible
  by_cases hcond : (s.isRoot || decide (n ≤ s.last)) = true
  · rw [if_pos hcond, if_pos hcond]
  · rw [if_neg hcond, if_neg hcond]
    have hlt : s.last < n := by
      simp only [Bool.or_eq_true, decide_eq_true_eq, not_or] at hcond
      omega
    obtain ⟨l, hl⟩ : ∃ l, o.line? n = some l := exists_line (by omega) hn
    obtain ⟨here, hhere, -, -⟩ := e.nested.line_scope hl
    obtain ⟨here', hhere', eh⟩ := e.scopeOf_some hhere
    have hparent : (o'.parent? s).map (·.encloses here) = (o.parent? s).map (·.encloses here) := by
      unfold parent? Scope.parent?
      cases hk : s.enclosing[1]? with
      | none => rfl
      | some k =>
        obtain ⟨r, hr, -⟩ := e.nested.enclosing_suffix hs (List.mem_of_getElem? hk)
        obtain ⟨r', hr', er⟩ := e.scope_some hr
        simp only [Option.bind_some, hr, hr', Option.map_some, Scope.encloses_eq er rfl]
    rw [hhere, hhere']
    simp only [bind, Except.bind, Scope.encloses_eq rfl eh]
    split
    · rfl
    · revert hparent
      cases o'.parent? s <;> cases o.parent? s <;> simp +contextual

theorem ancestors_stem {here here' : Scope} (hhere : o.HasScope here)
    (hstem : here'.stem = here.stem) :
    (o'.ancestors here').map Scope.stem = (o.ancestors here).map Scope.stem := by
  unfold ancestors
  rw [(Scope.stem_eq_iff.mp hstem).2.1, List.map_filterMap, List.map_filterMap]
  apply List.filterMap_congr
  intro k hk
  obtain ⟨s, hs, -⟩ := e.nested.enclosing_suffix hhere hk
  obtain ⟨s', hs', es⟩ := e.scope_some hs
  rw [hs, hs', Option.map_some, Option.map_some, es]

/-- The assumptions in force over one of the first lines are the same. -/
theorem hypothesesOver_stem {n : Nat} {hypotheses : List Scope}
    (h : o.hypothesesOver n = .ok hypotheses) : ∃ hypotheses',
      o'.hypothesesOver n = .ok hypotheses' ∧
        hypotheses'.map Scope.stem = hypotheses.map Scope.stem := by
  obtain ⟨here, hhere, h⟩ := bind_ok.mp h
  obtain ⟨here', hhere', hstem⟩ := e.scopeOf_some hhere
  obtain ⟨hk, l, hl, -⟩ := e.nested.scopeOf_cases hhere
  have hn := (hasLine_bounds.mp (hasLine_iff.mpr ⟨l, hl⟩)).2
  cases h
  refine ⟨_, bind_ok.mpr ⟨here', hhere', rfl⟩, ?_⟩
  -- whether a scope has an assumption depends on its stem and on its first line
  have hpush : ∀ (q : Outline) (ss : List Scope),
      (ss.filter q.hasAssumption).map Scope.stem = (ss.map Scope.stem).filter q.hasAssumption := by
    intro q ss
    rw [List.filter_map]
    rfl
  rw [hpush, hpush, e.ancestors_stem hk hstem]
  apply List.filter_congr
  intro r hr
  obtain ⟨s, hs, rfl⟩ := List.mem_map.mp hr
  obtain ⟨hs, hmem⟩ := e.nested.mem_ancestors.mp hs
  have hfirst := (e.nested.range hhere hs hmem).1
  have hline : o'.line? s.first = o.line? s.first := e.line_eq (by omega)
  show (!s.isRoot && !o'.isMarkerAt s.first) = (!s.isRoot && !o.isMarkerAt s.first)
  unfold isMarkerAt
  rw [hline]

theorem hypothesesOver_back {n : Nat} {hypotheses' : List Scope}
    (h : o'.hypothesesOver n = .ok hypotheses') (hn : n ≤ o.size) : ∃ hypotheses,
      o.hypothesesOver n = .ok hypotheses ∧
        hypotheses'.map Scope.stem = hypotheses.map Scope.stem := by
  obtain ⟨here', hhere', -⟩ := bind_ok.mp h
  obtain ⟨here, hhere, -⟩ := e.scopeOf_back hhere' hn
  obtain ⟨hypotheses, hover⟩ : ∃ hypotheses, o.hypothesesOver n = .ok hypotheses :=
    ⟨_, bind_ok.mpr ⟨here, hhere, rfl⟩⟩
  obtain ⟨later, hlater, hstem⟩ := e.hypothesesOver_stem hover
  rw [h] at hlater
  cases hlater
  exact ⟨hypotheses, hover, hstem⟩

end Extended

end Outline

/-! ## Worlds -/

namespace WorldTree

theorem addScopes_stem (t : WorldTree) (scopes : List Scope) :
    t.addScopes (scopes.map Scope.stem) = t.addScopes scopes := by
  induction scopes generalizing t with
  | nil => rfl
  | cons s rest ih =>
    rw [List.map_cons, addScopes, addScopes, show t.addScope s.stem = t.addScope s from rfl]
    simp only [ih]

theorem addScopes_append (t : WorldTree) (xs ys : List Scope) :
    t.addScopes (xs ++ ys) = t.addScopes xs >>= fun u => u.addScopes ys := by
  induction xs generalizing t with
  | nil => rfl
  | cons s xs ih =>
    rw [List.cons_append, addScopes, addScopes]
    cases t.addScope s with
    | error e => rfl
    | ok u => exact ih u

/-- The second tree has the worlds and the homes of the first one and perhaps more. -/
structure Extended (t t' : WorldTree) : Prop where
  worlds : t.worlds <+: t'.worlds
  homes : t.homes <+: t'.homes

theorem addScope_extended {t t' : WorldTree} {s : Scope} (h : t.addScope s = .ok t') :
    t.Extended t' := by
  unfold addScope at h
  split at h
  · cases h
    exact ⟨List.prefix_rfl, List.prefix_rfl⟩
  · obtain ⟨around, -, h⟩ := bind_ok.mp h
    split at h
    · cases h
      exact ⟨List.prefix_append _ _, List.prefix_append _ _⟩
    · cases h
      exact ⟨List.prefix_rfl, List.prefix_append _ _⟩

theorem addScopes_extended {t t' : WorldTree} {scopes : List Scope}
    (h : t.addScopes scopes = .ok t') : t.Extended t' := by
  induction scopes generalizing t with
  | nil =>
    cases h
    exact ⟨List.prefix_rfl, List.prefix_rfl⟩
  | cons s rest ih =>
    obtain ⟨u, hu, h⟩ := bind_ok.mp h
    have hfirst := addScope_extended hu
    have hrest := ih h
    exact ⟨hfirst.worlds.trans hrest.worlds, hfirst.homes.trans hrest.homes⟩

end WorldTree

theorem Outline.Extended.worlds {o o' : Outline} (e : o.Extended o') {t t' : WorldTree}
    (ht : WorldTree.ofOutline o = .ok t) (ht' : WorldTree.ofOutline o' = .ok t') :
    t.Extended t' := by
  obtain ⟨rest, hrest⟩ := e.stems
  unfold WorldTree.ofOutline at ht ht'
  rw [← WorldTree.addScopes_stem, ← hrest, WorldTree.addScopes_append, WorldTree.addScopes_stem, ht]
    at ht'
  exact WorldTree.addScopes_extended ht'

namespace WorldTree.Extended

variable {t t' : WorldTree} (e : t.Extended t')
include e

theorem ofScope_ok {k : Nat} {w : World} (h : t.ofScope k = .ok w) : t'.ofScope k = .ok w := by
  obtain ⟨rest, hrest⟩ := e.homes
  unfold ofScope at h ⊢
  rw [← hrest, List.lookup_append]
  cases hl : List.lookup k t.homes with
  | none =>
    rw [hl] at h
    cases h
  | some w' =>
    rw [hl] at h
    exact h

variable {scopes scopes' : List Scope} (r : t.Reflects scopes) (r' : t'.Reflects scopes')
include r r'

theorem lineage_eq {w : World} (hw : w ∈ t.worlds) : t'.lineage w = t.lineage w := by
  refine r.induct (P := fun w => t'.lineage w = t.lineage w) rfl ?_ w hw
  intro u w hu hw hp ih
  rw [r.lineage_below hu hw hp, r'.lineage_below (e.worlds.mem hu) (e.worlds.mem hw) hp, ih]

/-- New worlds give no new access among the old ones. -/
theorem canImport_eq (system : ModalSystem) {a b : World} (ha : a ∈ t.worlds) (hb : b ∈ t.worlds) :
    t'.canImport system a b = t.canImport system a b := by
  have haccess : t'.accessible system a b = t.accessible system a b := by
    by_cases htrans : system.transitive = true
    · rw [Bool.eq_iff_iff, r.accessible_iff htrans ha hb,
        r'.accessible_iff htrans (e.worlds.mem ha) (e.worlds.mem hb), e.lineage_eq r r' ha]
    · unfold accessible
      rw [if_neg htrans, if_neg htrans]
  unfold canImport
  rw [haccess]

end WorldTree.Extended

end ModalFitch
