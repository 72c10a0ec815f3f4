import ModalFitch.Proofs.StrictScopes

/-! The worlds of an outline beside the nesting of its strict subproofs.

Worlds are numbered as the strict subproofs are met, and ordinary subproofs are passed over at any
depth. So a world can be read off the strict subproofs around a scope, and these off the ranges of
lines.

* `Outline.strictSubproofs`: the strict subproofs in document order, one for each further world.
* `Outline.strictAround`: the strict subproofs around a scope, innermost first.
* `Outline.Nested.lineage_strict`: the lineage of a scope's world is that of the strict subproofs
  around the scope.
* `worlds_mirror_nesting`: the worlds, their order, their depths and their ancestors. -/

namespace ModalFitch
set_option autoImplicit false

namespace Outline

/-- The strict subproofs, in the order of their first lines. -/
def strictSubproofs (o : Outline) : List Scope := o.scopes.filter (·.kind = .modal)

/-- The strict subproofs among a scope and those around it, innermost first. -/
def strictAround (o : Outline) (s : Scope) : List Scope := (o.ancestors s).filter (·.kind = .modal)

end Outline

/-! ## The list of worlds -/

namespace WorldTree

theorem addScope_scopes {t t' : WorldTree} {s : Scope} (h : t.addScope s = .ok t') :
    t'.worlds.map World.scope =
      t.worlds.map World.scope ++ ([s].filter (·.kind = .modal)).map Scope.id := by
  unfold addScope at h
  split at h
  · rename_i hroot
    cases h
    have hkind : s.kind = .root := by simpa [Scope.isRoot] using hroot
    simp [hkind]
  · obtain ⟨around, -, h⟩ := bind_ok.mp h
    split at h
    · rename_i hkind
      cases h
      simp [hkind]
    · rename_i hkind
      cases h
      simp [hkind]

/-- Every strict subproof that is added brings its world, and nothing else does. -/
theorem addScopes_scopes {t t' : WorldTree} {scopes : List Scope} (h : t.addScopes scopes = .ok t') :
    t'.worlds.map World.scope =
      t.worlds.map World.scope ++ (scopes.filter (·.kind = .modal)).map Scope.id := by
  induction scopes generalizing t with
  | nil =>
    cases h
    simp
  | cons s rest ih =>
    obtain ⟨u, hu, h⟩ := bind_ok.mp h
    rw [ih h, addScope_scopes hu, List.append_assoc, ← List.map_append, ← List.filter_append,
      List.singleton_append]

theorem ofOutline_scopes {o : Outline} {t : WorldTree} (h : ofOutline o = .ok t) :
    t.worlds.map World.scope = 0 :: o.strictSubproofs.map Scope.id := addScopes_scopes h

theorem Reflects.worlds_ids {t : WorldTree} {scopes : List Scope} (r : t.Reflects scopes) :
    t.worlds.map World.id = List.range t.size := by
  refine List.ext_getElem (by simp [size]) fun i hi _ => ?_
  rw [List.getElem_map, List.getElem_range]
  exact r.numbered i _ (List.getElem?_eq_getElem (by simpa using hi))

end WorldTree

namespace Outline.Nested

variable {o : Outline} (h : o.Nested)
include h

/-! ## Strict subproofs in order -/

theorem mem_strictSubproofs {s : Scope} : s ∈ o.strictSubproofs ↔ o.IsStrict s := by
  rw [strictSubproofs, List.mem_filter, decide_eq_true_iff]
  exact and_congr_left fun _ => ⟨h.hasScope_of_mem, List.mem_of_getElem?⟩

/-- Subproofs are numbered in the order of their first lines. -/
theorem first_lt {r s : Scope} (hr : o.HasScope r) (hs : o.HasScope s) (hr0 : r.id ≠ 0)
    (hlt : r.id < s.id) : r.first < s.first := by
  obtain ⟨f, a⟩ := h.along
  rcases a.scope_cases hr with ⟨hz, -⟩ | ⟨i, l, kind, hl, -, hi, hri⟩
  · exact absurd hz hr0
  rcases a.scope_cases hs with ⟨hz, -⟩ | ⟨j, m, kind', hm, -, hj, hsj⟩
  · omega
  have hfirst : r.first = i + 1 := by rw [hri]; rfl
  have hfirst' : s.first = j + 1 := by rw [hsj]; rfl
  by_contra hge
  -- a subproof that is opened no later has no larger number
  have hcount := a.trace.count_mono (by omega : j ≤ i) (List.getElem?_eq_some_iff.mp hl).1.le
  omega

theorem strictSubproofs_rising : o.strictSubproofs.Pairwise fun r s => r.first < s.first := by
  have hids : o.strictSubproofs.Pairwise fun r s => r.id < s.id := h.scopes_rising.filter _
  refine hids.imp_of_mem fun hr hs hlt => ?_
  have hr := h.mem_strictSubproofs.mp hr
  exact h.first_lt hr.1 (h.mem_strictSubproofs.mp hs).1 (h.strict_ne_main hr) hlt

/-! ## Strict subproofs around a scope -/

theorem mem_strictAround {r s : Scope} :
    r ∈ o.strictAround s ↔ o.IsStrict r ∧ r.id ∈ s.enclosing := by
  rw [strictAround, List.mem_filter, h.mem_ancestors, decide_eq_true_iff]
  exact and_right_comm

theorem strictAround_main {s : Scope} (hs : o.HasScope s) (h0 : s.id = 0) : o.strictAround s = [] := by
  refine List.eq_nil_iff_forall_not_mem.mpr fun r hr => ?_
  obtain ⟨hr, hin⟩ := h.mem_strictAround.mp hr
  rw [(h.main_scope hs h0).1, List.mem_singleton] at hin
  exact h.strict_ne_main hr hin

omit h in
theorem strictAround_strict {s around : Scope} (hs : o.HasScope s)
    (henc : s.enclosing = s.id :: around.enclosing) (hkind : s.kind = .modal) :
    o.strictAround s = s :: o.strictAround around := by
  unfold strictAround
  rw [ancestors_cons hs henc, List.filter_cons_of_pos (by simpa using hkind)]

omit h in
theorem strictAround_ordinary {s around : Scope} (hs : o.HasScope s)
    (henc : s.enclosing = s.id :: around.enclosing) (hkind : s.kind ≠ .modal) :
    o.strictAround s = o.strictAround around := by
  unfold strictAround
  rw [ancestors_cons hs henc, List.filter_cons_of_neg (by simpa using hkind)]

/-- The strict subproofs around a subproof by ranges of lines. -/
theorem mem_strictAround_iff {r s : Scope} (hs : o.HasScope s) (h0 : s.id ≠ 0) :
    r ∈ o.strictAround s ↔ r ∈ o.strictSubproofs ∧ (r = s ∨ r.Around s) := by
  rw [h.mem_strictAround, h.mem_strictSubproofs]
  refine and_congr_right fun hr => ?_
  rw [h.around_iff_encloses hr.1 hs h0, encloses_iff]
  constructor
  · intro hin
    by_cases e : r = s
    · exact .inl e
    · exact .inr ⟨e, hin⟩
  · rintro (rfl | ⟨-, hin⟩)
    · exact h.self_mem hs
    · exact hin

/-- Each scope in the list of those around a scope lies strictly inside the ones after it. -/
theorem ancestors_around {s : Scope} (hs : o.HasScope s) :
    (o.ancestors s).Pairwise fun r r' => r'.Around r := by
  induction hn : s.enclosing.length using Nat.strongRecOn generalizing s with
  | _ n ih =>
    by_cases h0 : s.id = 0
    · have hmain : o.ancestors s = [s] := by
        unfold HasScope at hs
        rw [h0] at hs
        unfold ancestors
        rw [(h.main_scope (h.hasScope hs).2 h0).1, List.filterMap_cons_some hs]
        rfl
      rw [hmain]
      exact List.pairwise_singleton _ s
    · obtain ⟨p, hp, -, henc, -⟩ := h.parent_of hs h0
      have hlen : p.enclosing.length < n := by rw [← hn, henc, List.length_cons]; omega
      rw [ancestors_cons hs henc, List.pairwise_cons]
      refine ⟨fun r hr => ?_, ih _ hlen hp rfl⟩
      obtain ⟨hr, hin⟩ := h.mem_ancestors.mp hr
      exact (h.around_iff hr hs hp henc).mpr hin

/-! ## Worlds by strict subproofs -/

variable (hroot : o.Rootless) {t : WorldTree} (worlds : t.Reflects o.scopes)
include hroot worlds

/-- The world of a scope is as deep as there are strict subproofs around the scope, and its lineage is
that of their worlds. -/
theorem lineage_strict {x : Scope} (hx : o.HasScope x) {w : World} (hw : t.ofScope x.id = .ok w) :
    w.depth = (o.strictAround x).length ∧
      (t.lineage w).map Except.ok =
        (o.strictAround x).map (fun r => t.ofScope r.id) ++ [.ok .actual] := by
  refine h.world_induct hroot worlds (P := fun x w => w.depth = (o.strictAround x).length ∧
    (t.lineage w).map Except.ok =
      (o.strictAround x).map (fun r => t.ofScope r.id) ++ [.ok .actual]) ?main ?ordinary ?strict hx hw
  case main =>
    intro x hx h0
    rw [h.strictAround_main hx h0]
    exact ⟨rfl, rfl⟩
  case ordinary =>
    intro x around w hx _ henc hkind _ ih
    rw [strictAround_ordinary hx henc hkind]
    exact ih
  case strict =>
    intro x around u w hx _ henc hkind hw hu hmem hparent ih
    rw [strictAround_strict hx henc hkind, worlds.lineage_below hu hmem hparent,
      (worlds.parent_cases hmem hu hparent).1, ih.1, List.map_cons, ih.2, List.map_cons, hw]
    exact ⟨rfl, rfl⟩

/-- The world of a scope is that of the nearest strict subproof around it, or else the actual one. -/
theorem ofScope_nearest {x : Scope} (hx : o.HasScope x) :
    t.ofScope x.id = (o.strictAround x).head?.elim (.ok .actual) fun r => t.ofScope r.id := by
  obtain ⟨w, hw, -⟩ := h.scope_world hroot worlds hx
  have hlineage := (h.lineage_strict hroot worlds hx hw).2
  rw [WorldTree.lineage, List.map_cons] at hlineage
  rw [hw]
  cases hlist : o.strictAround x with
  | nil =>
    rw [hlist] at hlineage
    exact (List.cons.inj hlineage).1
  | cons r rest =>
    rw [hlist] at hlineage
    exact (List.cons.inj hlineage).1

theorem strict_ancestors {s : Scope} (hs : o.IsStrict s) :
    ∃ w ∈ t.worlds, ∃ outer, o.strictAround s = s :: outer ∧ t.ofScope s.id = .ok w ∧
      w.scope = s.id ∧ w.depth = outer.length + 1 ∧
      (t.ancestors w).map Except.ok = outer.map (fun r => t.ofScope r.id) ++ [.ok .actual] := by
  obtain ⟨around, -, -, henc, -⟩ := h.parent_of hs.1 (h.strict_ne_main hs)
  obtain ⟨w, hw, hmem, -⟩ := h.scope_world hroot worlds hs.1
  have hlist := strictAround_strict hs.1 henc hs.2
  obtain ⟨hdepth, hlineage⟩ := h.lineage_strict hroot worlds hs.1 hw
  rw [hlist] at hdepth hlineage
  exact ⟨w, hmem, _, hlist, hw, (h.strict_world hroot worlds hs hw).1, hdepth,
    (List.cons.inj hlineage).2⟩

theorem line_world {n : Nat} (hn : o.hasLine n = true) :
    ∃ home w, o.scopeOf n = .ok home ∧ o.HasScope home ∧ t.ofScope home.id = .ok w ∧
      w ∈ t.worlds ∧ t.ofLine o n = .ok w := by
  obtain ⟨l, hl⟩ := hasLine_iff.mp hn
  obtain ⟨home, hhome, hk, -⟩ := h.line_scope hl
  obtain ⟨w, hw, hmem, -⟩ := h.scope_world hroot worlds hk
  exact ⟨home, w, hhome, hk, hw, hmem, bind_ok.mpr ⟨home, hhome, hw⟩⟩

/-- Two lines are in one world exactly if the same strict subproofs hold them. -/
theorem lines_same_world_iff {m n : Nat} (hm : o.hasLine m = true) (hn : o.hasLine n = true) :
    t.ofLine o m = t.ofLine o n ↔
      ∀ s ∈ o.strictSubproofs, (s.containsLine m = true ↔ s.containsLine n = true) := by
  obtain ⟨there, v, hthere, hkt, hv, -, hvm⟩ := h.line_world hroot worlds hm
  obtain ⟨here, w, hhere, hkh, hw, -, hwn⟩ := h.line_world hroot worlds hn
  rw [hvm, hwn, Except.ok.injEq, h.same_world_iff hroot worlds hkt hkh hv hw]
  refine forall_congr' fun s => ?_
  rw [h.mem_strictSubproofs]
  refine forall_congr' fun hs => ?_
  rw [h.contains_iff hthere hs.1, h.contains_iff hhere hs.1]

end Outline.Nested

/-- The worlds of every list of lines that nests and opens no second main proof. There is the actual
world, and one world for each strict subproof, numbered in document order, with a parent of a smaller
number. The strict subproofs around a subproof are those whose ranges are around its range, innermost
first. The world of a scope is that of the nearest of them, or the actual one. The world of a strict
subproof is as deep as there are strict subproofs around it, itself included, and its ancestors are the
worlds of the others, nearest first, and the actual one. Two lines are in one world exactly if the same
strict subproofs hold them. -/
theorem worlds_mirror_nesting {lines : List Line} {goal : Option Goal} {revision : Nat} {o : Outline}
    (hbuild : Outline.build lines goal revision = .ok o)
    (hopens : ∀ l ∈ lines, l.opens ≠ some .root) :
    ∃ t, WorldTree.ofOutline o = .ok t ∧
      t.worlds.head? = some .actual ∧
      t.worlds.map World.id = List.range (o.strictSubproofs.length + 1) ∧
      t.worlds.map World.scope = 0 :: o.strictSubproofs.map Scope.id ∧
      (o.strictSubproofs.Pairwise fun r s => r.first < s.first) ∧
      (∀ w ∈ t.worlds, w = .actual ∨ ∃ u ∈ t.worlds, w.parent = some u.id ∧ u.id < w.id) ∧
      (∀ s ∈ o.subproofs,
        (∀ r, r ∈ o.strictAround s ↔ r ∈ o.strictSubproofs ∧ (r = s ∨ r.Around s)) ∧
        (o.strictAround s).Pairwise fun r r' => r'.Around r) ∧
      (∀ s ∈ o.scopes, (∃ w ∈ t.worlds, t.ofScope s.id = .ok w) ∧
        t.ofScope s.id = (o.strictAround s).head?.elim (.ok .actual) fun r => t.ofScope r.id) ∧
      t.ancestors .actual = [] ∧
      (∀ s ∈ o.strictSubproofs, ∃ w ∈ t.worlds, ∃ outer, o.strictAround s = s :: outer ∧
        t.ofScope s.id = .ok w ∧ w.scope = s.id ∧ w.depth = outer.length + 1 ∧
        (t.ancestors w).map Except.ok = outer.map (fun r => t.ofScope r.id) ++ [.ok .actual]) ∧
      (∀ n, o.hasLine n = true → ∃ w ∈ t.worlds, t.ofLine o n = .ok w) ∧
      ∀ m n, o.hasLine m = true → o.hasLine n = true →
        (t.ofLine o m = t.ofLine o n ↔
          ∀ s ∈ o.strictSubproofs, (s.containsLine m = true ↔ s.containsLine n = true)) := by
  obtain ⟨h, rfl, -, -⟩ := Outline.build_cases hbuild
  obtain ⟨t, ht, r⟩ := h.worldTree hopens
  have hscopes := WorldTree.ofOutline_scopes ht
  have hsize : t.size = o.strictSubproofs.length + 1 := by
    simpa [WorldTree.size] using congrArg List.length hscopes
  refine ⟨t, ht, ?_, hsize ▸ r.worlds_ids, hscopes, h.strictSubproofs_rising, ?_, ?_, ?_, rfl, ?_, ?_, ?_⟩
  · rw [List.head?_eq_getElem?]
    exact r.start
  · intro w hw
    rcases r.rooted w hw with hw | ⟨u, hu, hp, -, hlt⟩
    · exact .inl hw
    · exact .inr ⟨u, hu, hp, hlt⟩
  · intro s hs
    obtain ⟨hk, h0⟩ := (h.mem_subproofs hopens).mp hs
    exact ⟨fun x => h.mem_strictAround_iff hk h0, (h.ancestors_around hk).filter _⟩
  · intro s hs
    have hk := h.hasScope_of_mem hs
    obtain ⟨w, hw, hmem, -⟩ := h.scope_world hopens r hk
    exact ⟨⟨w, hmem, hw⟩, h.ofScope_nearest hopens r hk⟩
  · exact fun s hs => h.strict_ancestors hopens r (h.mem_strictSubproofs.mp hs)
  · intro n hn
    obtain ⟨_, w, -, -, -, hmem, hw⟩ := h.line_world hopens r hn
    exact ⟨w, hmem, hw⟩
  · exact fun m n hm hn => h.lines_same_world_iff hopens r hm hn

/-- Strict subproofs inside an ordinary one and around one. -/
def interleaved : List Line :=
  createLines [("P", "PR", 0, none), ("□", "", 1, some .modal), ("Q", "PR", 2, some .ordinary),
    ("□", "", 3, some .modal), ("Q → Q", "→I 3-4", 1, none), ("R", "PR", 1, some .ordinary),
    ("□", "", 2, some .modal)]

/-- The third and the fifth line share a world across the end of an ordinary subproof. The world of the
fourth is below theirs. -/
theorem worlds_mirror_nesting_interleaved : ∃ o t, Outline.build interleaved none 0 = .ok o ∧
    WorldTree.ofOutline o = .ok t ∧ t.worlds.map World.scope = [0, 1, 3, 5] ∧
    t.ofLine o 3 = t.ofLine o 5 ∧ t.ofLine o 4 ≠ t.ofLine o 5 ∧
    ∃ w ∈ t.worlds, w.scope = 3 ∧ w.depth = 2 ∧ (t.ancestors w).map World.scope = [1, 0] := by
  obtain ⟨o, ho, h⟩ := exists_ok (x := Outline.build interleaved none 0)
    (p := fun o => o.hasLine 3 && o.hasLine 4 && o.hasLine 5 &&
      decide (o.strictSubproofs.map Scope.id = [1, 3, 5]) &&
      decide (∀ s ∈ o.strictSubproofs, (s.containsLine 3 = true ↔ s.containsLine 5 = true)) &&
      decide (∃ s ∈ o.strictSubproofs, s.containsLine 4 = true ∧ ¬s.containsLine 5 = true) &&
      decide (∃ r ∈ o.strictSubproofs, ∃ s ∈ o.strictSubproofs, r.id = 1 ∧ s.id = 3 ∧
        o.strictAround s = [s, r]))
    (by decide +kernel)
  simp only [Bool.and_eq_true, decide_eq_true_eq] at h
  obtain ⟨⟨⟨⟨⟨⟨h3, h4⟩, h5⟩, hids⟩, hsame⟩, ⟨s, hs, hs4, hs5⟩⟩, ⟨r, hr, s', hs', hr1, hs3, haround⟩⟩ := h
  obtain ⟨t, ht, -, -, hscopes, -, -, -, -, -, hancestors, -, hlines⟩ :=
    worlds_mirror_nesting ho (by decide +kernel)
  obtain ⟨w, hw, outer, hlist, -, hscope, hdepth, hup⟩ := hancestors s' hs'
  obtain ⟨u, -, -, -, hu, huscope, -⟩ := hancestors r hr
  cases haround.symm.trans hlist
  refine ⟨o, t, ho, ht, by rw [hscopes, hids], (hlines 3 5 h3 h5).mpr hsame, fun hworld => ?_, w, hw,
    by rw [hscope, hs3], hdepth, ?_⟩
  · exact hs5 (((hlines 4 5 h4 h5).mp hworld s hs).mp hs4)
  · have hworlds : t.ancestors w = [u, .actual] := by
      apply List.map_injective_iff.mpr (fun a b hab => Except.ok.inj hab)
      rw [hup]
      simp [hu]
    rw [hworlds, List.map_cons, huscope, hr1]
    rfl

end ModalFitch
