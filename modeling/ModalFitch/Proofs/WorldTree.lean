import ModalFitch.Proofs.Reachability
import ModalFitch.Proofs.ScopeTree
import ModalFitch.World

/-! The worlds of an outline as a tree.

* `WorldTree.Reflects`: the worlds are those of some scopes. Every scope has a world: a strict
  subproof one of its own below the world around it, an ordinary one the world around it.
* `Outline.Nested.worldTree`: every outline without a second main proof has such a tree.
* `Outline.Nested.world_induct`: induction over the scopes and their worlds, from the main proof in.
* `WorldTree.lineage`: a world and those around it. The world of a scope is in the lineage of the
  world of every scope inside it, and without symmetry access stays in the lineage.
* `WorldTree.Reflects.accessible_iff`: access in a transitive system. -/

namespace ModalFitch
set_option autoImplicit false

namespace WorldTree

/-- The worlds of some scopes. -/
structure Reflects (t : WorldTree) (scopes : List Scope) : Prop where
  start : t.worlds[0]? = some .actual
  main : List.lookup 0 t.homes = some .actual
  numbered : ∀ (i : Nat) (w : World), t.worlds[i]? = some w → w.id = i
  rooted : ∀ w ∈ t.worlds, w = .actual ∨
    ∃ u ∈ t.worlds, w.parent = some u.id ∧ w.depth = u.depth + 1 ∧ u.id < w.id
  listed : ∀ k w, List.lookup k t.homes = some w → w ∈ t.worlds
  known : ∀ k w, List.lookup k t.homes = some w → k = 0 ∨ ∃ s ∈ scopes, s.id = k
  home : ∀ s ∈ scopes, s.isRoot = false →
    ∃ u w, List.lookup (s.parent?.getD 0) t.homes = some u ∧ List.lookup s.id t.homes = some w ∧
      ((s.kind = .modal ∧ w.parent = some u.id ∧ w.scope = s.id) ∨ (s.kind ≠ .modal ∧ w = u))

theorem lookup_single {k j : Nat} {w : World} :
    List.lookup k [(j, w)] = if k = j then some w else none := by
  rw [List.lookup_cons]
  by_cases h : k = j
  · simp [h]
  · have hb : (k == j) = false := beq_false_of_ne h
    simp [hb, h]

theorem lookup_concat {homes : List (Nat × World)} {k j : Nat} {w : World} :
    List.lookup k (homes ++ [(j, w)]) = (List.lookup k homes).or (if k = j then some w else none) := by
  rw [List.lookup_append, lookup_single]

theorem start_reflects : start.Reflects [] := by
  refine ⟨rfl, rfl, ?_, ?_, ?_, ?_, ?_⟩
  · intro i w h
    cases i with
    | zero => cases h; rfl
    | succ i => cases h
  · intro w hw
    exact .inl (List.mem_singleton.mp hw)
  · intro k w h
    rw [start, lookup_single] at h
    split at h
    · cases h; exact List.mem_singleton.mpr rfl
    · cases h
  · intro k w h
    rw [start, lookup_single] at h
    split at h
    · rename_i hk
      exact .inl hk
    · cases h
  · intro s hs
    cases hs

/-- A tree with one more home for a scope that had none, in a world that is listed or new. -/
theorem Reflects.addHome {t : WorldTree} {scopes : List Scope} (r : t.Reflects scopes) {s : Scope}
    {u w : World} {worlds : List World} (hnew : List.lookup s.id t.homes = none)
    (hu : List.lookup (s.parent?.getD 0) t.homes = some u)
    (hw : (s.kind = .modal ∧ w.parent = some u.id ∧ w.scope = s.id) ∨ (s.kind ≠ .modal ∧ w = u))
    (hsub : t.worlds ⊆ worlds) (hmem : w ∈ worlds) (hstart : worlds[0]? = some .actual)
    (hnum : ∀ (i : Nat) (w : World), worlds[i]? = some w → w.id = i)
    (hroot : ∀ w ∈ worlds, w = .actual ∨
      ∃ u ∈ worlds, w.parent = some u.id ∧ w.depth = u.depth + 1 ∧ u.id < w.id) :
    (WorldTree.mk worlds (t.homes ++ [(s.id, w)])).Reflects (scopes ++ [s]) := by
  have keep : ∀ {k v}, List.lookup k t.homes = some v →
      List.lookup k (t.homes ++ [(s.id, w)]) = some v := by
    intro k v h
    rw [lookup_concat, h, Option.some_or]
  have old : ∀ {k v}, List.lookup k (t.homes ++ [(s.id, w)]) = some v →
      List.lookup k t.homes = some v ∨ (k = s.id ∧ v = w) := by
    intro k v h
    rw [lookup_concat, Option.or_eq_some_iff] at h
    rcases h with h | ⟨-, h⟩
    · exact .inl h
    · split at h
      · rename_i hk
        exact .inr ⟨hk, (Option.some.inj h).symm⟩
      · cases h
  refine ⟨hstart, keep r.main, hnum, hroot, ?_, ?_, ?_⟩
  · intro k v h
    rcases old h with h | ⟨-, rfl⟩
    · exact hsub (r.listed k v h)
    · exact hmem
  · intro k v h
    rcases old h with h | ⟨rfl, -⟩
    · rcases r.known k v h with h0 | ⟨x, hx, e⟩
      · exact .inl h0
      · exact .inr ⟨x, List.mem_append_left _ hx, e⟩
    · exact .inr ⟨s, by simp, rfl⟩
  · intro x hx hroot'
    rcases List.mem_append.mp hx with hx | hx
    · obtain ⟨a, b, ha, hb, hab⟩ := r.home x hx hroot'
      exact ⟨a, b, keep ha, keep hb, hab⟩
    · rw [List.mem_singleton] at hx
      subst hx
      exact ⟨u, w, keep hu, by rw [lookup_concat, hnew]; simp, hw⟩

theorem Reflects.addScope {t : WorldTree} {scopes : List Scope} (r : t.Reflects scopes) {s : Scope}
    {u : World} (hs : s.isRoot = false) (hnew : List.lookup s.id t.homes = none)
    (hu : List.lookup (s.parent?.getD 0) t.homes = some u) :
    ∃ t', t.addScope s = .ok t' ∧ t'.Reflects (scopes ++ [s]) := by
  have hmem := r.listed _ _ hu
  by_cases hk : s.kind = .modal
  · refine ⟨⟨t.worlds ++ [⟨t.worlds.length, some u.id, u.depth + 1, s.id⟩],
      t.homes ++ [(s.id, ⟨t.worlds.length, some u.id, u.depth + 1, s.id⟩)]⟩, ?_, ?_⟩
    · simp [WorldTree.addScope, hs, ofScope, hu, hk, bind, Except.bind, pure, Except.pure]
    · obtain ⟨i, hi⟩ := List.mem_iff_getElem?.mp hmem
      obtain ⟨hlt, -⟩ := List.getElem?_eq_some_iff.mp hi
      have hid := r.numbered i u hi
      refine r.addHome hnew hu (.inl ⟨hk, rfl, rfl⟩) (List.subset_append_left _ _) (by simp) ?_ ?_ ?_
      · rw [List.getElem?_append_left (by omega)]
        exact r.start
      · intro j w hj
        by_cases hjl : j < t.worlds.length
        · rw [List.getElem?_append_left hjl] at hj
          exact r.numbered j w hj
        · rw [List.getElem?_append_right (by omega)] at hj
          obtain ⟨hj', e⟩ := List.getElem?_eq_some_iff.mp hj
          rw [List.length_singleton] at hj'
          rw [← e, List.getElem_singleton]
          show t.worlds.length = j
          omega
      · intro w hw
        rcases List.mem_append.mp hw with hw | hw
        · rcases r.rooted w hw with h0 | ⟨v, hv, h1⟩
          · exact .inl h0
          · exact .inr ⟨v, List.mem_append_left _ hv, h1⟩
        · rw [List.mem_singleton] at hw
          subst hw
          exact .inr ⟨u, List.mem_append_left _ hmem, rfl, rfl, by show u.id < t.worlds.length; omega⟩
  · refine ⟨⟨t.worlds, t.homes ++ [(s.id, u)]⟩, ?_, ?_⟩
    · simp [WorldTree.addScope, hs, ofScope, hu, hk, bind, Except.bind, pure, Except.pure]
    · exact r.addHome hnew hu (.inr ⟨hk, rfl⟩) (List.Subset.refl _) hmem r.start r.numbered r.rooted

theorem Reflects.addRoot {t : WorldTree} {scopes : List Scope} (r : t.Reflects scopes) {s : Scope}
    (hs : s.isRoot = true) : t.Reflects (scopes ++ [s]) := by
  refine ⟨r.start, r.main, r.numbered, r.rooted, r.listed, ?_, ?_⟩
  · intro k w h
    rcases r.known k w h with h0 | ⟨x, hx, e⟩
    · exact .inl h0
    · exact .inr ⟨x, List.mem_append_left _ hx, e⟩
  · intro x hx hroot
    rcases List.mem_append.mp hx with hx | hx
    · exact r.home x hx hroot
    · rw [List.mem_singleton] at hx
      rw [hx, hs] at hroot
      cases hroot

end WorldTree

/-! ## The tree of an outline -/

namespace Outline

/-- No line opens a second main proof. -/
def Rootless (o : Outline) : Prop := ∀ l ∈ o.lines, l.opens ≠ some .root

theorem Nested.isRoot_iff {o : Outline} (h : o.Nested) (hr : o.Rootless) {s : Scope}
    (hs : o.HasScope s) : s.isRoot = true ↔ s.id = 0 := by
  unfold Scope.isRoot
  rw [decide_eq_true_iff]
  constructor
  · intro hk
    by_contra h0
    obtain ⟨_, l, -, -, -, -, hl, ho, -⟩ := h.subproof hs h0
    rw [hk] at ho
    have hmem : l ∈ o.lines := by
      unfold line? at hl
      split at hl
      · cases hl
      · exact List.mem_of_getElem? hl
    exact hr l hmem ho
  · intro h0
    exact (h.main_scope hs h0).2

theorem Nested.mem_subproofs {o : Outline} (h : o.Nested) (hr : o.Rootless) {s : Scope} :
    s ∈ o.subproofs ↔ o.HasScope s ∧ s.id ≠ 0 := by
  unfold subproofs
  rw [List.mem_filter, Bool.not_eq_true', ← Bool.not_eq_true]
  constructor
  · rintro ⟨hs, hroot⟩
    have hk := h.hasScope_of_mem hs
    exact ⟨hk, fun h0 => hroot ((h.isRoot_iff hr hk).mpr h0)⟩
  · rintro ⟨hk, h0⟩
    exact ⟨List.mem_of_getElem? hk, fun hroot => h0 ((h.isRoot_iff hr hk).mp hroot)⟩

theorem Nested.addScopes {o : Outline} (h : o.Nested) (hr : o.Rootless) {t : WorldTree}
    {done rest : List Scope} (hdone : done ++ rest = o.scopes) (r : t.Reflects done) :
    ∃ t', t.addScopes rest = .ok t' ∧ t'.Reflects o.scopes := by
  induction rest generalizing t done with
  | nil =>
    rw [List.append_nil] at hdone
    exact ⟨t, rfl, hdone ▸ r⟩
  | cons s rest ih =>
    have hat : o.scopes[done.length]? = some s := by
      rw [← hdone, List.getElem?_append_right (Nat.le_refl _), Nat.sub_self]
      rfl
    obtain ⟨hid, hs⟩ := h.hasScope hat
    obtain ⟨t', ht', r'⟩ : ∃ t', t.addScope s = .ok t' ∧ t'.Reflects (done ++ [s]) := by
      by_cases h0 : s.id = 0
      · have hroot := (h.isRoot_iff hr hs).mpr h0
        exact ⟨t, by simp [WorldTree.addScope, hroot], r.addRoot hroot⟩
      · have hroot : s.isRoot = false := by
          rw [← Bool.not_eq_true, h.isRoot_iff hr hs]
          exact h0
        obtain ⟨around, -, ha, -, hlt, hp, -⟩ := h.subproof hs h0
        -- the scope around it has a smaller number, so it has its world already
        obtain ⟨u, hu⟩ : ∃ u, List.lookup around.id t.homes = some u := by
          by_cases ha0 : around.id = 0
          · exact ⟨.actual, ha0 ▸ r.main⟩
          · have hmem : around ∈ done := by
              unfold HasScope at ha
              rw [← hdone, List.getElem?_append_left (by omega)] at ha
              exact List.mem_of_getElem? ha
            have haroot : around.isRoot = false := by
              rw [← Bool.not_eq_true, h.isRoot_iff hr ha]
              exact ha0
            obtain ⟨_, w, -, hw, -⟩ := r.home around hmem haroot
            exact ⟨w, hw⟩
        have hnew : List.lookup s.id t.homes = none := by
          cases hl : List.lookup s.id t.homes with
          | none => rfl
          | some w =>
            rcases r.known _ _ hl with hz | ⟨x, hx, e⟩
            · exact absurd hz h0
            · obtain ⟨j, hj⟩ := List.mem_iff_getElem?.mp hx
              obtain ⟨hjl, -⟩ := List.getElem?_eq_some_iff.mp hj
              have hxj : o.scopes[j]? = some x := by
                rw [← hdone, List.getElem?_append_left hjl, hj]
              have := (h.hasScope hxj).1
              omega
        exact r.addScope hroot hnew (by rw [hp]; exact hu)
    obtain ⟨u, hu, hru⟩ := ih (by simpa using hdone) r'
    exact ⟨u, by simp [WorldTree.addScopes, ht', hu, bind, Except.bind], hru⟩

theorem Nested.worldTree {o : Outline} (h : o.Nested) (hr : o.Rootless) :
    ∃ t, WorldTree.ofOutline o = .ok t ∧ t.Reflects o.scopes :=
  h.addScopes hr (List.nil_append _) WorldTree.start_reflects

/-- Every scope has a world: the actual one for the main proof, and for a subproof the one around it
or, if it is strict, one of its own just below. -/
theorem Nested.scope_world {o : Outline} (h : o.Nested) (hr : o.Rootless) {t : WorldTree}
    (r : t.Reflects o.scopes) {s : Scope} (hs : o.HasScope s) :
    ∃ w, t.ofScope s.id = .ok w ∧ w ∈ t.worlds ∧
      ((s.id = 0 ∧ w = .actual) ∨
       ∃ around u, o.HasScope around ∧ s.enclosing = s.id :: around.enclosing ∧
        s.parent? = some around.id ∧ t.ofScope around.id = .ok u ∧ u ∈ t.worlds ∧
        ((s.kind = .modal ∧ w.parent = some u.id ∧ w.scope = s.id) ∨ (s.kind ≠ .modal ∧ w = u))) := by
  by_cases h0 : s.id = 0
  · refine ⟨.actual, by rw [h0, WorldTree.ofScope, r.main], ?_, .inl ⟨h0, rfl⟩⟩
    exact r.listed 0 _ r.main
  · have hroot : s.isRoot = false := by
      rw [← Bool.not_eq_true, h.isRoot_iff hr hs]
      exact h0
    obtain ⟨around, -, ha, he, -, hp, -⟩ := h.subproof hs h0
    obtain ⟨u, w, hu, hw, huw⟩ := r.home s (List.mem_of_getElem? hs) hroot
    rw [hp, Option.getD_some] at hu
    exact ⟨w, by rw [WorldTree.ofScope, hw], r.listed _ _ hw, .inr ⟨around, u, ha, he, hp,
      by rw [WorldTree.ofScope, hu], r.listed _ _ hu, huw⟩⟩

/-- What holds of the main proof with the actual world, and passes from a scope to the subproofs that
stand in it, holds of every scope with its world. -/
theorem Nested.world_induct {o : Outline} (h : o.Nested) (hr : o.Rootless) {t : WorldTree}
    (r : t.Reflects o.scopes) {P : Scope → World → Prop}
    (main : ∀ x, o.HasScope x → x.id = 0 → P x .actual)
    (ordinary : ∀ x around w, o.HasScope x → o.HasScope around →
      x.enclosing = x.id :: around.enclosing → x.kind ≠ .modal → t.ofScope x.id = .ok w →
      P around w → P x w)
    (strict : ∀ x around u w, o.HasScope x → o.HasScope around →
      x.enclosing = x.id :: around.enclosing → x.kind = .modal → t.ofScope x.id = .ok w →
      u ∈ t.worlds → w ∈ t.worlds → w.parent = some u.id → P around u → P x w)
    {x : Scope} {w : World} (hx : o.HasScope x) (hw : t.ofScope x.id = .ok w) : P x w := by
  induction hn : x.enclosing.length using Nat.strongRecOn generalizing x w with
  | _ n ih =>
    obtain ⟨w', hw', hmem, hcases⟩ := h.scope_world hr r hx
    rw [hw] at hw'
    cases hw'
    rcases hcases with ⟨h0, rfl⟩ | ⟨around, u, ha, hen, -, hu, hum, hcase⟩
    · exact main x hx h0
    · have hlt : around.enclosing.length < n := by
        rw [← hn, hen, List.length_cons]
        omega
      have hP := ih _ hlt ha hu rfl
      rcases hcase with ⟨hk, hp, -⟩ | ⟨hk, rfl⟩
      · exact strict x around u w hx ha hen hk hw hum hmem hp hP
      · exact ordinary x around w hx ha hen hk hw hP

end Outline

/-! ## Lineages -/

namespace WorldTree

/-- A world and those around it, up to the actual world. -/
def lineage (t : WorldTree) (w : World) : List World := w :: t.ancestors w

theorem mem_lineage_self (t : WorldTree) (w : World) : w ∈ t.lineage w := List.mem_cons_self

/-- Steps of access lead from a world back to itself, so all that is marked is reached. -/
theorem mem_reachable_edge_iff {t : WorldTree} {system : ModalSystem} {a b : World}
    (ha : a ∈ t.worlds) :
    b ∈ reachable (edge system) t.worlds [a] ↔ Reaches (edge system) t.worlds [a] b := by
  rw [mem_reachable_iff]
  refine ⟨fun h => h.elim (fun hb => ?_) id, .inr⟩
  rw [List.mem_singleton.mp hb]
  exact .first List.mem_cons_self (by simp [edge]) ha

namespace Reflects

variable {t : WorldTree} {scopes : List Scope} (r : t.Reflects scopes)
include r

theorem worlds_ext {u w : World} (hu : u ∈ t.worlds) (hw : w ∈ t.worlds) (h : u.id = w.id) :
    u = w := by
  obtain ⟨i, hi⟩ := List.mem_iff_getElem?.mp hu
  obtain ⟨j, hj⟩ := List.mem_iff_getElem?.mp hw
  have e : i = j := by rw [← r.numbered i u hi, ← r.numbered j w hj, h]
  subst e
  exact Option.some.inj (hi.symm.trans hj)

theorem actual_mem : World.actual ∈ t.worlds := List.mem_of_getElem? r.start

theorem parent_cases {u w : World} (hw : w ∈ t.worlds) (hu : u ∈ t.worlds)
    (hp : w.parent = some u.id) : w.depth = u.depth + 1 ∧ u.id < w.id := by
  rcases r.rooted w hw with rfl | ⟨v, hv, hpv, hd, hlt⟩
  · cases hp
  · rw [hpv] at hp
    have e := r.worlds_ext hv hu (Option.some.inj hp)
    exact ⟨e ▸ hd, e ▸ hlt⟩

/-- What holds of the actual world and passes from each world to those just below it holds of all. -/
theorem induct {P : World → Prop} (actual : P .actual)
    (below : ∀ u w, u ∈ t.worlds → w ∈ t.worlds → w.parent = some u.id → P u → P w)
    (w : World) (hw : w ∈ t.worlds) : P w := by
  induction hn : w.id using Nat.strongRecOn generalizing w with
  | _ n ih =>
    rcases r.rooted w hw with rfl | ⟨u, hu, hp, -, hlt⟩
    · exact actual
    · exact below u w hu hw hp (ih u.id (by omega) u hu rfl)

theorem lineage_below {u w : World} (hu : u ∈ t.worlds) (hw : w ∈ t.worlds)
    (hp : w.parent = some u.id) : t.lineage w = w :: t.lineage u := by
  obtain ⟨hd, -⟩ := r.parent_cases hw hu hp
  obtain ⟨i, hi⟩ := List.mem_iff_getElem?.mp hu
  have hat : t.worlds[u.id]? = some u := by rw [r.numbered i u hi, hi]
  unfold lineage ancestors
  rw [hd, climb, hp, Option.bind_some, hat]

theorem lineage_mem {v w : World} (hw : w ∈ t.worlds) (hv : v ∈ t.lineage w) :
    v ∈ t.worlds ∧ v.id ≤ w.id := by
  revert v
  refine r.induct (P := fun w => ∀ {v}, v ∈ t.lineage w → v ∈ t.worlds ∧ v.id ≤ w.id) ?_ ?_ w hw
  · intro v hv
    rw [List.mem_singleton.mp hv]
    exact ⟨r.actual_mem, Nat.le_refl _⟩
  · intro u w hu hw hp ih v hv
    rw [r.lineage_below hu hw hp] at hv
    rcases List.mem_cons.mp hv with rfl | hv
    · exact ⟨hw, Nat.le_refl _⟩
    · have hlt := (r.parent_cases hw hu hp).2
      obtain ⟨h1, h2⟩ := ih hv
      exact ⟨h1, by omega⟩

theorem lineage_trans {u v w : World} (hw : w ∈ t.worlds) (hv : v ∈ t.lineage w)
    (hu : u ∈ t.lineage v) : u ∈ t.lineage w := by
  revert v
  refine r.induct (P := fun w => ∀ {v}, v ∈ t.lineage w → u ∈ t.lineage v → u ∈ t.lineage w)
    ?_ ?_ w hw
  · intro v hv hu
    rwa [List.mem_singleton.mp hv] at hu
  · intro x w hx hw hp ih v hv hu
    rw [r.lineage_below hx hw hp] at hv ⊢
    rcases List.mem_cons.mp hv with rfl | hv
    · rwa [r.lineage_below hx hw hp] at hu
    · exact List.mem_cons_of_mem _ (ih hv hu)

/-- The lineage of a world goes up to the actual one. -/
theorem actual_mem_lineage {w : World} (hw : w ∈ t.worlds) : World.actual ∈ t.lineage w := by
  refine r.induct (P := fun w => World.actual ∈ t.lineage w) (mem_lineage_self t _) ?_ w hw
  intro u w hu hw hp ih
  rw [r.lineage_below hu hw hp]
  exact List.mem_cons_of_mem _ ih

theorem edge_mem_lineage {system : ModalSystem} (hsym : system.symmetric = false) {a b : World}
    (ha : a ∈ t.worlds) (hb : b ∈ t.worlds) (h : edge system a b = true) : b ∈ t.lineage a := by
  unfold edge at h
  rw [hsym, Bool.false_and, Bool.or_false, Bool.or_eq_true, decide_eq_true_iff,
    decide_eq_true_iff] at h
  rcases h with rfl | h
  · exact mem_lineage_self t a
  · rw [r.lineage_below hb ha h]
    exact List.mem_cons_of_mem _ (mem_lineage_self t b)

/-- Without symmetry, a world has access to worlds of its lineage only. -/
theorem accessible_mem_lineage {system : ModalSystem} (hsym : system.symmetric = false) {a b : World}
    (ha : a ∈ t.worlds) (hb : b ∈ t.worlds) (h : t.accessible system a b = true) :
    b ∈ t.lineage a := by
  unfold accessible at h
  split at h
  · rw [List.contains_iff_mem, mem_reachable_edge_iff ha] at h
    clear hb
    induction h with
    | @first x y hy hyx hx =>
      rw [List.mem_singleton] at hy
      subst hy
      exact r.edge_mem_lineage hsym ha hx hyx
    | @next x y hy hyx hx ih =>
      exact r.lineage_trans ha ih (r.edge_mem_lineage hsym hy.mem_domain hx hyx)
  · exact r.edge_mem_lineage hsym ha hb h

/-- Steps of access lead up the lineage. -/
theorem lineage_reaches (system : ModalSystem) {a b : World} (ha : a ∈ t.worlds)
    (hb : b ∈ t.lineage a) : Reaches (edge system) t.worlds [a] b := by
  refine r.induct (P := fun a => b ∈ t.lineage a → Reaches (edge system) t.worlds [a] b)
    ?_ ?_ a ha hb
  · intro hb
    rw [List.mem_singleton.mp hb]
    exact .first List.mem_cons_self (by simp [edge]) r.actual_mem
  · intro u w hu hw hp ih hb
    rw [r.lineage_below hu hw hp] at hb
    rcases List.mem_cons.mp hb with rfl | hb
    · exact .first List.mem_cons_self (by simp [edge]) hw
    · have hstep : Reaches (edge system) t.worlds [w] u :=
        .first List.mem_cons_self (by simp [edge, hp]) hu
      refine (ih hb).trans fun z hz => .inr ?_
      rwa [List.mem_singleton.mp hz]

/-- With symmetry, steps of access lead from the actual world down to every world. -/
theorem actual_reaches {system : ModalSystem} (hsym : system.symmetric = true) {b : World}
    (hb : b ∈ t.worlds) : Reaches (edge system) t.worlds [.actual] b := by
  refine r.induct (P := Reaches (edge system) t.worlds [.actual]) ?_ ?_ b hb
  · exact .first List.mem_cons_self (by simp [edge]) r.actual_mem
  · intro u w _ hw hp ih
    exact .next ih (by simp [edge, hsym, hp]) hw

/-- In a transitive system a world has access to its lineage, and with symmetry to every world. -/
theorem accessible_iff {system : ModalSystem} (htrans : system.transitive = true) {a b : World}
    (ha : a ∈ t.worlds) (hb : b ∈ t.worlds) :
    t.accessible system a b = true ↔ system.symmetric = true ∨ b ∈ t.lineage a := by
  constructor
  · intro h
    cases hsym : system.symmetric with
    | true => exact .inl rfl
    | false => exact .inr (r.accessible_mem_lineage hsym ha hb h)
  · intro h
    unfold accessible
    rw [if_pos htrans, List.contains_iff_mem, mem_reachable_edge_iff ha]
    rcases h with hsym | hb
    · -- up to the actual world, and down from there
      refine (r.actual_reaches hsym hb).trans fun z hz => .inr ?_
      rw [List.mem_singleton.mp hz]
      exact r.lineage_reaches system ha (r.actual_mem_lineage ha)
    · exact r.lineage_reaches system ha hb

end Reflects

end WorldTree

/-- The world of a scope is around the world of every scope inside it. -/
theorem Outline.Nested.lineage_of_encloses {o : Outline} (h : o.Nested) (hr : o.Rootless)
    {t : WorldTree} (r : t.Reflects o.scopes) {outer inner : Scope} {u w : World}
    (hinner : o.HasScope inner) (he : outer.id ∈ inner.enclosing)
    (hu : t.ofScope outer.id = .ok u) (hw : t.ofScope inner.id = .ok w) : u ∈ t.lineage w := by
  refine h.world_induct hr r (P := fun x w => outer.id ∈ x.enclosing → u ∈ t.lineage w)
    ?main ?ordinary ?strict hinner hw he
  case main =>
    intro x hx h0 he
    rw [(h.main_scope hx h0).1, List.mem_singleton] at he
    rw [he, WorldTree.ofScope, r.main] at hu
    cases hu
    exact WorldTree.mem_lineage_self t _
  case ordinary =>
    intro x around w _ _ hen _ hw ih he
    rw [hen] at he
    rcases List.mem_cons.mp he with e | he
    · rw [e, hw] at hu
      cases hu
      exact WorldTree.mem_lineage_self t _
    · exact ih he
  case strict =>
    intro x around v w _ _ hen _ hw hvm hmem hp ih he
    rw [hen] at he
    rcases List.mem_cons.mp he with e | he
    · rw [e, hw] at hu
      cases hu
      exact WorldTree.mem_lineage_self t _
    · rw [r.lineage_below hvm hmem hp]
      exact List.mem_cons_of_mem _ (ih he)

end ModalFitch
