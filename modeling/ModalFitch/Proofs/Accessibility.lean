import Mathlib.Data.List.Nodup
import Mathlib.Data.List.Perm.Subperm
import ModalFitch.Proofs.Citing
import ModalFitch.Proofs.TransitiveClosure
import ModalFitch.Proofs.WorldTree

/-! Access between the worlds of an outline, all of it at once.

The relation is the closure of single steps that are listed by the numbers of the worlds. Its pairs
are those that the search from one world to the next finds, and in a tree these are known: the steps
themselves, the ancestors, or all.

* `WorldTree.Reflects.mem_steps_iff`: the steps between numbers are the steps between worlds.
* `WorldTree.Reflects.mem_relation_iff`: the relation is access, pair by pair.
* `WorldTree.Reflects.relation_sweeps`: how many sweeps the closure takes.
* `access_exact`: the relation and what may be carried between worlds, for each modal system. -/

namespace ModalFitch
set_option autoImplicit false

namespace WorldTree

/-- The steps up, each from a world to itself or to its parent. -/
theorem mem_steps {t : WorldTree} {system : ModalSystem} {x y : Nat} :
    (x, y) ∈ t.steps system ↔ ∃ w ∈ t.worlds,
      (x = w.id ∧ (y = w.id ∨ w.parent = some y)) ∨
      (system.symmetric = true ∧ y = w.id ∧ (x = w.id ∨ w.parent = some x)) := by
  have hup : ∀ {a b : Nat}, (a, b) ∈ (t.worlds.flatMap fun w =>
      (w.id, w.id) :: (w.parent.map fun u => (w.id, u)).toList) ↔
        ∃ w ∈ t.worlds, a = w.id ∧ (b = w.id ∨ w.parent = some b) := by
    intro a b
    simp only [List.mem_flatMap, List.mem_cons, Option.mem_toList, Option.map_eq_some_iff,
      Prod.mk.injEq]
    refine exists_congr fun w => and_congr_right fun _ => ?_
    constructor
    · rintro (⟨rfl, rfl⟩ | ⟨u, hu, rfl, rfl⟩)
      · exact ⟨rfl, .inl rfl⟩
      · exact ⟨rfl, .inr hu⟩
    · rintro ⟨rfl, rfl | hb⟩
      · exact .inl ⟨rfl, rfl⟩
      · exact .inr ⟨b, hb, rfl, rfl⟩
  have hback : ∀ ps : List (Nat × Nat), (x, y) ∈ ps.map Prod.swap ↔ (y, x) ∈ ps := by
    intro ps
    rw [List.mem_map]
    constructor
    · rintro ⟨⟨a, b⟩, hab, e⟩
      cases e
      exact hab
    · exact fun h => ⟨(y, x), h, rfl⟩
  unfold steps
  dsimp only
  split
  · rename_i hsym
    rw [List.mem_append, hback, hup, hup]
    simp only [hsym, true_and, and_or_left, exists_or]
  · rename_i hsym
    rw [hup]
    simp only [hsym, false_and, or_false, Bool.false_eq_true]

theorem relation_nodup (t : WorldTree) (system : ModalSystem) : (t.relation system).Nodup := by
  unfold relation
  rw [(List.mergeSort_perm _ _).nodup_iff]
  split
  · exact nodup_closure _
  · exact nodup_once _

/-- Without symmetry and transitivity a world has access to itself and its parent. -/
theorem accessible_step_iff {t : WorldTree} {system : ModalSystem} (hsym : system.symmetric = false)
    (htrans : system.transitive = false) {a b : World} :
    t.accessible system a b = true ↔ b = a ∨ a.parent = some b.id := by
  simp [accessible, edge, hsym, htrans, eq_comm (a := a)]

theorem canImport_iff {t : WorldTree} {system : ModalSystem} {a b : World} :
    t.canImport system a b = true ↔
      if a = b then system.reflexive = true else t.accessible system a b = true := by
  unfold canImport
  split <;> rfl

namespace Reflects

variable {t : WorldTree} {scopes : List Scope} (r : t.Reflects scopes)
include r

/-- A parent that is given by its number is one of the worlds. -/
theorem exists_parent {w : World} (hw : w ∈ t.worlds) {y : Nat} (hy : w.parent = some y) :
    ∃ u ∈ t.worlds, u.id = y := by
  rcases r.rooted w hw with rfl | ⟨u, hu, hp, -⟩
  · cases hy
  · exact ⟨u, hu, Option.some.inj (hp.symm.trans hy)⟩

theorem mem_steps_iff {system : ModalSystem} {x y : Nat} :
    (x, y) ∈ t.steps system ↔ ∃ a ∈ t.worlds, ∃ b ∈ t.worlds,
      edge system a b = true ∧ x = a.id ∧ y = b.id := by
  rw [mem_steps]
  simp only [edge, Bool.or_eq_true, Bool.and_eq_true, decide_eq_true_eq]
  constructor
  · rintro ⟨w, hw, ⟨rfl, rfl | hp⟩ | ⟨hsym, rfl, rfl | hp⟩⟩
    · exact ⟨w, hw, w, hw, .inl (.inl rfl), rfl, rfl⟩
    · obtain ⟨u, hu, rfl⟩ := r.exists_parent hw hp
      exact ⟨w, hw, u, hu, .inl (.inr hp), rfl, rfl⟩
    · exact ⟨w, hw, w, hw, .inl (.inl rfl), rfl, rfl⟩
    · obtain ⟨u, hu, rfl⟩ := r.exists_parent hw hp
      exact ⟨u, hu, w, hw, .inr ⟨hsym, hp⟩, rfl, rfl⟩
  · rintro ⟨a, ha, b, hb, (rfl | hp) | ⟨hsym, hp⟩, rfl, rfl⟩
    · exact ⟨a, ha, .inl ⟨rfl, .inl rfl⟩⟩
    · exact ⟨a, ha, .inl ⟨rfl, .inr hp⟩⟩
    · exact ⟨b, hb, .inr ⟨hsym, rfl, .inr hp⟩⟩

/-- Paths between numbers are paths between worlds. -/
theorem path_iff {system : ModalSystem} {x y : Nat} :
    Relation.TransGen (fun x y => (x, y) ∈ t.steps system) x y ↔
      ∃ a ∈ t.worlds, ∃ b ∈ t.worlds, Reaches (edge system) t.worlds [a] b ∧ x = a.id ∧ y = b.id := by
  constructor
  · intro h
    induction h with
    | single hxy =>
      obtain ⟨a, ha, b, hb, hab, hx, hy⟩ := r.mem_steps_iff.mp hxy
      exact ⟨a, ha, b, hb, .first List.mem_cons_self hab hb, hx, hy⟩
    | tail _ hyz ih =>
      obtain ⟨a, ha, b, hb, hab, hx, hy⟩ := ih
      obtain ⟨b', hb', c, hc, hbc, hy', hz⟩ := r.mem_steps_iff.mp hyz
      cases r.worlds_ext hb hb' (hy.symm.trans hy')
      exact ⟨a, ha, c, hc, hab.next hbc hc, hx, hz⟩
  · rintro ⟨a, ha, b, -, hab, rfl, rfl⟩
    induction hab with
    | @first x y hy hyx hx =>
      cases List.mem_singleton.mp hy
      exact .single (r.mem_steps_iff.mpr ⟨a, ha, x, hx, hyx, rfl, rfl⟩)
    | @next x y hy hyx hx ih =>
      exact ih.tail (r.mem_steps_iff.mpr ⟨y, hy.mem_domain, x, hx, hyx, rfl, rfl⟩)

theorem mem_relation_iff {system : ModalSystem} {x y : Nat} :
    (x, y) ∈ t.relation system ↔
      ∃ a ∈ t.worlds, ∃ b ∈ t.worlds, t.accessible system a b = true ∧ x = a.id ∧ y = b.id := by
  unfold relation accessible
  cases system.transitive with
  | true =>
    simp only [if_true, List.mem_mergeSort, List.contains_iff_mem]
    rw [mem_closure_iff, r.path_iff]
    refine exists_congr fun a => and_congr_right fun ha => ?_
    simp only [mem_reachable_edge_iff ha]
  | false =>
    simp only [Bool.false_eq_true, if_false, List.mem_mergeSort, mem_once]
    rw [r.mem_steps_iff]

theorem accessible_iff_mem_relation {system : ModalSystem} {a b : World} (ha : a ∈ t.worlds)
    (hb : b ∈ t.worlds) : t.accessible system a b = true ↔ (a.id, b.id) ∈ t.relation system := by
  rw [r.mem_relation_iff]
  constructor
  · exact fun h => ⟨a, ha, b, hb, h, rfl, rfl⟩
  · rintro ⟨a', ha', b', hb', h, hx, hy⟩
    rwa [r.worlds_ext ha ha' hx, r.worlds_ext hb hb' hy]

/-- The closure takes no more sweeps than there are pairs of worlds. -/
theorem relation_sweeps {system : ModalSystem} (htrans : system.transitive = true) :
    ∃ n ≤ t.size * t.size,
      (t.relation system).Perm (sweep^[n] (once (t.steps system))) ∧
      sweep^[n + 1] (once (t.steps system)) = sweep^[n] (once (t.steps system)) := by
  obtain ⟨hfixed, n, hn, hlen⟩ := closure_iterate (t.steps system)
  have hperm : (t.relation system).Perm (closure (t.steps system)) := by
    unfold relation
    rw [if_pos htrans]
    exact List.mergeSort_perm _ _
  have hsub : closure (t.steps system) ⊆ PairsOn.square (t.worlds.map World.id) := by
    rintro ⟨x, y⟩ hxy
    obtain ⟨a, ha, b, hb, -, rfl, rfl⟩ := r.path_iff.mp (mem_closure_iff.mp hxy)
    exact PairsOn.mem_square.mpr ⟨List.mem_map_of_mem ha, List.mem_map_of_mem hb⟩
  have hle := (List.subperm_of_subset (nodup_closure (t.steps system)) hsub).length_le
  have hsquare : (PairsOn.square (t.worlds.map World.id)).length = t.size * t.size := by
    simp [PairsOn.square, size, List.length_flatMap, Function.comp_def]
  refine ⟨n, by omega, hn ▸ hperm, ?_⟩
  rw [Function.iterate_succ_apply', ← hn, hfixed]

end Reflects

end WorldTree

/-- Access between the worlds of every list of lines that nests and opens no second main proof. The
closure of the single steps ends after no more sweeps than there are pairs of worlds. The relation
holds each pair once: in K and T those of a world with itself and its parent, in S4 those of a world
with itself and its ancestors, in S5 all pairs. Single questions of access agree with it. A sentence
may be carried from the parent only in K, from the world itself or its parent in T, from the world
itself or an ancestor in S4, and from every world in S5. -/
theorem access_exact {lines : List Line} {goal : Option Goal} {revision : Nat} {o : Outline}
    (hbuild : Outline.build lines goal revision = .ok o)
    (hopens : ∀ l ∈ lines, l.opens ≠ some .root) :
    ∃ t, WorldTree.ofOutline o = .ok t ∧
      (∀ system, system.transitive = true → ∃ n ≤ t.size * t.size,
        (t.relation system).Perm (sweep^[n] (once (t.steps system))) ∧
        sweep^[n + 1] (once (t.steps system)) = sweep^[n] (once (t.steps system))) ∧
      (∀ system, (t.relation system).Nodup) ∧
      (∀ p, p ∈ t.relation .k ↔
        ∃ w ∈ t.worlds, p = (w.id, w.id) ∨ ∃ u, w.parent = some u ∧ p = (w.id, u)) ∧
      t.relation .t = t.relation .k ∧
      (∀ p, p ∈ t.relation .s4 ↔
        ∃ a ∈ t.worlds, ∃ b, (b = a ∨ b ∈ t.ancestors a) ∧ p = (a.id, b.id)) ∧
      (∀ p, p ∈ t.relation .s5 ↔ ∃ a ∈ t.worlds, ∃ b ∈ t.worlds, p = (a.id, b.id)) ∧
      t.ancestors .actual = [] ∧
      ∀ a ∈ t.worlds, ∀ b ∈ t.worlds,
        (a.parent = some b.id → t.ancestors a = b :: t.ancestors b) ∧
        (∀ system, t.accessible system a b = true ↔ (a.id, b.id) ∈ t.relation system) ∧
        (t.canImport .k a b = true ↔ a.parent = some b.id) ∧
        (t.canImport .t a b = true ↔ b = a ∨ a.parent = some b.id) ∧
        (t.canImport .s4 a b = true ↔ b = a ∨ b ∈ t.ancestors a) ∧
        t.canImport .s5 a b = true := by
  obtain ⟨h, rfl, -, -⟩ := Outline.build_cases hbuild
  obtain ⟨t, ht, r⟩ := h.worldTree hopens
  have hstep : ∀ a b, t.accessible .k a b = true ↔ b = a ∨ a.parent = some b.id := fun _ _ =>
    WorldTree.accessible_step_iff rfl rfl
  have hup : ∀ a ∈ t.worlds, ∀ b ∈ t.worlds,
      (t.accessible .s4 a b = true ↔ b = a ∨ b ∈ t.ancestors a) := by
    intro a ha b hb
    rw [r.accessible_iff rfl ha hb]
    simp [ModalSystem.symmetric, WorldTree.lineage]
  have hall : ∀ a ∈ t.worlds, ∀ b ∈ t.worlds, t.accessible .s5 a b = true := fun a ha b hb =>
    (r.accessible_iff rfl ha hb).mpr (.inl rfl)
  refine ⟨t, ht, fun _ htrans => r.relation_sweeps htrans, t.relation_nodup, ?_, rfl, ?_, ?_, rfl, ?_⟩
  · rintro ⟨x, y⟩
    rw [r.mem_relation_iff]
    constructor
    · rintro ⟨a, ha, b, -, hab, rfl, rfl⟩
      rcases (hstep a b).mp hab with rfl | hp
      · exact ⟨b, ha, .inl rfl⟩
      · exact ⟨a, ha, .inr ⟨b.id, hp, rfl⟩⟩
    · rintro ⟨w, hw, e | ⟨u, hu, e⟩⟩
      · cases e
        exact ⟨w, hw, w, hw, (hstep w w).mpr (.inl rfl), rfl, rfl⟩
      · cases e
        obtain ⟨v, hv, rfl⟩ := r.exists_parent hw hu
        exact ⟨w, hw, v, hv, (hstep w v).mpr (.inr hu), rfl, rfl⟩
  · rintro ⟨x, y⟩
    rw [r.mem_relation_iff]
    constructor
    · rintro ⟨a, ha, b, hb, hab, rfl, rfl⟩
      exact ⟨a, ha, b, (hup a ha b hb).mp hab, rfl⟩
    · rintro ⟨a, ha, b, hab, e⟩
      cases e
      have hb := (r.lineage_mem ha (List.mem_cons.mpr hab)).1
      exact ⟨a, ha, b, hb, (hup a ha b hb).mpr hab, rfl, rfl⟩
  · rintro ⟨x, y⟩
    rw [r.mem_relation_iff]
    constructor
    · rintro ⟨a, ha, b, hb, -, rfl, rfl⟩
      exact ⟨a, ha, b, hb, rfl⟩
    · rintro ⟨a, ha, b, hb, e⟩
      cases e
      exact ⟨a, ha, b, hb, hall a ha b hb, rfl, rfl⟩
  · intro a ha b hb
    have hbelow : a.parent = some b.id → a ≠ b := by
      rintro hp rfl
      exact absurd (r.parent_cases ha hb hp).2 (Nat.lt_irrefl _)
    refine ⟨fun hp => (List.cons.inj (r.lineage_below hb ha hp)).2,
      fun system => r.accessible_iff_mem_relation ha hb, ?_, ?_, ?_, ?_⟩
    all_goals rw [WorldTree.canImport_iff]
    · split
      · rename_i e
        exact ⟨fun h => absurd h (by decide), fun hp => absurd e (hbelow hp)⟩
      · rename_i e
        rw [hstep]
        exact ⟨fun h => h.resolve_left (Ne.symm e), .inr⟩
    · split
      · rename_i e
        exact ⟨fun _ => .inl e.symm, fun _ => rfl⟩
      · exact WorldTree.accessible_step_iff rfl rfl
    · split
      · rename_i e
        exact ⟨fun _ => .inl e.symm, fun _ => rfl⟩
      · exact hup a ha b hb
    · split
      · rfl
      · exact hall a ha b hb

/-- A strict subproof with one inside it, and one beside them. -/
def boxedBeside : List Line :=
  createLines [("P", "PR", 0, none), ("□", "", 1, some .modal), ("□", "", 2, some .modal),
    ("□", "", 1, some .modal)]

/-- The inner world sees the actual one from S4 on, and the world beside it in S5 only. -/
theorem access_exact_beside : ∃ o t, Outline.build boxedBeside none 0 = .ok o ∧
    WorldTree.ofOutline o = .ok t ∧
    t.worlds = [.actual, ⟨1, some 0, 1, 1⟩, ⟨2, some 1, 2, 2⟩, ⟨3, some 0, 1, 3⟩] ∧
    (2, 0) ∉ t.relation .t ∧ (2, 0) ∈ t.relation .s4 ∧ (2, 3) ∉ t.relation .s4 ∧
    (2, 3) ∈ t.relation .s5 := by
  obtain ⟨o, ho, h⟩ := exists_ok (x := Outline.build boxedBeside none 0)
    (p := fun o => (WorldTree.ofOutline o).toOption.any fun t : WorldTree => decide (t.worlds =
      [.actual, ⟨1, some 0, 1, 1⟩, ⟨2, some 1, 2, 2⟩, ⟨3, some 0, 1, 3⟩])) (by decide +kernel)
  obtain ⟨t, ht, hworlds⟩ := exists_ok h
  rw [decide_eq_true_eq] at hworlds
  obtain ⟨t', ht', -, -, hk, heq, hs4, hs5, -⟩ := access_exact ho (by decide +kernel)
  cases ht.symm.trans ht'
  have hancestors : t.ancestors ⟨2, some 1, 2, 2⟩ = [⟨1, some 0, 1, 1⟩, .actual] := by
    simp [WorldTree.ancestors, WorldTree.climb, hworlds]
  refine ⟨o, t, ho, ht, hworlds, ?_, ?_, ?_, ?_⟩
  · simp [heq, hk, hworlds, World.actual]
  · exact (hs4 _).mpr ⟨⟨2, some 1, 2, 2⟩, by simp [hworlds], .actual, by simp [hancestors], rfl⟩
  · simp [hs4, hworlds, hancestors, World.actual]
  · simp [hs5, hworlds, World.actual]

end ModalFitch
