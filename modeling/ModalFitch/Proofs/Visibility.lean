import Mathlib.Data.List.Nodup
import ModalFitch.Proofs.Flattening

/-! What a line can see, by ranges of lines.

An earlier line is in view exactly if every subproof that holds it is still open, and a closed
subproof exactly if every subproof around it is. The listing, which gathers the items of the scopes
around the line, and the two questions, which ask for the scope of one target, say the same.

* `Scope.Around`: the range of a scope lies strictly inside that of another.
* `Outline.Nested.encloses_iff_open`, `Outline.Nested.encloses_iff_around`: scopes around a line, by
  ranges.
* `Outline.Nested.items_nodup`: no item stands in two places around a line.
* `visibility_agrees`: the listing, the questions and the ranges. -/

namespace ModalFitch
set_option autoImplicit false

/-! ## Ranges -/

namespace Scope

/-- The range of the other scope lies inside the range of this one, and is not the same scope. -/
def Around (r s : Scope) : Prop := r ≠ s ∧ r.first ≤ s.first ∧ s.last ≤ r.last

instance (r s : Scope) : Decidable (r.Around s) := inferInstanceAs (Decidable (_ ∧ _ ∧ _))

theorem containsLine_iff {s : Scope} {n : Nat} :
    s.containsLine n = true ↔ s.first ≤ n ∧ n ≤ s.last := by
  unfold containsLine
  rw [Bool.and_eq_true, decide_eq_true_iff, decide_eq_true_iff]

end Scope

theorem ok_decide {ε : Type} {x : Except ε Bool} {P : Prop} [Decidable P] (htotal : ∃ b, x = .ok b)
    (h : x = .ok true ↔ P) : x = .ok (decide P) := by
  obtain ⟨b, rfl⟩ := htotal
  congr 1
  rw [Bool.eq_iff_iff, decide_eq_true_iff, ← h, Except.ok.injEq]

/-- A sorted selection from a list without repetitions, where an element tells what it was taken
from and has a rank of its own. -/
theorem selection_rising {α β : Type} {g : α → Option β} {source : β → α} {P : β → Prop}
    (rank : β → Nat) {xs : List α} (hg : ∀ x y, g x = some y ↔ x = source y ∧ P y) (hxs : xs.Nodup)
    (hrank : ∀ y z, P y ∧ source y ∈ xs → P z ∧ source z ∈ xs → rank y = rank z → y = z) :
    (∀ y, y ∈ (xs.filterMap g).mergeSort (fun a b => rank a ≤ rank b) ↔ P y ∧ source y ∈ xs) ∧
    ((xs.filterMap g).mergeSort fun a b => rank a ≤ rank b).Pairwise fun a b => rank a < rank b := by
  have hmem : ∀ y, y ∈ (xs.filterMap g).mergeSort (fun a b => rank a ≤ rank b) ↔
      P y ∧ source y ∈ xs := by
    intro y
    rw [List.mem_mergeSort, List.mem_filterMap]
    constructor
    · rintro ⟨x, hx, hsome⟩
      obtain ⟨rfl, hy⟩ := (hg x y).mp hsome
      exact ⟨hy, hx⟩
    · rintro ⟨hy, hx⟩
      exact ⟨source y, hx, (hg _ y).mpr ⟨rfl, hy⟩⟩
  refine ⟨hmem, ?_⟩
  have hdistinct : ((xs.filterMap g).mergeSort fun a b => rank a ≤ rank b).Nodup := by
    rw [(List.mergeSort_perm _ _).nodup_iff]
    refine hxs.filterMap fun x x' y hx hx' => ?_
    rw [((hg x y).mp hx).1, ((hg x' y).mp hx').1]
  have hsorted := @List.pairwise_mergeSort β (fun a b => decide (rank a ≤ rank b))
    (fun a b c hab hbc => by
      rw [decide_eq_true_iff] at hab hbc ⊢
      omega)
    (fun a b => by
      rw [Bool.or_eq_true, decide_eq_true_iff, decide_eq_true_iff]
      omega) (xs.filterMap g)
  refine (hsorted.and hdistinct).imp_of_mem fun {y z} hy hz hyz => ?_
  have hle := of_decide_eq_true hyz.1
  have hne : rank y ≠ rank z := fun e => hyz.2 (hrank y z ((hmem y).mp hy) ((hmem z).mp hz) e)
  omega

namespace Outline.Nested

variable {o : Outline} (h : o.Nested)
include h

theorem contains_iff {n : Nat} {home s : Scope} (hn : o.scopeOf n = .ok home) (hs : o.HasScope s) :
    s.containsLine n = true ↔ s.id ∈ home.enclosing := by
  rw [Scope.containsLine_iff, h.encloses_iff_interval hn hs]

theorem around_iff_encloses {r s : Scope} (hr : o.HasScope r) (hs : o.HasScope s) (h0 : s.id ≠ 0) :
    r.Around s ↔ r ≠ s ∧ r.encloses s = true := by
  rw [encloses_iff]
  refine and_congr_right fun _ => ⟨?_, fun hin => h.interval_le hr hs hin⟩
  rintro ⟨hfirst, hlast⟩
  obtain ⟨-, -, -, -, -, -, -, -, hhome⟩ := h.subproof hs h0
  have hle := h.subproof_nonempty hs h0
  exact h.encloses_of_interval hhome hr hfirst (by omega)

/-- The ranges strictly around a subproof are those of the scope that it stands in and of the scopes
around that. -/
theorem around_iff {r s p : Scope} (hr : o.HasScope r) (hs : o.HasScope s) (hp : o.HasScope p)
    (henc : s.enclosing = s.id :: p.enclosing) : r.Around s ↔ r.id ∈ p.enclosing := by
  rw [h.around_iff_encloses hr hs (h.child_ne_main hp hs henc), encloses_iff, henc, List.mem_cons]
  constructor
  · rintro ⟨hne, hid | hin⟩
    · exact absurd (hr.unique hs hid) hne
    · exact hin
  · intro hin
    have hlt := h.enclosing_below hs henc hin
    refine ⟨fun hsame => ?_, .inr hin⟩
    rw [hsame] at hlt
    omega

variable (hroot : o.Rootless)
include hroot

/-- The scope of a line is around another line exactly if every subproof that holds the one holds the
other. -/
theorem encloses_iff_open {t n : Nat} {there here : Scope} (ht : o.scopeOf t = .ok there)
    (hn : o.scopeOf n = .ok here) : there.id ∈ here.enclosing ↔
      ∀ r ∈ o.subproofs, r.containsLine t = true → r.containsLine n = true := by
  have hthere := (h.scopeOf_cases ht).1
  have hhere := (h.scopeOf_cases hn).1
  constructor
  · intro hin r hr hrt
    obtain ⟨hk, -⟩ := (h.mem_subproofs hroot).mp hr
    rw [h.contains_iff ht hk] at hrt
    exact (h.contains_iff hn hk).mpr (h.enclosing_subset hhere hthere hin hrt)
  · intro hopen
    by_cases h0 : there.id = 0
    · rw [h0]
      exact h.zero_mem hhere
    · have hmem := (h.mem_subproofs hroot).mpr ⟨hthere, h0⟩
      have hself := (h.contains_iff ht hthere).mpr (h.self_mem hthere)
      exact (h.contains_iff hn hthere).mp (hopen there hmem hself)

/-- The scope that a subproof stands in is around a line exactly if every subproof with a range
strictly around it holds the line. -/
theorem encloses_iff_around {n : Nat} {here s p : Scope} (hn : o.scopeOf n = .ok here)
    (hs : o.HasScope s) (hp : o.HasScope p) (henc : s.enclosing = s.id :: p.enclosing) :
    p.id ∈ here.enclosing ↔ ∀ r ∈ o.subproofs, r.Around s → r.containsLine n = true := by
  have hhere := (h.scopeOf_cases hn).1
  constructor
  · intro hin r hr haround
    obtain ⟨hk, -⟩ := (h.mem_subproofs hroot).mp hr
    rw [h.around_iff hk hs hp henc] at haround
    exact (h.contains_iff hn hk).mpr (h.enclosing_subset hhere hp hin haround)
  · intro hopen
    by_cases h0 : p.id = 0
    · rw [h0]
      exact h.zero_mem hhere
    · have haround := (h.around_iff hp hs hp henc).mpr (h.self_mem hp)
      exact (h.contains_iff hn hp).mp (hopen p ((h.mem_subproofs hroot).mpr ⟨hp, h0⟩) haround)

/-! ## The questions -/

theorem lineVisible_iff {n : Nat} {here : Scope} (hn : o.scopeOf n = .ok here) (t : Nat) :
    (∃ b, o.lineVisible n t = .ok b) ∧ (o.lineVisible n t = .ok true ↔ o.hasLine t = true ∧ t < n ∧
      ∀ r ∈ o.subproofs, r.containsLine t = true → r.containsLine n = true) := by
  unfold lineVisible
  by_cases hcond : o.hasLine t = true ∧ t < n
  · obtain ⟨l, hl⟩ := hasLine_iff.mp hcond.1
    obtain ⟨there, ht, -⟩ := h.line_scope hl
    rw [if_pos (by simpa using hcond), ht, hn, ← h.encloses_iff_open hroot ht hn, ← encloses_iff]
    exact ⟨⟨_, rfl⟩, fun hok => ⟨hcond.1, hcond.2, Except.ok.inj hok⟩, fun hin => congrArg _ hin.2.2⟩
  · rw [if_neg (by simpa using hcond)]
    refine ⟨⟨_, rfl⟩, fun hok => ?_, fun hin => absurd ⟨hin.1, hin.2.1⟩ hcond⟩
    cases hok

theorem subproofVisible_iff {n : Nat} {here s p : Scope} (hn : o.scopeOf n = .ok here)
    (hs : o.HasScope s) (h0 : s.id ≠ 0) (hpar : o.parent? s = some p) :
    (∃ b, o.subproofVisible n s = .ok b) ∧
      (o.subproofVisible n s = .ok true ↔ s.last < n ∧ p.id ∈ here.enclosing) := by
  have hkind : s.isRoot = false := by
    rw [← Bool.not_eq_true, h.isRoot_iff hroot hs]
    exact h0
  unfold subproofVisible
  by_cases hlast : s.last < n
  · have hout : s.encloses here = false := by
      rw [← Bool.not_eq_true, encloses_iff]
      intro hin
      have := (h.range hn hs hin).2
      omega
    rw [hkind, if_neg (by simpa using hlast), hn, ← encloses_iff]
    simp only [bind, Except.bind, hout, hpar, Bool.false_eq_true, if_false]
    exact ⟨⟨_, rfl⟩, fun hok => ⟨hlast, Except.ok.inj hok⟩, fun hin => congrArg _ hin.2⟩
  · rw [if_pos (by simpa using Or.inr (Nat.le_of_not_lt hlast))]
    refine ⟨⟨_, rfl⟩, fun hok => ?_, fun hin => absurd hin.1 hlast⟩
    cases hok

omit hroot

/-! ## The listing -/

theorem eq_of_enclosing {r s : Scope} (hr : o.HasScope r) (hs : o.HasScope s)
    (henc : r.enclosing = s.enclosing) : r = s := by
  obtain ⟨f, a⟩ := h.along
  obtain ⟨-, ⟨_, her⟩, -⟩ := a.scope_shape hr
  obtain ⟨-, ⟨_, hes⟩, -⟩ := a.scope_shape hs
  rw [her, hes] at henc
  exact hr.unique hs (List.cons.inj henc).1

theorem scope_item_iff {s t : Scope} (hs : o.HasScope s) (ht : o.HasScope t) :
    Item.scope t.id ∈ s.items ↔ t.enclosing = t.id :: s.enclosing := by
  refine ⟨fun hitem => ?_, h.scope_item hs ht⟩
  rcases h.item_cases hs hitem with ⟨n, hline, -⟩ | ⟨u, hscope, hu, henc⟩
  · cases hline
  · rwa [ht.unique hu (Item.scope.inj hscope)]

/-- An item stands in one scope only. -/
theorem item_scope {r s : Scope} (hr : o.HasScope r) (hs : o.HasScope s) {x : Item}
    (hxr : x ∈ r.items) (hxs : x ∈ s.items) : r = s := by
  rcases h.item_cases hr hxr with ⟨n, rfl, hn⟩ | ⟨t, rfl, ht, henc⟩
  · have hn' := h.line_item hs hxs
    rw [hn] at hn'
    exact Except.ok.inj hn'
  · have henc' := (h.scope_item_iff hs ht).mp hxs
    exact h.eq_of_enclosing hr hs (List.cons.inj (henc.symm.trans henc')).2

theorem scope_items_nodup {s : Scope} (hs : o.HasScope s) : s.items.Nodup := by
  have hrising := (List.pairwise_flatMap.mp (h.items_rising hs)).2
  refine hrising.imp_of_mem fun {x y} hx _ hxy hsame => ?_
  subst hsame
  -- an item comes to some line, which would be before itself
  obtain ⟨m, hm⟩ : ∃ m, m ∈ o.linesOf x := by
    rcases h.item_cases hs hx with ⟨n, rfl, -⟩ | ⟨t, rfl, ht, henc⟩
    · exact ⟨n, List.mem_singleton.mpr rfl⟩
    · have hle := h.subproof_nonempty ht (h.child_ne_main hs ht henc)
      refine ⟨t.first, ?_⟩
      rw [linesOf_scope ht, List.mem_range'_1]
      omega
  exact Nat.lt_irrefl m (hxy m hm m hm)

theorem ancestors_nodup {s : Scope} (hs : o.HasScope s) : (o.ancestors s).Nodup := by
  obtain ⟨f, a⟩ := h.along
  have hdesc := (a.scope_shape hs).2.2
  refine List.Nodup.filterMap ?_ (hdesc.imp fun hgt => Nat.ne_of_gt hgt)
  intro i j r hi hj
  rw [← (h.hasScope hi).1, ← (h.hasScope hj).1]

/-- What stands in the scopes around a scope stands there once. -/
theorem items_nodup {s : Scope} (hs : o.HasScope s) :
    ((o.ancestors s).flatMap Scope.items).Nodup := by
  rw [List.nodup_flatMap]
  refine ⟨fun r hr => h.scope_items_nodup (h.mem_ancestors.mp hr).1, ?_⟩
  refine (h.ancestors_nodup hs).imp_of_mem fun {r u} hr hu hne x hxr hxu => hne ?_
  exact h.item_scope (h.mem_ancestors.mp hr).1 (h.mem_ancestors.mp hu).1 hxr hxu

theorem line_listed {here : Scope} {t : Nat} :
    Item.line t ∈ (o.ancestors here).flatMap Scope.items ↔
      ∃ there, o.scopeOf t = .ok there ∧ there.id ∈ here.enclosing := by
  rw [List.mem_flatMap]
  constructor
  · rintro ⟨r, hr, hitem⟩
    obtain ⟨hk, hin⟩ := h.mem_ancestors.mp hr
    exact ⟨r, h.line_item hk hitem, hin⟩
  · rintro ⟨there, ht, hin⟩
    exact ⟨there, h.mem_ancestors.mpr ⟨(h.scopeOf_cases ht).1, hin⟩, h.item_of_scopeOf ht⟩

theorem scope_listed {here s p : Scope} (hs : o.HasScope s) (hp : o.HasScope p)
    (henc : s.enclosing = s.id :: p.enclosing) :
    Item.scope s.id ∈ (o.ancestors here).flatMap Scope.items ↔ p.id ∈ here.enclosing := by
  rw [List.mem_flatMap]
  constructor
  · rintro ⟨r, hr, hitem⟩
    obtain ⟨hk, hin⟩ := h.mem_ancestors.mp hr
    rwa [h.item_scope hp hk (h.scope_item hp hs henc) hitem]
  · intro hin
    exact ⟨p, h.mem_ancestors.mpr ⟨hp, hin⟩, h.scope_item hp hs henc⟩

theorem listed_ne_main {here s : Scope} (hs : o.HasScope s)
    (hitem : Item.scope s.id ∈ (o.ancestors here).flatMap Scope.items) : s.id ≠ 0 := by
  obtain ⟨r, hr, hitem⟩ := List.mem_flatMap.mp hitem
  obtain ⟨hk, -⟩ := h.mem_ancestors.mp hr
  exact h.child_ne_main hk hs ((h.scope_item_iff hk hs).mp hitem)

/-- The listing, taken from the items of the scopes around the line. -/
theorem visibleFrom_cases {n : Nat} {here : Scope} (hn : o.scopeOf n = .ok here) :
    ∃ seen closed, o.visibleFrom n = .ok (seen, closed) ∧
      ((∀ t, t ∈ seen ↔ t < n ∧ Item.line t ∈ (o.ancestors here).flatMap Scope.items) ∧
        seen.Pairwise (· < ·)) ∧
      (∀ s, s ∈ closed ↔ (o.HasScope s ∧ s.last < n) ∧
        Item.scope s.id ∈ (o.ancestors here).flatMap Scope.items) ∧
      closed.Pairwise fun a b => a.first < b.first := by
  have hitems := h.items_nodup (h.scopeOf_cases hn).1
  unfold visibleFrom
  rw [hn]
  refine ⟨_, _, rfl, selection_rising id ?_ hitems fun _ _ _ _ e => e,
    selection_rising Scope.first ?_ hitems ?_⟩
  · intro x t
    cases x with
    | line m => simp +contextual [eq_comm, and_comm]
    | scope k => simp
  · intro x s
    cases x with
    | line m => simp
    | scope k =>
      simp only [Option.filter_eq_some_iff, decide_eq_true_iff, Item.scope.injEq]
      constructor
      · rintro ⟨hs, hlast⟩
        obtain ⟨rfl, hk⟩ := h.hasScope hs
        exact ⟨rfl, hk, hlast⟩
      · rintro ⟨rfl, hk, hlast⟩
        exact ⟨hk, hlast⟩
  · rintro s t ⟨⟨hs, -⟩, hsx⟩ ⟨⟨ht, -⟩, htx⟩ hfirst
    exact h.first_injective hs ht (h.listed_ne_main hs hsx) (h.listed_ne_main ht htx) hfirst

theorem line_listed_iff (hroot : o.Rootless) {n t : Nat} {here : Scope}
    (hn : o.scopeOf n = .ok here) :
    Item.line t ∈ (o.ancestors here).flatMap Scope.items ↔
      o.hasLine t = true ∧ ∀ r ∈ o.subproofs, r.containsLine t = true → r.containsLine n = true := by
  rw [h.line_listed, hasLine_iff]
  constructor
  · rintro ⟨there, ht, hin⟩
    obtain ⟨-, l, hl, -⟩ := h.scopeOf_cases ht
    exact ⟨⟨l, hl⟩, (h.encloses_iff_open hroot ht hn).mp hin⟩
  · rintro ⟨⟨l, hl⟩, hopen⟩
    obtain ⟨there, ht, -⟩ := h.line_scope hl
    exact ⟨there, ht, (h.encloses_iff_open hroot ht hn).mpr hopen⟩

end Outline.Nested

/-- What a line can see. The listing is there, in order and without repetitions; a line or a subproof
is listed exactly if the question for it says yes. An earlier line is in view exactly if every
subproof that holds it holds the citing line, and a closed subproof exactly if every subproof
strictly around it does. -/
theorem visibility_agrees {lines : List Line} {goal : Option Goal} {revision : Nat} {o : Outline}
    (hbuild : Outline.build lines goal revision = .ok o) (hopens : ∀ l ∈ lines, l.opens ≠ some .root)
    {n : Nat} (hn : o.hasLine n = true) :
    ∃ seen closed, o.visibleFrom n = .ok (seen, closed) ∧
      (∀ t, o.lineVisible n t = .ok (decide (t ∈ seen)) ∧
        (t ∈ seen ↔ o.hasLine t = true ∧ t < n ∧
          ∀ r ∈ o.subproofs, r.containsLine t = true → r.containsLine n = true)) ∧
      (∀ s ∈ o.subproofs, o.subproofVisible n s = .ok (decide (s ∈ closed)) ∧
        (s ∈ closed ↔ s.last < n ∧ ∀ r ∈ o.subproofs, r.Around s → r.containsLine n = true)) ∧
      (∀ r ∈ o.subproofs, ∀ s ∈ o.subproofs, r.Around s ↔ r ≠ s ∧ r.encloses s = true) ∧
      closed ⊆ o.subproofs ∧ seen.Pairwise (· < ·) ∧ closed.Pairwise fun a b => a.first < b.first := by
  obtain ⟨h, rfl, -, -⟩ := Outline.build_cases hbuild
  obtain ⟨l, hl⟩ := Outline.hasLine_iff.mp hn
  obtain ⟨here, hhere, -⟩ := h.line_scope hl
  obtain ⟨seen, closed, hlist, ⟨hseen, hrising⟩, hclosed, hrising'⟩ := h.visibleFrom_cases hhere
  refine ⟨seen, closed, hlist, fun t => ?_, fun s hs => ?_, fun r hr s hs => ?_, fun s hs => ?_,
    hrising, hrising'⟩
  · obtain ⟨htotal, hvisible⟩ := h.lineVisible_iff hopens hhere t
    have hlaw : t ∈ seen ↔ o.hasLine t = true ∧ t < n ∧
        ∀ r ∈ o.subproofs, r.containsLine t = true → r.containsLine n = true := by
      rw [hseen, h.line_listed_iff hopens hhere, and_left_comm]
    exact ⟨ok_decide htotal (hvisible.trans hlaw.symm), hlaw⟩
  · obtain ⟨hk, h0⟩ := (h.mem_subproofs hopens).mp hs
    obtain ⟨p, hp, hpar, henc, -⟩ := h.parent_of hk h0
    obtain ⟨htotal, hvisible⟩ := h.subproofVisible_iff hopens hhere hk h0 hpar
    have hlaw : s ∈ closed ↔ s.last < n ∧ p.id ∈ here.enclosing := by
      rw [hclosed, h.scope_listed hk hp henc, and_iff_right hk]
    refine ⟨ok_decide htotal (hvisible.trans hlaw.symm), hlaw.trans ?_⟩
    rw [h.encloses_iff_around hopens hhere hk hp henc]
  · obtain ⟨hkr, -⟩ := (h.mem_subproofs hopens).mp hr
    obtain ⟨hks, h0⟩ := (h.mem_subproofs hopens).mp hs
    exact h.around_iff_encloses hkr hks h0
  · obtain ⟨⟨hk, -⟩, hitem⟩ := (hclosed s).mp hs
    exact (h.mem_subproofs hopens).mpr ⟨hk, h.listed_ne_main hk hitem⟩

/-- The last line sees a closed subproof with a lone box inside, but not into it, and the lines and
the closed subproof of its own scope. -/
theorem visibility_agrees_boxed : ∃ o closed, Outline.build boxedInside none 0 = .ok o ∧
    o.visibleFrom 6 = .ok ([1, 4], closed) ∧
    (∀ s ∈ o.subproofs, s ∈ closed ↔ (s.first, s.last) = (2, 3) ∨ (s.first, s.last) = (5, 5)) ∧
    ∃ r ∈ o.subproofs, r.containsLine 3 = true ∧ r.containsLine 6 = false := by
  obtain ⟨o, ho, h⟩ := exists_ok (x := Outline.build boxedInside none 0)
    (p := fun o => o.hasLine 3 && o.hasLine 6 &&
      (List.range 6).all (fun t => (o.lineVisible 6 t).toOption = some (decide (t ∈ [1, 4]))) &&
      o.subproofs.all fun s => (o.subproofVisible 6 s).toOption =
        some (decide ((s.first, s.last) = (2, 3) ∨ (s.first, s.last) = (5, 5))))
    (by decide +kernel)
  simp only [Bool.and_eq_true, List.all_eq_true, List.mem_range, decide_eq_true_eq] at h
  obtain ⟨⟨⟨h3, h6⟩, hline⟩, hsubproof⟩ := h
  obtain ⟨seen, closed, hlist, hlines, hsubproofs, -, -, hrising, -⟩ :=
    visibility_agrees ho (by decide +kernel) h6
  have hseen : seen = [1, 4] := by
    refine hrising.sortedLT.eq_of_mem_iff (by decide) fun t => ?_
    by_cases ht : t < 6
    · have hvisible := hline t ht
      rw [(hlines t).1] at hvisible
      exact decide_eq_decide.mp (Option.some.inj hvisible)
    · rw [(hlines t).2]
      simp only [List.mem_cons, List.not_mem_nil, or_false]
      omega
  subst hseen
  refine ⟨o, closed, ho, hlist, fun s hs => ?_, ?_⟩
  · have hvisible := hsubproof s hs
    rw [(hsubproofs s hs).1] at hvisible
    exact decide_eq_decide.mp (Option.some.inj hvisible)
  · have hhidden : ¬∀ r ∈ o.subproofs, r.containsLine 3 = true → r.containsLine 6 = true := by
      intro hopen
      have := (hlines 3).2.mpr ⟨h3, by decide, hopen⟩
      simp at this
    simpa using hhidden

end ModalFitch
