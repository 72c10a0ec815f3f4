import ModalFitch.Proofs.Totality
import ModalFitch.Proofs.Visibility

/-! Worlds by ranges of lines.

The world of a line is settled by the strict subproofs that hold it: it is the world of the innermost
one, or the actual world where there is none. So what a rule may cite within one world can be said by
ranges alone.

* `Outline.Nested.nearest_strict`: the strict subproof that a scope has its world from.
* `Outline.Nested.same_world_iff`: two scopes are in one world exactly if the same strict subproofs
  are around them.
* `Outline.Nested.strict_of_lineage`: a strict subproof whose world is around that of a scope is
  around the scope.
* `Outline.innermostStrict?`: the innermost strict subproof that holds a line.
* `local_citations`: which citations a rule that stays within one world may make, and why the others
  are refused. -/

namespace ModalFitch
set_option autoImplicit false

namespace Outline

/-! ## Strict subproofs and worlds -/

/-- The scope is a strict subproof of the outline. -/
def IsStrict (o : Outline) (s : Scope) : Prop := o.HasScope s ∧ s.kind = .modal

namespace Nested

variable {o : Outline} (h : o.Nested)
include h

theorem strict_ne_main {s : Scope} (hs : o.IsStrict s) : s.id ≠ 0 := by
  intro h0
  have hkind := (h.main_scope hs.1 h0).2
  rw [hs.2] at hkind
  cases hkind

theorem encloses_antisymm {r s : Scope} (hr : o.HasScope r) (hs : o.HasScope s)
    (hrs : r.id ∈ s.enclosing) (hsr : s.id ∈ r.enclosing) : r = s := by
  have hsub := h.enclosing_suffix_of hr hs hrs
  have hsup := h.enclosing_suffix_of hs hr hsr
  exact h.eq_of_enclosing hr hs (hsub.eq_of_length_le hsup.length_le)

variable (hroot : o.Rootless) {t : WorldTree} (worlds : t.Reflects o.scopes)
include hroot worlds

theorem strict_world {s : Scope} (hs : o.IsStrict s) {w : World} (hw : t.ofScope s.id = .ok w) :
    w.scope = s.id ∧ w ≠ .actual := by
  obtain ⟨w', hw', -, ⟨h0, -⟩ | ⟨_, u, -, -, -, -, -, ⟨-, hparent, hscope⟩ | ⟨hkind, -⟩⟩⟩ :=
    h.scope_world hroot worlds hs.1
  · exact absurd h0 (h.strict_ne_main hs)
  · rw [hw] at hw'
    cases hw'
    refine ⟨hscope, ?_⟩
    rintro rfl
    cases hparent
  · exact absurd hs.2 hkind

theorem strict_world_injective {r s : Scope} (hr : o.IsStrict r) (hs : o.IsStrict s) {w : World}
    (hwr : t.ofScope r.id = .ok w) (hws : t.ofScope s.id = .ok w) : r = s := by
  have er := (h.strict_world hroot worlds hr hwr).1
  have es := (h.strict_world hroot worlds hs hws).1
  exact hr.1.unique hs.1 (er.symm.trans es)

/-- A scope has its world from the nearest strict subproof that is around it or is the scope itself.
Where there is none, it is in the actual world. -/
theorem nearest_strict {x : Scope} (hx : o.HasScope x) {w : World} (hw : t.ofScope x.id = .ok w) :
    (w = .actual ∧ ∀ r, o.IsStrict r → r.id ∉ x.enclosing) ∨
    ∃ s, o.IsStrict s ∧ s.id ∈ x.enclosing ∧ t.ofScope s.id = .ok w ∧
      ∀ r, o.IsStrict r → r.id ∈ x.enclosing → r.id ∈ s.enclosing := by
  refine h.world_induct hroot worlds (P := fun x w =>
    (w = .actual ∧ ∀ r, o.IsStrict r → r.id ∉ x.enclosing) ∨
    ∃ s, o.IsStrict s ∧ s.id ∈ x.enclosing ∧ t.ofScope s.id = .ok w ∧
      ∀ r, o.IsStrict r → r.id ∈ x.enclosing → r.id ∈ s.enclosing) ?main ?ordinary ?strict hx hw
  case main =>
    intro x hx h0
    refine .inl ⟨rfl, fun r hr hin => ?_⟩
    rw [(h.main_scope hx h0).1, List.mem_singleton] at hin
    exact h.strict_ne_main hr hin
  case ordinary =>
    intro x around w hx _ henc hkind _ ih
    -- the subproof itself is not strict, so the strict ones around it are around the outer scope
    have hout : ∀ r, o.IsStrict r → r.id ∈ x.enclosing → r.id ∈ around.enclosing := by
      intro r hr hin
      rw [henc] at hin
      rcases List.mem_cons.mp hin with hid | hin
      · rw [hr.1.unique hx hid] at hr
        exact absurd hr.2 hkind
      · exact hin
    rcases ih with ⟨hw, hnone⟩ | ⟨s, hs, hin, hws, hnear⟩
    · exact .inl ⟨hw, fun r hr hin => hnone r hr (hout r hr hin)⟩
    · refine .inr ⟨s, hs, ?_, hws, fun r hr hr' => hnear r hr (hout r hr hr')⟩
      rw [henc]
      exact List.mem_cons_of_mem _ hin
  case strict =>
    intro x _ _ w hx _ _ hkind hw _ _ _ _
    exact .inr ⟨x, ⟨hx, hkind⟩, h.self_mem hx, hw, fun r _ hin => hin⟩

theorem same_world_iff {x y : Scope} (hx : o.HasScope x) (hy : o.HasScope y) {v w : World}
    (hv : t.ofScope x.id = .ok v) (hw : t.ofScope y.id = .ok w) :
    v = w ↔ ∀ r, o.IsStrict r → (r.id ∈ x.enclosing ↔ r.id ∈ y.enclosing) := by
  rcases h.nearest_strict hroot worlds hx hv with ⟨rfl, hnone⟩ | ⟨r, hr, hrx, hvr, hnear⟩
  · rcases h.nearest_strict hroot worlds hy hw with ⟨rfl, hnone'⟩ | ⟨s, hs, hsy, hws, -⟩
    · exact ⟨fun _ r hr => iff_of_false (hnone r hr) (hnone' r hr), fun _ => rfl⟩
    · constructor
      · intro e
        exact absurd e.symm (h.strict_world hroot worlds hs hws).2
      · intro hsame
        exact absurd ((hsame s hs).mpr hsy) (hnone s hs)
  · rcases h.nearest_strict hroot worlds hy hw with ⟨rfl, hnone⟩ | ⟨s, hs, hsy, hws, hnear'⟩
    · constructor
      · intro e
        exact absurd e (h.strict_world hroot worlds hr hvr).2
      · intro hsame
        exact absurd ((hsame r hr).mp hrx) (hnone r hr)
    · constructor
      · rintro rfl x' hx'
        obtain rfl := h.strict_world_injective hroot worlds hr hs hvr hws
        exact ⟨fun hin => h.enclosing_subset hy hr.1 hsy (hnear x' hx' hin),
          fun hin => h.enclosing_subset hx hr.1 hrx (hnear' x' hx' hin)⟩
      · intro hsame
        have hrs := h.encloses_antisymm hr.1 hs.1 (hnear' r hr ((hsame r hr).mp hrx))
          (hnear s hs ((hsame s hs).mpr hsy))
        rw [hrs, hws] at hvr
        exact (Except.ok.inj hvr).symm

/-- A scope around another one is in its world exactly if no strict subproof comes between them. -/
theorem same_world_iff_of_encloses {x y : Scope} (hx : o.HasScope x) (hy : o.HasScope y) {v w : World}
    (hv : t.ofScope x.id = .ok v) (hw : t.ofScope y.id = .ok w) (hin : x.id ∈ y.enclosing) :
    v = w ↔ ∀ r ∈ o.subproofs, r.kind = .modal → r.id ∈ y.enclosing → r.id ∈ x.enclosing := by
  rw [h.same_world_iff hroot worlds hx hy hv hw]
  constructor
  · intro hsame r hr hkind
    obtain ⟨hk, -⟩ := (h.mem_subproofs hroot).mp hr
    exact (hsame r ⟨hk, hkind⟩).mpr
  · intro hheld r hr
    have hmem := (h.mem_subproofs hroot).mpr ⟨hr.1, h.strict_ne_main hr⟩
    exact ⟨fun hrx => h.enclosing_subset hy hx hin hrx, hheld r hmem hr.2⟩

/-- A strict subproof whose world is around the world of a scope is around the scope. -/
theorem strict_of_lineage {s x : Scope} (hs : o.IsStrict s) (hx : o.HasScope x) {v w : World}
    (hv : t.ofScope s.id = .ok v) (hw : t.ofScope x.id = .ok w) (hin : v ∈ t.lineage w) :
    s.id ∈ x.enclosing := by
  refine h.world_induct hroot worlds (P := fun x w => v ∈ t.lineage w → s.id ∈ x.enclosing)
    ?main ?ordinary ?strict hx hw hin
  case main =>
    intro x _ _ hin
    exact absurd (List.mem_singleton.mp hin) (h.strict_world hroot worlds hs hv).2
  case ordinary =>
    intro x around w _ _ henc _ _ ih hin
    rw [henc]
    exact List.mem_cons_of_mem _ (ih hin)
  case strict =>
    intro x around u w hx _ henc hkind hw hu hmem hparent ih hin
    rw [worlds.lineage_below hu hmem hparent] at hin
    rcases List.mem_cons.mp hin with rfl | hin
    · rw [h.strict_world_injective hroot worlds hs ⟨hx, hkind⟩ hv hw]
      exact h.self_mem hx
    · rw [henc]
      exact List.mem_cons_of_mem _ (ih hin)

end Nested

/-! ## The innermost strict subproof -/

/-- The strict subproofs that hold a line, outermost first. -/
def strictOver (o : Outline) (n : Nat) : List Scope :=
  o.subproofs.filter fun s => s.kind = .modal && s.containsLine n

/-- The innermost strict subproof that holds a line: the one that was opened last. -/
def innermostStrict? (o : Outline) (n : Nat) : Option Scope := (o.strictOver n).getLast?

namespace Nested

variable {o : Outline} (h : o.Nested) (hroot : o.Rootless)
include h hroot

theorem mem_strictOver {n : Nat} {home s : Scope} (hn : o.scopeOf n = .ok home) :
    s ∈ o.strictOver n ↔ o.IsStrict s ∧ s.id ∈ home.enclosing := by
  unfold strictOver
  rw [List.mem_filter, h.mem_subproofs hroot, Bool.and_eq_true, decide_eq_true_iff]
  constructor
  · rintro ⟨⟨hs, -⟩, hkind, hin⟩
    exact ⟨⟨hs, hkind⟩, (h.contains_iff hn hs).mp hin⟩
  · rintro ⟨hs, hin⟩
    exact ⟨⟨hs.1, h.strict_ne_main hs⟩, hs.2, (h.contains_iff hn hs.1).mpr hin⟩

omit hroot in
theorem parent_id {s around : Scope} (hpar : o.parent? s = some around) :
    s.parent? = some around.id := by
  obtain ⟨k, hk, haround⟩ := Option.bind_eq_some_iff.mp hpar
  rw [hk, (h.hasScope haround).1]

omit hroot in
theorem encloses_le {r s : Scope} (hs : o.HasScope s) (hin : r.id ∈ s.enclosing) : r.id ≤ s.id := by
  obtain ⟨f, a⟩ := h.along
  obtain ⟨-, ⟨e, he⟩, hdesc⟩ := a.scope_shape hs
  rw [he] at hin hdesc
  rcases List.mem_cons.mp hin with hid | hin
  · exact Nat.le_of_eq hid
  · exact Nat.le_of_lt ((List.pairwise_cons.mp hdesc).1 r.id hin)

omit hroot in
theorem scopes_rising : o.scopes.Pairwise fun r s => r.id < s.id := by
  rw [List.pairwise_iff_getElem]
  intro i j hi hj hij
  rw [(h.hasScope (List.getElem?_eq_getElem hi)).1, (h.hasScope (List.getElem?_eq_getElem hj)).1]
  exact hij

omit hroot in
theorem strictOver_rising (n : Nat) : (o.strictOver n).Pairwise fun r s => r.id < s.id :=
  (h.scopes_rising.filter _).filter _

/-- Every strict subproof that holds a line is around the innermost one. -/
theorem innermost_inside {n : Nat} {home r s : Scope} (hn : o.scopeOf n = .ok home)
    (hs : o.innermostStrict? n = some s) (hr : r ∈ o.strictOver n) : r.id ∈ s.enclosing := by
  obtain ⟨hks, hsn⟩ := (h.mem_strictOver hroot hn).mp (List.mem_of_getLast? hs)
  obtain ⟨hkr, hrn⟩ := (h.mem_strictOver hroot hn).mp hr
  have hle : r.id ≤ s.id := by
    have hrising := h.strictOver_rising n
    obtain ⟨front, hlist⟩ := List.getLast?_eq_some_iff.mp hs
    rw [hlist] at hr hrising
    rcases List.mem_append.mp hr with hr | hr
    · exact Nat.le_of_lt ((List.pairwise_append.mp hrising).2.2 r hr s (List.mem_singleton.mpr rfl))
    · rw [List.mem_singleton.mp hr]
  rcases h.encloses_total (h.scopeOf_cases hn).1 hkr.1 hks.1 hrn hsn with hin | hin
  · exact hin
  · -- the other way round only if the two are the same
    have hge := h.encloses_le hkr.1 hin
    rw [hkr.1.unique hks.1 (by omega)]
    exact h.self_mem hks.1

/-- Two lines have the same innermost strict subproof exactly if the same strict subproofs hold
them. -/
theorem innermostStrict?_eq_iff {m n : Nat} {there here : Scope} (hm : o.scopeOf m = .ok there)
    (hn : o.scopeOf n = .ok here) : o.innermostStrict? m = o.innermostStrict? n ↔
      ∀ r, o.IsStrict r → (r.id ∈ there.enclosing ↔ r.id ∈ here.enclosing) := by
  have hshared : ∀ {m n : Nat} {there here r : Scope}, o.scopeOf m = .ok there →
      o.scopeOf n = .ok here → o.innermostStrict? m = o.innermostStrict? n → o.IsStrict r →
      r.id ∈ there.enclosing → r.id ∈ here.enclosing := by
    intro m n there here r hm hn hsame hr hin
    have hmem := (h.mem_strictOver hroot hm).mpr ⟨hr, hin⟩
    obtain ⟨s, hs⟩ : ∃ s, o.innermostStrict? m = some s :=
      ⟨_, List.getLast?_eq_some_getLast (List.ne_nil_of_mem hmem)⟩
    obtain ⟨hks, hsn⟩ := (h.mem_strictOver hroot hn).mp (List.mem_of_getLast? (hsame.symm.trans hs))
    exact h.enclosing_subset (h.scopeOf_cases hn).1 hks.1 hsn (h.innermost_inside hroot hm hs hmem)
  constructor
  · intro hsame r hr
    exact ⟨hshared hm hn hsame hr, hshared hn hm hsame.symm hr⟩
  · intro hsame
    unfold innermostStrict? strictOver
    congr 1
    refine List.filter_congr fun s hs => ?_
    obtain ⟨hk, -⟩ := (h.mem_subproofs hroot).mp hs
    rw [Bool.eq_iff_iff, Bool.and_eq_true, Bool.and_eq_true, decide_eq_true_iff, h.contains_iff hm hk,
      h.contains_iff hn hk]
    exact and_congr_right fun hkind => hsame s ⟨hk, hkind⟩

end Nested

end Outline

/-! ## Citations within one world -/

namespace Pass

open Check

theorem resolveWithin_value {p : Pass} {n t : Nat} {there here : World} {visible : Bool}
    (ht : p.worldOf t = .ok there) (hn : p.worldOf n = .ok here)
    (hv : p.outline.lineVisible n t = .ok visible) (index : Int) :
    p.resolveWithin n index t =
      if visible then if there = here then .ok () else refuse (.outsideStrict t) (some index)
      else if there = here then refuse (.insideSubproof t n) (some index)
      else refuse (.otherWorld t) (some index) := by
  unfold resolveWithin
  rw [ht, hn, hv]
  rfl

/-- A line that is refused within one world is refused as a citation. -/
theorem resolve_refused {p : Pass} {n t : Nat} {index : Int} (ht : p.outline.hasLine t = true)
    (hlt : t < n) {e : CheckFailure} (he : p.resolveWithin n index t = .error e) :
    p.resolve n .within index ⟨t, none⟩ = .error e := by
  unfold resolve
  simp only [Citation.isRange, Option.isSome_none, Bool.false_eq_true, if_false, ht, Bool.not_true]
  rw [if_neg (by omega), he]
  rfl

namespace Grounded

variable {p : Pass} (g : p.Grounded)
include g

/-- What becomes of a line that is cited within one world. -/
theorem line_within {t n : Nat} (ht : p.outline.hasLine t = true) (hn : p.outline.hasLine n = true)
    (hlt : t < n) (index : Int) :
    ((∃ m, p.resolve n .within index ⟨t, none⟩ = .ok m) ↔
      (∀ r ∈ p.outline.subproofs, r.containsLine t = true → r.containsLine n = true) ∧
      ∀ r ∈ p.outline.subproofs, r.kind = .modal → r.containsLine n = true →
        r.containsLine t = true) ∧
    ((¬∃ m, p.resolve n .within index ⟨t, none⟩ = .ok m) →
      ∃ cause, p.resolve n .within index ⟨t, none⟩ = .error (.refused ⟨cause, some index⟩) ∧
        cause.reason = if p.outline.innermostStrict? t = p.outline.innermostStrict? n
          then .outOfScope else .modalScopeViolation) := by
  obtain ⟨_, htl⟩ := Outline.hasLine_iff.mp ht
  obtain ⟨_, hnl⟩ := Outline.hasLine_iff.mp hn
  obtain ⟨there, v, hthere, hkt, hvt, hv⟩ := g.line_home htl
  obtain ⟨here, w, hhere, hkn, hwn, hw⟩ := g.line_home hnl
  obtain ⟨⟨visible, hvis⟩, hview⟩ := g.nested.lineVisible_iff g.rootless hhere t
  have hopen : visible = true ↔
      ∀ r ∈ p.outline.subproofs, r.containsLine t = true → r.containsLine n = true := by
    rw [hvis, Except.ok.injEq] at hview
    rw [hview, and_iff_right ht, and_iff_right hlt]
  have hworld : v = w ↔ p.outline.innermostStrict? t = p.outline.innermostStrict? n := by
    rw [g.nested.same_world_iff g.rootless g.reflects hkt hkn hvt hwn,
      g.nested.innermostStrict?_eq_iff g.rootless hthere hhere]
  have hok : (∃ m, p.resolve n .within index ⟨t, none⟩ = .ok m) ↔ visible = true ∧ v = w := by
    constructor
    · rintro ⟨m, hm⟩
      cases resolve_iff.mp hm with
      | subproof hstop => cases hstop
      | within _ _ _ hv' hw' hvis' =>
        rw [hv] at hv'
        rw [hw] at hw'
        rw [hvis] at hvis'
        cases hv'
        cases hw'
        exact ⟨Except.ok.inj hvis', rfl⟩
    · rintro ⟨rfl, rfl⟩
      exact ⟨_, resolve_iff.mpr (.within rfl htl hlt hv hw hvis)⟩
  refine ⟨?_, fun hno => ?_⟩
  · rw [hok, ← hopen]
    refine and_congr_right fun hvisible => ?_
    have hin := (g.nested.encloses_iff_open g.rootless hthere hhere).mpr (hopen.mp hvisible)
    rw [g.nested.same_world_iff_of_encloses g.rootless g.reflects hkt hkn hvt hwn hin]
    refine forall₂_congr fun r hr => ?_
    obtain ⟨hk, -⟩ := (g.nested.mem_subproofs g.rootless).mp hr
    rw [g.nested.contains_iff hhere hk, g.nested.contains_iff hthere hk]
  · rw [hok] at hno
    have hrun := resolveWithin_value hv hw hvis index
    by_cases hsame : v = w
    · rw [if_neg fun hvisible => hno ⟨hvisible, hsame⟩, if_pos hsame] at hrun
      exact ⟨_, resolve_refused ht hlt hrun, (if_pos (hworld.mp hsame)).symm⟩
    · rw [if_neg hsame, if_neg hsame] at hrun
      rw [if_neg fun e => hsame (hworld.mpr e)]
      split at hrun
      · exact ⟨_, resolve_refused ht hlt hrun, rfl⟩
      · exact ⟨_, resolve_refused ht hlt hrun, rfl⟩

/-- Which ranges can be cited. -/
theorem range_cited {n : Nat} (hn : p.outline.hasLine n = true) (transfer : Transfer) (index : Int)
    (first last : Nat) :
    (∃ m, p.resolve n transfer index ⟨first, some last⟩ = .ok m) ↔
      ∃ s ∈ p.outline.subproofs, s.first = first ∧ s.last = last ∧ s.last < n ∧
        (∀ r ∈ p.outline.subproofs, r.Around s → r.containsLine n = true) ∧
        ∀ r ∈ p.outline.subproofs, r.kind = .modal → r.containsLine n = true → r.Around s := by
  obtain ⟨_, hnl⟩ := Outline.hasLine_iff.mp hn
  obtain ⟨here, w, hhere, hkn, hwn, hw⟩ := g.line_home hnl
  -- the scope that the subproof stands in decides both on the view and on the world
  have hstands : ∀ {s around : Scope}, p.outline.HasScope s → p.outline.HasScope around →
      s.enclosing = s.id :: around.enclosing → around.id ∈ here.enclosing → ∀ {v : World},
      p.worlds.ofScope around.id = .ok v → (v = w ↔
        ∀ r ∈ p.outline.subproofs, r.kind = .modal → r.containsLine n = true → r.Around s) := by
    intro s around hk hka henc hin v hv
    rw [g.nested.same_world_iff_of_encloses g.rootless g.reflects hka hkn hv hwn hin]
    refine forall₂_congr fun r hr => ?_
    obtain ⟨hkr, -⟩ := (g.nested.mem_subproofs g.rootless).mp hr
    rw [g.nested.contains_iff hhere hkr, g.nested.around_iff hkr hk hka henc]
  constructor
  · rintro ⟨m, hm⟩
    cases resolve_iff.mp hm with
    | within hstop => cases hstop
    | across hstop => cases hstop
    | @subproof _ _ stop s v _ hstop hat hvis hv hw' _ =>
      cases hstop
      obtain ⟨hk, h0, hfirst, hlast⟩ := g.subproofAt_cases hat
      obtain ⟨around, hka, hpar, henc, -⟩ := g.nested.parent_of hk h0
      obtain ⟨hclosed, hin⟩ := (g.nested.subproofVisible_iff g.rootless hhere hk h0 hpar).2.mp hvis
      rw [g.nested.parent_id hpar, Option.getD_some] at hv
      rw [hw] at hw'
      cases hw'
      exact ⟨s, (g.nested.mem_subproofs g.rootless).mpr ⟨hk, h0⟩, hfirst, hlast, hclosed,
        (g.nested.encloses_iff_around g.rootless hhere hk hka henc).mp hin,
        (hstands hk hka henc hin hv).mp rfl⟩
  · rintro ⟨s, hs, hfirst, hlast, hclosed, hopen, hheld⟩
    obtain ⟨hk, h0⟩ := (g.nested.mem_subproofs g.rootless).mp hs
    obtain ⟨around, hka, hpar, henc, -⟩ := g.nested.parent_of hk h0
    obtain ⟨v, hv, -⟩ := g.scope_world hka
    have hin := (g.nested.encloses_iff_around g.rootless hhere hk hka henc).mpr hopen
    obtain rfl := (hstands hk hka henc hin hv).mpr hheld
    obtain ⟨m, hm⟩ := g.nested.summary_total hk h0
    have hat := (g.nested.subproofAt_iff g.rootless).mpr ⟨hk, h0, hfirst, hlast⟩
    have hvis := (g.nested.subproofVisible_iff g.rootless hhere hk h0 hpar).2.mpr ⟨hclosed, hin⟩
    refine ⟨_, resolve_iff.mpr (.subproof rfl hat hvis ?_ hw hm)⟩
    rw [g.nested.parent_id hpar, Option.getD_some]
    exact hv

end Grounded

end Pass

/-- The citations of a rule that stays within one world. An earlier line can be cited exactly if every
subproof that holds it holds the citing line, and every strict subproof that holds the citing line
holds it. Where the two lines have the same innermost strict subproof or none, any other line is
refused as out of scope, and else as in another world. A range can be cited exactly if it is that of a
closed subproof such that every subproof strictly around it holds the citing line, and every strict
subproof that holds the citing line is strictly around it. -/
theorem local_citations {lines : List Line} {goal : Option Goal} {revision : Nat} {o : Outline}
    (hbuild : Outline.build lines goal revision = .ok o) (hopens : ∀ l ∈ lines, l.opens ≠ some .root)
    (config : Config) : ∃ p, Pass.start o config = .ok p ∧
      ∀ n, o.hasLine n = true → ∀ index,
        (∀ t, o.hasLine t = true → t < n →
          ((∃ m, p.resolve n .within index ⟨t, none⟩ = .ok m) ↔
            (∀ r ∈ o.subproofs, r.containsLine t = true → r.containsLine n = true) ∧
            ∀ r ∈ o.subproofs, r.kind = .modal → r.containsLine n = true →
              r.containsLine t = true) ∧
          ((¬∃ m, p.resolve n .within index ⟨t, none⟩ = .ok m) →
            ∃ cause, p.resolve n .within index ⟨t, none⟩ = .error (.refused ⟨cause, some index⟩) ∧
              cause.reason = if o.innermostStrict? t = o.innermostStrict? n
                then .outOfScope else .modalScopeViolation)) ∧
        ∀ first last,
          (∃ m, p.resolve n .within index ⟨first, some last⟩ = .ok m) ↔
            ∃ s ∈ o.subproofs, s.first = first ∧ s.last = last ∧ s.last < n ∧
              (∀ r ∈ o.subproofs, r.Around s → r.containsLine n = true) ∧
              ∀ r ∈ o.subproofs, r.kind = .modal → r.containsLine n = true → r.Around s := by
  obtain ⟨h, rfl, -, -⟩ := Outline.build_cases hbuild
  obtain ⟨tree, htree, r⟩ := h.worldTree hopens
  have g : (Pass.mk o config tree).Grounded := ⟨h, hopens, r⟩
  exact ⟨_, Pass.start_ok htree config, fun n hn index =>
    ⟨fun t ht hlt => g.line_within ht hn hlt index, g.range_cited hn .within index⟩⟩

/-- A tautology that is proved in a strict subproof, and a premise that is repeated in another one. -/
def necessitated : List Line :=
  createLines [("P", "PR", 0, none), ("□", "", 1, some .modal), ("Q", "PR", 2, some .ordinary),
    ("Q", "R 3", 2, none), ("Q → Q", "→I 3-4", 1, none), ("□(Q → Q)", "□I 2-5", 0, none),
    ("□", "", 1, some .modal), ("P", "R 1", 1, none), ("□P", "□I 7-8", 0, none)]

/-- The fifth line may cite the subproof before it. It may not cite a line of that subproof, nor the
premise outside its own strict subproof, each for its own reason. -/
theorem local_citations_necessitated : ∃ o p, Outline.build necessitated none 0 = .ok o ∧
    Pass.start o ⟨some .k, false⟩ = .ok p ∧
    (∃ m, p.resolve 5 .within 0 ⟨3, some 4⟩ = .ok m) ∧
    (∃ cause, p.resolve 5 .within 0 ⟨3, none⟩ = .error (.refused ⟨cause, some 0⟩) ∧
      cause.reason = .outOfScope) ∧
    ∃ cause, p.resolve 5 .within 0 ⟨1, none⟩ = .error (.refused ⟨cause, some 0⟩) ∧
      cause.reason = .modalScopeViolation := by
  obtain ⟨o, ho, h⟩ := exists_ok (x := Outline.build necessitated none 0)
    (p := fun o => o.hasLine 1 && o.hasLine 3 && o.hasLine 5 &&
      decide (∃ s ∈ o.subproofs, s.first = 3 ∧ s.last = 4 ∧ s.last < 5 ∧
        (∀ r ∈ o.subproofs, r.Around s → r.containsLine 5 = true) ∧
        ∀ r ∈ o.subproofs, r.kind = .modal → r.containsLine 5 = true → r.Around s) &&
      decide (∃ r ∈ o.subproofs, r.containsLine 3 = true ∧ ¬r.containsLine 5 = true) &&
      decide (o.innermostStrict? 3 = o.innermostStrict? 5) &&
      decide (∃ r ∈ o.subproofs, r.kind = .modal ∧ r.containsLine 5 = true ∧
        ¬r.containsLine 1 = true) &&
      decide (o.innermostStrict? 1 ≠ o.innermostStrict? 5))
    (by decide +kernel)
  simp only [Bool.and_eq_true, decide_eq_true_eq] at h
  obtain ⟨⟨⟨⟨⟨⟨⟨h1, h3⟩, h5⟩, hrange⟩, hleft⟩, hsame⟩, houtside⟩, hother⟩ := h
  obtain ⟨r, hr, hr3, hr5⟩ := hleft
  obtain ⟨s, hs, hkind, hs5, hs1⟩ := houtside
  obtain ⟨p, hp, hcite⟩ := local_citations ho (by decide +kernel) ⟨some .k, false⟩
  obtain ⟨hlines, hranges⟩ := hcite 5 h5 0
  obtain ⟨hinner, hrefused⟩ := hlines 3 h3 (by decide)
  obtain ⟨houter, hrefused'⟩ := hlines 1 h1 (by decide)
  rw [if_pos hsame] at hrefused
  rw [if_neg hother] at hrefused'
  exact ⟨o, p, ho, hp, (hranges 3 4).mpr hrange,
    hrefused fun hok => hr5 ((hinner.mp hok).1 r hr hr3),
    hrefused' fun hok => hs1 ((houter.mp hok).2 s hs hkind hs5)⟩

end ModalFitch
