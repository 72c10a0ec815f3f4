import ModalFitch.Proofs.Cascade
import ModalFitch.Proofs.Matching
import ModalFitch.Proofs.Rows
import ModalFitch.Proofs.StrictScopes

/-! Lines that are carried between worlds.

A rule that carries a line between worlds does not ask whether the line is in view: it asks that the
assumptions over the line are in force, and that its world is accessible. In a system that is not
symmetric this is enough, since every subproof around the cited line is around the citing one: the
subproof has an assumption, or it is strict and its world is around that of the citing line.

* `Outline.Nested.strict_of_bare`: a subproof without an assumption is strict.
* `Pass.Grounded.across_visible`: a line that is carried is in view.
* `imports_in_view`: the same for every checked proof. Under a symmetric system it is not so. -/

namespace ModalFitch
set_option autoImplicit false

/-- A subproof without an assumption is opened by the lone box, and so it is strict. -/
theorem Outline.Nested.strict_of_bare {o : Outline} (h : o.Nested) (hlines : ∀ l ∈ o.lines, l.Proper)
    {s : Scope} (hs : o.HasScope s) (h0 : s.id ≠ 0) (hbare : o.hasAssumption s = false) :
    o.IsStrict s := by
  obtain ⟨-, l, -, -, -, -, hl, hopens, -⟩ := h.subproof hs h0
  have hproper := hlines l (List.mem_of_getElem? (line?_eq_some.mp hl).2)
  have hmarker : l.isMarker = true := by
    have hroot : s.isRoot = false := by
      rw [← Bool.not_eq_true, h.isRoot_iff (fun l hl => (hlines l hl).rootless) hs]
      exact h0
    simpa [hasAssumption, hroot, isMarkerAt, hl] using hbare
  refine ⟨hs, ?_⟩
  have hstrict := hproper.strict hmarker (by rw [hopens]; rfl)
  rw [hopens] at hstrict
  exact Option.some.inj hstrict

theorem WorldTree.Reflects.canImport_mem_lineage {t : WorldTree} {scopes : List Scope}
    (r : t.Reflects scopes) {system : ModalSystem} (hsym : system.symmetric = false) {a b : World}
    (ha : a ∈ t.worlds) (hb : b ∈ t.worlds) (h : t.canImport system a b = true) :
    b ∈ t.lineage a := by
  unfold canImport at h
  split at h
  · rename_i hsame
    rw [← hsame]
    exact mem_lineage_self t a
  · exact r.accessible_mem_lineage hsym ha hb h

theorem Catalog.across_takes_lines : ∀ d ∈ definitions, d.transfer = .across →
    ∀ s ∈ d.schemas, ∀ q ∈ s.premises, q = .line q.asks := by
  decide

namespace Pass

namespace Grounded

variable {p : Pass} (g : p.Grounded) (hlines : ∀ l ∈ p.outline.lines, l.Proper)
  (hsystem : p.config.system ≠ some .s5)
include g hlines hsystem

/-- The scope of a line that is carried is around the line that it is carried to. -/
theorem across_encloses {n t : Nat} {index : Int} (hok : p.resolveAcross n index t = .ok ()) :
    ∃ there here, p.outline.scopeOf t = .ok there ∧ p.outline.scopeOf n = .ok here ∧
      there.id ∈ here.enclosing := by
  obtain ⟨here, hypotheses, system, w, v, hhere, hhyp, hforce, hsys, hw, hv, hcan⟩ :=
    resolveAcross_iff.mp hok
  obtain ⟨there, hthere, hvs⟩ := worldOf_ok.mp hv
  obtain ⟨here', hhere', hws⟩ := worldOf_ok.mp hw
  rw [hhere] at hhere'
  cases hhere'
  have hkt := (g.nested.scopeOf_cases hthere).1
  have hkn := (g.nested.scopeOf_cases hhere).1
  refine ⟨there, here, hthere, hhere, ?_⟩
  by_cases h0 : there.id = 0
  · rw [h0]
    exact g.nested.zero_mem hkn
  · cases hassumes : p.outline.hasAssumption there with
    | true =>
      unfold Outline.hypothesesOver at hhyp
      rw [hthere] at hhyp
      cases hhyp
      have hself := g.nested.mem_ancestors.mpr ⟨hkt, g.nested.self_mem hkt⟩
      exact Outline.encloses_iff.mp (hforce there (List.mem_filter.mpr ⟨hself, hassumes⟩))
    | false =>
      have hstrict := g.nested.strict_of_bare hlines hkt h0 hassumes
      have hsym : system.symmetric = false := by
        cases system with
        | k | t | s4 => rfl
        | s5 => exact absurd hsys hsystem
      have hlineage := g.reflects.canImport_mem_lineage hsym (g.world_mem hw) (g.world_mem hv) hcan
      exact g.nested.strict_of_lineage g.rootless g.reflects hstrict hkn hvs hws hlineage

theorem across_visible {n t : Nat} {index : Int} (hlt : t < n)
    (hok : p.resolveAcross n index t = .ok ()) : p.outline.lineVisible n t = .ok true := by
  obtain ⟨there, here, hthere, hhere, hin⟩ := g.across_encloses hlines hsystem hok
  obtain ⟨-, l, hl, -⟩ := g.nested.scopeOf_cases hthere
  have hline := Outline.hasLine_iff.mpr ⟨l, hl⟩
  have hopen := (g.nested.encloses_iff_open g.rootless hthere hhere).mp hin
  exact (g.nested.lineVisible_iff g.rootless hhere t).2.mpr ⟨hline, hlt, hopen⟩

end Grounded

/-- A line by a rule that carries sentences between worlds cites single lines, which it may carry. -/
theorem Accepted.carries {p : Pass} {done : List Diagnostic} {n : Nat} {l : Line} {rule : RuleId}
    (h : p.Accepted done n l (some rule)) {d : RuleDefinition}
    (hrule : Catalog.definitionOf? rule = some d) (hacross : d.transfer = .across) {c : Citation}
    (hc : c ∈ l.citations) : c.stop = none ∧ c.start < n ∧ p.resolveAcross n 0 c.start = .ok () := by
  obtain ⟨j, _, -, hcites, -, hfound, hway⟩ := h.citing (List.ne_nil_of_mem hc)
  cases hfound
  obtain rfl | ⟨a, d', hdef, -, happ⟩ := hway
  · cases hrule
    cases hacross
  rw [hrule] at hdef
  cases hdef
  obtain ⟨materials, hresolved, -, ⟨b, hfits⟩, -⟩ := applyDefinition_iff.mp happ
  obtain ⟨m, hm, hres⟩ := forall₂_exists_left hresolved.flip (hcites ▸ hc)
  rw [hacross] at hres
  cases hres with
  | subproof =>
    -- its schemas ask for sentences only
    obtain ⟨schema, hschema, ms, hperm, b', hinst, -⟩ := RuleDefinition.apply_cases hfits
    obtain ⟨_, hmem, hsome⟩ := List.mem_map.mp hm
    cases hsome
    obtain ⟨q, hq, hqm⟩ := forall₂_exists_left hinst (hperm.mem_iff.mpr hmem)
    have hmember := List.mem_of_find?_eq_some hrule
    rw [Catalog.across_takes_lines d hmember hacross schema hschema q hq] at hqm
    exact hqm.elim
  | across hstop _ hlt hhome hhyp hforce hsys hhere hthere hcan =>
    exact ⟨hstop, hlt, resolveAcross_iff.mpr
      ⟨_, _, _, _, _, hhome, hhyp, hforce, hsys, hhere, hthere, hcan⟩⟩

end Pass

/-- Below the symmetric system, a line that may be carried between worlds is in view. So a line that
is valid by necessity elimination or by transitivity cites single lines in view, none of which stands
in a closed subproof. -/
theorem imports_in_view {lines : List Line} {goal : Option Goal} {revision : Nat} {o : Outline}
    (hbuild : Outline.build lines goal revision = .ok o) (hlines : ∀ l ∈ lines, l.Created)
    {config : Config} (hsystem : config.system ≠ some .s5) :
    ∃ p report, Pass.start o config = .ok p ∧ verify o config = .ok report ∧
      (∀ n t index, t < n → p.resolveAcross n index t = .ok () → o.lineVisible n t = .ok true) ∧
      ∀ (n : Nat) l d rule, o.line? n = some l → report.byLine n = .ok d →
        d.verdict = .valid (some rule) → rule = .necessityElim ∨ rule = .transitivity →
        ∀ c ∈ l.citations, c.stop = none ∧ o.lineVisible n c.start = .ok true ∧
          ∀ s ∈ o.subproofs, s.last < n → s.containsLine c.start = false := by
  obtain ⟨h, rfl, -, -⟩ := Outline.build_cases hbuild
  have hproper : ∀ l ∈ o.lines, l.Proper := fun l hl => (Line.created_iff.mp (hlines l hl)).2.2
  obtain ⟨tree, report, hreport, htree, f⟩ :=
    verify_total h (fun l hl => (hproper l hl).rootless) config
  have g := f.grounded
  refine ⟨_, report, Pass.start_ok htree config, hreport,
    fun n t index => g.across_visible hproper hsystem, ?_⟩
  intro n l d rule hl hd hv hrule c hc
  obtain ⟨def', hdef, hacross⟩ : ∃ d, Catalog.definitionOf? rule = some d ∧ d.transfer = .across := by
    rcases hrule with rfl | rfl
    · exact ⟨_, rfl, rfl⟩
    · exact ⟨_, rfl, rfl⟩
  have hverdict := (f.byLine_iff.mp hd).2
  rw [hv, f.valid_iff hl] at hverdict
  obtain ⟨hstop, hlt, hok⟩ := hverdict.carries hdef hacross hc
  have hvisible := g.across_visible hproper hsystem hlt hok
  refine ⟨hstop, hvisible, fun s hs hclosed => ?_⟩
  obtain ⟨here, hhere, -⟩ := h.line_scope hl
  obtain ⟨-, -, hopen⟩ := (h.lineVisible_iff g.rootless hhere c.start).2.mp hvisible
  rw [← Bool.not_eq_true]
  intro hin
  have hle := (Scope.containsLine_iff.mp (hopen s hs hin)).2
  omega

/-- A necessity is carried into a strict subproof after a closed one, and what comes of it there is
carried out again. -/
def carriedOut : List Line :=
  createLines [("□□P", "PR", 0, none), ("Q", "PR", 1, some .ordinary), ("□", "", 1, some .modal),
    ("□P", "□E 1", 1, none), ("P", "□E 4", 0, none)]

/-- Carrying in is fine and keeps to what is in view. The symmetric system lets the line out of the
closed subproof as well, though it is not in view. -/
theorem imports_in_view_carried : ∃ o p report p' l d, Outline.build carriedOut none 0 = .ok o ∧
    Pass.start o ⟨some .s4, false⟩ = .ok p ∧ verify o ⟨some .s4, false⟩ = .ok report ∧
    p.resolveAcross 4 0 1 = .ok () ∧ o.lineVisible 4 1 = .ok true ∧
    o.line? 4 = some l ∧ l.citations = [⟨1, none⟩] ∧ report.byLine 4 = .ok d ∧
    d.verdict = .valid (some .necessityElim) ∧
    (∃ s ∈ o.subproofs, s.last < 4 ∧ s.containsLine 1 = false) ∧
    Pass.start o ⟨some .s5, false⟩ = .ok p' ∧ p'.resolveAcross 5 0 4 = .ok () ∧
    o.lineVisible 5 4 = .ok false := by
  obtain ⟨o, ho, h⟩ := exists_ok (x := Outline.build carriedOut none 0)
    (p := fun o =>
      ((Pass.start o ⟨some .s4, false⟩).toOption.any fun p => p.resolveAcross 4 0 1 = .ok ()) &&
      ((o.line? 4).any fun l => l.citations = [⟨1, none⟩]) &&
      ((verify o ⟨some .s4, false⟩).toOption.any fun r => (r.byLine 4).toOption.any fun d =>
        d.verdict = .valid (some .necessityElim)) &&
      decide (∃ s ∈ o.subproofs, s.last < 4) &&
      ((Pass.start o ⟨some .s5, false⟩).toOption.any fun p => p.resolveAcross 5 0 4 = .ok ()) &&
      decide (o.lineVisible 5 4 = .ok false))
    (by decide +kernel)
  simp only [Bool.and_eq_true, decide_eq_true_eq] at h
  obtain ⟨⟨⟨⟨⟨hcarry, hline⟩, hvalid⟩, ⟨s, hs, hlast⟩⟩, hout⟩, hhidden⟩ := h
  obtain ⟨p, hp, hcarry⟩ := exists_ok hcarry
  obtain ⟨l, hl, hcites⟩ := (Option.any_eq_true _ _).mp hline
  obtain ⟨report, hreport, hvalid⟩ := exists_ok hvalid
  obtain ⟨d, hd, hvalid⟩ := exists_ok hvalid
  obtain ⟨p', hp', hout⟩ := exists_ok hout
  rw [decide_eq_true_iff] at hcarry hcites hvalid hout
  obtain ⟨p₁, report₁, hp₁, hreport₁, hview, hcited⟩ :=
    imports_in_view ho (Line.createLines_created (by decide))
      (by decide : (Config.mk (some .s4) false).system ≠ some .s5)
  rw [hp] at hp₁
  rw [hreport] at hreport₁
  cases hp₁
  cases hreport₁
  obtain ⟨-, -, hclosed⟩ :=
    hcited 4 l d .necessityElim hl hd hvalid (.inl rfl) ⟨1, none⟩ (by simp [hcites])
  exact ⟨o, p, report, p', l, d, ho, hp, hreport, hcarry, hview 4 1 0 (by decide) hcarry, hl, hcites,
    hd, hvalid, ⟨s, hs, hlast, hclosed s hs hlast⟩, hp', hout, hhidden⟩

end ModalFitch
