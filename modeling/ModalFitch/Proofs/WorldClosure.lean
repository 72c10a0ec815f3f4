import ModalFitch.Proofs.Cascade
import ModalFitch.Proofs.StrictScopes

/-! The last step of a check never refuses a line.

A line that stays within its world cites only what stands in the strict subproofs around it. So once
the lines of a cited strict subproof are known to be valid, none of them draws on the outer world.

* `Pass.Grounded.within_inside`: one citation by a rule that stays within a world.
* `Pass.Grounded.stays_in`: a line of a strict subproof that is not invalid.
* `Check.Tight`: a step does not refuse a line for a citation out of a strict subproof.
* `world_closure_implied`: the last step follows from the check of the dependencies, and no line is
  ever refused by it. -/

namespace ModalFitch
set_option autoImplicit false

/-- Every rule but those that carry sentences between worlds stays within one. -/
theorem Catalog.stays_within : ∀ d ∈ definitions,
    d.rule ∉ [RuleId.necessityElim, .transitivity, .euclidean] → d.transfer = .within := by
  decide

namespace Pass

theorem mayReachOut_placeholder {p : Pass} {label : Text}
    (hlook : RuleId.lookup label = some .placeholder) : p.mayReachOut label = true := by
  unfold mayReachOut
  rw [hlook]
  rfl

theorem mayReachOut_across {p : Pass} {label : Text} {rule : RuleId} {d : RuleDefinition}
    (hlook : RuleId.lookup label = some rule) (hdef : Catalog.definitionOf? rule = some d)
    (hset : d.ruleset ∈ p.config.rulesets) (hacross : d.transfer = .across) :
    p.mayReachOut label = true := by
  unfold mayReachOut
  rw [hlook]
  dsimp only
  rw [Catalog.definitionsFor_rulesets, hdef]
  simp [hset, hacross]

/-! ## Lines inside a strict subproof -/

namespace Grounded

variable {p : Pass} (g : p.Grounded)
include g

/-- What a rule that stays within a world cites stands in every strict subproof that holds the citing
line. -/
theorem within_inside {n : Nat} {c : Citation} {m : Option Material} (h : p.Resolved n .within c m)
    {s : Scope} (hs : p.outline.IsStrict s) (hn : s.containsLine n = true) {k : Nat}
    (h1 : c.start ≤ k) (h2 : k ≤ c.last) : s.containsLine k = true := by
  cases h with
  | @subproof _ _ stop u v _ hstop hat hvis hv hw _ =>
    obtain ⟨hk, h0, hfirst, hlast⟩ := g.subproofAt_cases hat
    obtain ⟨around, hka, hpar, henc, -⟩ := g.nested.parent_of hk h0
    obtain ⟨here, hhere, hwn⟩ := worldOf_ok.mp hw
    rw [g.nested.parent_id hpar, Option.getD_some] at hv
    have hsame := g.nested.same_world_iff g.rootless g.reflects hka
      (g.nested.scopeOf_cases hhere).1 hv hwn
    have hin := (hsame.mp rfl s hs).mpr ((g.nested.contains_iff hhere hs.1).mp hn)
    -- the strict subproof is around the cited one, so it holds the whole range
    obtain ⟨-, hle, hge⟩ := (g.nested.around_iff hs.1 hk hka henc).mpr hin
    have elast : c.last = stop := by rw [Citation.last, hstop, Option.getD_some]
    exact Scope.containsLine_iff.mpr ⟨by omega, by omega⟩
  | within hstop _ _ hv hw _ =>
    obtain ⟨there, hthere, hvt⟩ := worldOf_ok.mp hv
    obtain ⟨here, hhere, hwn⟩ := worldOf_ok.mp hw
    have hsame := g.nested.same_world_iff g.rootless g.reflects (g.nested.scopeOf_cases hthere).1
      (g.nested.scopeOf_cases hhere).1 hvt hwn
    have hin := (hsame.mp rfl s hs).mpr ((g.nested.contains_iff hhere hs.1).mp hn)
    have elast : c.last = c.start := by rw [Citation.last, hstop, Option.getD_none]
    have hk : k = c.start := by omega
    rw [hk]
    exact (g.nested.contains_iff hthere hs.1).mpr hin

theorem applied_inside {done : List Diagnostic} {n : Nat} {a : Sentence} {cs : List Citation}
    {d : RuleDefinition} (h : p.applyDefinition done n a cs d = .ok ())
    (hwithin : d.transfer = .within) {s : Scope} (hs : p.outline.IsStrict s)
    (hn : s.containsLine n = true) {c : Citation} (hc : c ∈ cs) :
    c.start ≤ c.last ∧ ∀ k, c.start ≤ k → k ≤ c.last → s.containsLine k = true := by
  obtain ⟨materials, hresolved, -⟩ := applyDefinition_iff.mp h
  obtain ⟨m, -, hm⟩ := forall₂_exists_left hresolved.flip hc
  rw [hwithin] at hm
  exact ⟨(g.resolved_before hm).2.1, fun k h1 h2 => g.within_inside hm hs hn h1 h2⟩

/-- A line of a strict subproof that is not invalid stays inside. -/
theorem stays_in {done : List Diagnostic} (hdone : p.Reached done) {k : Nat} (hk : Sustained done k)
    {s : Scope} (hs : p.outline.IsStrict s) (hin : s.containsLine k = true) : p.StaysIn s k := by
  obtain ⟨l, found, hl, -, hacc⟩ := hdone.sustained hk
  refine ⟨l, hl, ?_⟩
  by_cases hcites : l.citations = []
  · exact .inr fun c hc => by rw [hcites] at hc; cases hc
  · obtain ⟨j, rule, hj, hsame, hlook, -, rfl | ⟨a, d, hdef, hset, happ⟩⟩ := hacc.citing hcites
    · refine .inl ?_
      rw [Line.ruleLabel?, hj]
      exact mayReachOut_placeholder hlook
    · cases htransfer : d.transfer with
      | across =>
        refine .inl ?_
        rw [Line.ruleLabel?, hj]
        exact mayReachOut_across hlook hdef hset htransfer
      | within =>
        refine .inr fun c hc => ?_
        obtain ⟨hle, hinside⟩ := g.applied_inside happ htransfer hs hin (hsame ▸ hc)
        exact hinside c.start (Nat.le_refl _) hle

theorem closure_of_dependencies {done : List Diagnostic} (hdone : p.Reached done) {index index' : Int}
    {cs : List Citation} (hdep : checkDependencies done index cs = .ok ()) :
    p.checkClosure index' cs = .ok () := by
  rw [checkClosure_iff]
  intro c hc stop s hstop hat hkind k h1 h2
  obtain ⟨hk, -, hfirst, hlast⟩ := g.subproofAt_cases hat
  have elast : c.last = stop := by rw [Citation.last, hstop, Option.getD_some]
  have hsus := checkDependencies_iff.mp hdep c hc k (by omega) (by omega)
  exact g.stays_in hdone hsus ⟨hk, hkind⟩ (Scope.containsLine_iff.mpr ⟨by omega, h2⟩)

end Grounded

end Pass

/-! ## What a line is refused for -/

/-- A step does not refuse a line for a citation out of a strict subproof. -/
def Check.Tight {α : Type} (x : Check α) : Prop :=
  ∀ e, x = .error (.refused e) → ∀ inner outer c, e.cause ≠ .leak inner outer c

theorem Pass.judge_tight {p : Pass} {done : List Diagnostic}
    (hclosed : ∀ cs, checkDependencies done 0 cs = .ok () → p.checkClosure 0 cs = .ok ()) (n : Nat)
    (l : Line) : Check.Tight (p.judge done n l) := by
  refine judge_refusals (P := fun cause => ∀ inner outer c, cause ≠ .leak inner outer c)
    ?_ ?_ n ?_
  · rintro _ hordinary inner outer c rfl
    cases hordinary
  · intro cs hdep
    rw [hclosed cs hdep]
    exact Check.refusesOnly_ok ()
  · rintro label - inner outer c h
    cases h

/-- The check that strict subproofs are closed follows from the check of the dependencies: whatever
the citations of a line, where they reach no invalid line, no line of a strict subproof among them
draws on the outer world. A valid line inside a strict subproof cites only what stands inside, unless
it is a placeholder or carries a sentence between worlds. And no line is refused for a citation out of
a strict subproof. -/
theorem world_closure_implied {lines : List Line} {goal : Option Goal} {revision : Nat} {o : Outline}
    (hbuild : Outline.build lines goal revision = .ok o) (hopens : ∀ l ∈ lines, l.opens ≠ some .root)
    (config : Config) : ∃ p report, Pass.start o config = .ok p ∧ verify o config = .ok report ∧
      (∀ n cs, Pass.checkDependencies (report.diagnostics.take (n - 1)) 0 cs = .ok () →
        p.checkClosure 0 cs = .ok ()) ∧
      (∀ (n : Nat) l d rule, o.line? n = some l → report.byLine n = .ok d →
        d.verdict = .valid rule →
        rule ∉ [some .placeholder, some .necessityElim, some .transitivity, some .euclidean] →
        ∀ s ∈ o.subproofs, s.kind = .modal → s.containsLine n = true →
          ∀ c ∈ l.citations, ∀ k, c.start ≤ k → k ≤ c.last → s.containsLine k = true) ∧
      ∀ d ∈ report.diagnostics, ∀ label e, d.verdict = .invalid label e →
        ∀ inner outer c, e.cause ≠ .leak inner outer c := by
  obtain ⟨h, rfl, -, -⟩ := Outline.build_cases hbuild
  obtain ⟨tree, report, hreport, htree, f⟩ := verify_total h hopens config
  have g := f.grounded
  have hclosed : ∀ i cs, Pass.checkDependencies (report.diagnostics.take i) 0 cs = .ok () →
      (Pass.mk o config tree).checkClosure 0 cs = .ok () :=
    fun i _ hdep => g.closure_of_dependencies (f.reached.take i) hdep
  refine ⟨_, report, Pass.start_ok htree config, hreport, fun n => hclosed (n - 1), ?_, ?_⟩
  · intro n l d rule hl hd hv hrule s hs hkind hn c hc k h1 h2
    have hverdict := (f.byLine_iff.mp hd).2
    rw [hv, f.valid_iff hl] at hverdict
    obtain ⟨j, rule, -, hcites, -, rfl, rfl | ⟨a, def', hdef, -, happ⟩⟩ :=
      hverdict.citing (List.ne_nil_of_mem hc)
    · simp at hrule
    · have hwithin : def'.transfer = .within := by
        refine Catalog.stays_within def' (List.mem_of_find?_eq_some hdef) fun hin => ?_
        rw [Pass.definitionOf?_rule hdef] at hin
        exact hrule (List.mem_cons_of_mem _ (List.mem_map_of_mem hin))
      obtain ⟨hk, -⟩ := (h.mem_subproofs hopens).mp hs
      exact (g.applied_inside happ hwithin ⟨hk, hkind⟩ hn (hcites ▸ hc)).2 k h1 h2
  · intro d hd label e hv
    obtain ⟨i, hi⟩ := List.mem_iff_getElem?.mp hd
    obtain ⟨-, l, -, hverdict⟩ := f.reached.entry i d hi
    rw [hv] at hverdict
    exact Pass.judge_tight (hclosed i) (i + 1) l e (Pass.verdict_invalid_iff.mp hverdict).2

/-- The first strict subproof is closed since its lines are valid, and its last line cites only lines
of it. The second one is not closed, but what refuses the line that cites it is the invalid line. -/
theorem world_closure_implied_necessitated : ∃ o p report l d d' label e,
    Outline.build necessitated none 0 = .ok o ∧ Pass.start o ⟨some .k, false⟩ = .ok p ∧
    verify o ⟨some .k, false⟩ = .ok report ∧
    Pass.checkDependencies (report.diagnostics.take 5) 0 [⟨2, some 5⟩] = .ok () ∧
    p.checkClosure 0 [⟨2, some 5⟩] = .ok () ∧
    o.line? 5 = some l ∧ l.citations = [⟨3, some 4⟩] ∧ report.byLine 5 = .ok d ∧
    d.verdict = .valid (some .conditionalIntro) ∧
    (∃ s ∈ o.subproofs, s.kind = .modal ∧ s.containsLine 5 = true ∧ s.containsLine 4 = true) ∧
    d' ∈ report.diagnostics ∧ d'.number = 9 ∧ d'.verdict = .invalid label e ∧
    ∀ inner outer c, e.cause ≠ .leak inner outer c := by
  obtain ⟨o, ho, h⟩ := exists_ok (x := Outline.build necessitated none 0)
    (p := fun o => ((o.line? 5).any fun l => l.citations = [⟨3, some 4⟩]) &&
      decide (∃ s ∈ o.subproofs, s.kind = .modal ∧ s.containsLine 5 = true) &&
      ((verify o ⟨some .k, false⟩).toOption.any fun r =>
        decide (Pass.checkDependencies (r.diagnostics.take 5) 0 [⟨2, some 5⟩] = .ok ()) &&
        ((r.byLine 5).toOption.any fun d => d.verdict = .valid (some .conditionalIntro)) &&
        r.diagnostics.any fun d => d.number = 9 && d.verdict.isInvalid))
    (by decide +kernel)
  simp only [Bool.and_eq_true, decide_eq_true_eq] at h
  obtain ⟨⟨hline, ⟨s, hs, hkind, h5⟩⟩, hreport⟩ := h
  obtain ⟨l, hl, hcites⟩ := (Option.any_eq_true _ _).mp hline
  obtain ⟨report, hreport, hverdicts⟩ := exists_ok hreport
  simp only [Bool.and_eq_true, List.any_eq_true, decide_eq_true_eq] at hcites hverdicts
  obtain ⟨⟨hdep, hvalid⟩, ⟨d', hd', hnumber, hinvalid⟩⟩ := hverdicts
  obtain ⟨d, hd, hvalid⟩ := exists_ok hvalid
  rw [decide_eq_true_iff] at hvalid
  obtain ⟨label, e, hrefused⟩ : ∃ label e, d'.verdict = .invalid label e := by
    cases hv : d'.verdict with
    | invalid label e => exact ⟨label, e, rfl⟩
    | valid rule => rw [hv] at hinvalid; cases hinvalid
    | unchecked => rw [hv] at hinvalid; cases hinvalid
  obtain ⟨p, report', hp, hreport', hclosure, hinside, hleak⟩ :=
    world_closure_implied ho (by decide +kernel) ⟨some .k, false⟩
  rw [hreport] at hreport'
  cases hreport'
  have h4 := hinside 5 l d _ hl hd hvalid (by decide) s hs hkind h5 ⟨3, some 4⟩ (by simp [hcites]) 4
    (by decide) (by decide)
  exact ⟨o, p, report, l, d, d', label, e, ho, hp, hreport, hdep, hclosure 6 _ hdep, hl, hcites, hd,
    hvalid, ⟨s, hs, hkind, h5, h4⟩, hd', hnumber, hrefused, hleak d' hd' label e hrefused⟩

end ModalFitch
