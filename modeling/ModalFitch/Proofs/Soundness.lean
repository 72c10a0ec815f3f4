import ModalFitch.Proofs.Following
import ModalFitch.Proofs.RuleSoundness
import ModalFitch.Proofs.Totality

/-! A checked proof proves what it says.

Where the premises are true at the point of the actual world, and the assumptions over a valid line
at the points of their worlds, the line is true at the point of its world.

* `Pass.Support`: points under which all that a line rests on is true.
* `Pass.Grounded.granted`: one citation. It is the step of the induction on the number of a line.
* `kripke_sound`, `boolean_sound`: soundness for the modal systems and for truth-functional logic. -/

namespace ModalFitch
set_option autoImplicit false

universe u

/-! ## What a line rests on -/

namespace Outline

/-- The subproof is around the line and has an assumption. -/
def Over (o : Outline) (n : Nat) (s : Scope) : Prop := ∃ hs, o.hypothesesOver n = .ok hs ∧ s ∈ hs

/-- The premises of the main proof up to a line are true. -/
def PremisesHold (o : Outline) (ds : List Diagnostic) (n : Nat) (holds : Sentence → Prop) : Prop :=
  ∀ m ≤ n, ∀ l a, o.line? m = some l → l.depth = 0 → l.reading = .ok a →
    Pass.verdictAt ds m = .ok (.valid (some .premise)) → holds a

/-- The assumptions over a line are true, each in its world. -/
def AssumptionsHold (o : Outline) (t : WorldTree) (n : Nat) (holds : World → Sentence → Prop) :
    Prop :=
  ∀ s, o.Over n s → ∀ w a, t.ofScope s.id = .ok w → o.sentenceAt? s.first = some a → holds w a

variable {o : Outline} (h : o.Nested)
include h

theorem Nested.over_iff {n : Nat} {home s : Scope} (hn : o.scopeOf n = .ok home) :
    o.Over n s ↔ o.HasScope s ∧ s.id ∈ home.enclosing ∧ o.hasAssumption s = true := by
  unfold Over hypothesesOver
  rw [hn]
  constructor
  · rintro ⟨hs, hok, hmem⟩
    cases hok
    obtain ⟨hanc, has⟩ := List.mem_filter.mp hmem
    obtain ⟨hk, henc⟩ := h.mem_ancestors.mp hanc
    exact ⟨hk, henc, has⟩
  · rintro ⟨hk, henc, has⟩
    exact ⟨_, rfl, List.mem_filter.mpr ⟨h.mem_ancestors.mpr ⟨hk, henc⟩, has⟩⟩

/-- What is over a line is over the lines that see it. -/
theorem Nested.over_inner {k n : Nat} {there here s : Scope} (hk : o.scopeOf k = .ok there)
    (hn : o.scopeOf n = .ok here) (henc : there.id ∈ here.enclosing) (hs : o.Over k s) :
    o.Over n s := by
  obtain ⟨hscope, hmem, has⟩ := (h.over_iff hk).mp hs
  have hsub := h.enclosing_subset (h.scopeOf_cases hn).1 (h.scopeOf_cases hk).1 henc
  exact (h.over_iff hn).mpr ⟨hscope, hsub hmem, has⟩

end Outline

/-! ## One line -/

namespace Pass

/-- Points under which all that a line rests on is true. -/
structure Support (p : Pass) (ds : List Diagnostic) (I : Interpretation.{u}) (σ : World → I.Point)
    (n : Nat) (w : World) : Prop where
  follows : p.worlds.Follows I.access σ w
  premises : p.outline.PremisesHold ds n (I.holds (σ .actual))
  assumptions : p.outline.AssumptionsHold p.worlds n fun v => I.holds (σ v)

/-- The sentence of a line is true in its world wherever all that the line rests on is. The lone box
has no sentence. -/
def TrueLine (p : Pass) (ds : List Diagnostic) (I : Interpretation.{u}) (n : Nat) : Prop :=
  ∀ a w σ, p.outline.sentenceAt? n = some a → a ≠ .marker → p.worldOf n = .ok w →
    p.Support ds I σ n w → I.holds (σ w) a

variable {p : Pass} {ds : List Diagnostic} {I : Interpretation.{u}} {σ : World → I.Point}

/-- Support for an earlier line, with other points for some worlds: an assumption over it is over
the later line and keeps its point, or it is true for a reason of its own. -/
theorem Support.earlier {k n : Nat} {v w : World} {τ : World → I.Point}
    (h : p.Support ds I σ n w) (hk : k ≤ n) (hfollows : p.worlds.Follows I.access τ v)
    (hactual : τ .actual = σ .actual)
    (hover : ∀ s, p.outline.Over k s → ∀ u a, p.worlds.ofScope s.id = .ok u →
      p.outline.sentenceAt? s.first = some a →
      (p.outline.Over n s ∧ τ u = σ u) ∨ I.holds (τ u) a) :
    p.Support ds I τ k v := by
  refine ⟨hfollows, ?_, ?_⟩
  · intro m hm l a hl hd hread hv
    rw [hactual]
    exact h.premises m (by omega) l a hl hd hread hv
  · intro s hs u a hu ha
    rcases hover s hs u a hu ha with ⟨hs', e⟩ | htrue
    · rw [e]
      exact h.assumptions s hs' u a hu ha
    · exact htrue

namespace Grounded

variable (g : p.Grounded)
include g

theorem true_within {n k : Nat} {w : World} {a : Sentence} (htrue : p.TrueLine ds I k)
    (ha : p.outline.sentenceAt? k = some a) (hne : a ≠ .marker) (hlt : k < n)
    (hk : p.worldOf k = .ok w) (hv : p.outline.lineVisible n k = .ok true)
    (hsup : p.Support ds I σ n w) : I.holds (σ w) a := by
  obtain ⟨there, here, hthere, hhere, henc⟩ := Outline.lineVisible_cases hv
  refine htrue a w σ ha hne hk (hsup.earlier (by omega) hsup.follows rfl ?_)
  intro s hs u b _ _
  exact .inl ⟨g.nested.over_inner hthere hhere henc hs, rfl⟩

/-- A line that is carried over from another world is true at a point that sees this one. -/
theorem true_across {n k : Nat} {here there : World} {home : Scope} {hypotheses : List Scope}
    {system : ModalSystem} {a : Sentence} (htrue : p.TrueLine ds I k)
    (ha : p.outline.sentenceAt? k = some a) (hne : a ≠ .marker) (hlt : k < n)
    (hhome : p.outline.scopeOf n = .ok home) (hhyp : p.outline.hypothesesOver k = .ok hypotheses)
    (henc : ∀ s ∈ hypotheses, s.encloses home = true) (hhere : p.worldOf n = .ok here)
    (hthere : p.worldOf k = .ok there) (hcan : p.worlds.canImport system here there = true)
    (hf : system.Frame I.access) (hsup : p.Support ds I σ n here) :
    ∃ z, I.access z (σ here) ∧ I.holds z a := by
  have hh := g.world_mem hhere
  obtain ⟨τ, hfollows, hacc, hkeep⟩ :=
    hsup.follows.carry g.reflects hf hh (g.world_mem hthere) hcan
  refine ⟨τ there, hacc, htrue a there τ ha hne hthere (hsup.earlier (by omega) hfollows ?_ ?_)⟩
  · exact hkeep .actual (g.reflects.actual_mem_lineage hh)
  · -- the assumptions over the cited line are in force here, so their worlds are around this one
    intro s hs u b hu _
    obtain ⟨hs', hok, hmem⟩ := hs
    rw [hhyp] at hok
    cases hok
    have hin := Outline.encloses_iff.mp (henc s hmem)
    obtain ⟨there', hscope, -⟩ := worldOf_ok.mp hthere
    obtain ⟨hk, -, has⟩ := (g.nested.over_iff hscope).mp ⟨_, hhyp, hmem⟩
    obtain ⟨home', hhome', hw⟩ := worldOf_ok.mp hhere
    rw [hhome] at hhome'
    cases hhome'
    have hlin := g.nested.lineage_of_encloses g.rootless g.reflects
      (g.nested.scopeOf_cases hhome).1 hin hu hw
    exact .inl ⟨(g.nested.over_iff hhome).mpr ⟨hk, hin, has⟩, hkeep u hlin⟩

/-- Points for the world of a subproof: the point around it, or for a strict one any point seen from
there. -/
theorem enter_subproof {s : Scope} {w : World} {y : I.Point} (hs : p.outline.HasScope s)
    (h0 : s.id ≠ 0) (hw : p.worlds.ofScope (s.parent?.getD 0) = .ok w)
    (hfollows : p.worlds.Follows I.access σ w)
    (hy : if s.kind = .modal then I.access (σ w) y else y = σ w) :
    ∃ v, p.worlds.ofScope s.id = .ok v ∧ ∃ τ : World → I.Point, p.worlds.Follows I.access τ v ∧
      τ v = y ∧ ∀ x ∈ p.worlds.lineage w, τ x = σ x := by
  obtain ⟨v, hv, hmem, ⟨hz, -⟩ | ⟨around, u, -, -, hpar, hu, hum, hcase⟩⟩ :=
    g.nested.scope_world g.rootless g.reflects hs
  · exact absurd hz h0
  · rw [hpar, Option.getD_some, hu] at hw
    cases hw
    refine ⟨v, hv, ?_⟩
    rcases hcase with ⟨hk, hp, -⟩ | ⟨hk, rfl⟩
    · rw [if_pos hk] at hy
      exact hfollows.enter g.reflects hum hmem hp hy
    · rw [if_neg hk] at hy
      exact ⟨σ, hfollows, hy.symm, fun _ _ => rfl⟩

/-- The result of a closed subproof is true at every point where its assumption is, at the point of
the world around it or, for a strict subproof, at those seen from there. -/
theorem true_subproof {n : Nat} {s : Scope} {w : World} {m : Summary} (hs : p.outline.HasScope s)
    (h0 : s.id ≠ 0) (htrue : ∀ k, s.first ≤ k → k ≤ s.last → p.TrueLine ds I k)
    (hvis : p.outline.subproofVisible n s = .ok true)
    (hw : p.worlds.ofScope (s.parent?.getD 0) = .ok w) (hm : p.outline.summary s = .ok m)
    (hsup : p.Support ds I σ n w) {y : I.Point}
    (hy : if s.kind = .modal then I.access (σ w) y else y = σ w)
    (hassume : ∀ a, m.assumption = some a → I.holds y a) {a : Sentence} (ha : m.result = some a)
    (hne : a ≠ .marker) : I.holds y a := by
  obtain ⟨hlast, here, parent, hhere, hparent, hin⟩ := Outline.subproofVisible_cases hvis
  obtain ⟨around, l, haround, henc, -, hpar, -, -, -⟩ := g.nested.subproof hs h0
  obtain ⟨opener, hopener, -, hasm, hresult⟩ := Outline.summary_cases hm
  obtain ⟨k, hk, hak⟩ := hresult a ha
  have hscope := g.nested.line_item hs hk
  have hrange := g.nested.range hscope hs (g.nested.self_mem hs)
  obtain ⟨v, hv, τ, hfollows, hτ, hkeep⟩ := g.enter_subproof hs h0 hw hsup.follows hy
  have hworld : p.worldOf k = .ok v := worldOf_ok.mpr ⟨s, hscope, hv⟩
  rw [hpar, Option.getD_some] at hw
  have hwm : w ∈ p.worlds.worlds := by
    obtain ⟨w', hw', hmem⟩ := g.scope_world haround
    rw [hw] at hw'
    cases hw'
    exact hmem
  have eparent : parent = around := by
    unfold Outline.parent? at hparent
    rw [hpar, Option.bind_some] at hparent
    exact (g.nested.hasScope hparent).2.unique haround (g.nested.hasScope hparent).1
  subst eparent
  rw [← hτ]
  refine htrue k hrange.1 hrange.2 a v τ hak hne hworld (hsup.earlier (by omega) hfollows ?_ ?_)
  · exact hkeep .actual (g.reflects.actual_mem_lineage hwm)
  · intro r hr u b hu hb
    obtain ⟨hrs, hmem, has⟩ := (g.nested.over_iff hscope).mp hr
    rw [henc] at hmem
    rcases List.mem_cons.mp hmem with e | hmem
    · -- the subproof's own assumption
      have er := hrs.unique hs e
      subst er
      rw [hv] at hu
      cases hu
      have hmark : opener.isMarker = false := by
        unfold Outline.hasAssumption Outline.isMarkerAt at has
        rw [hopener, Option.any_some, Bool.and_eq_true, Bool.not_eq_true', Bool.not_eq_true'] at has
        exact has.2
      rw [Outline.sentenceAt?_eq hopener] at hb
      rw [hmark, if_neg Bool.false_ne_true, hb] at hasm
      rw [hτ]
      exact .inr (hassume b hasm)
    · have hlin := g.nested.lineage_of_encloses g.rootless g.reflects haround hmem hu hw
      have hsub := g.nested.enclosing_subset (g.nested.scopeOf_cases hhere).1 haround hin
      exact .inl ⟨(g.nested.over_iff hhere).mpr ⟨hrs, hsub hmem, has⟩, hkeep u hlin⟩

/-- What a citation leads to is true, in the sense in which the premise that it stands for is
granted. -/
theorem granted {n : Nat} {transfer : Transfer} {c : Citation} {o : Option Material} {m : Material}
    {w : World} (hres : p.Resolved n transfer c o) (hm : o = some m)
    (hI : I.Admits p.config) (htrue : ∀ k, c.start ≤ k → k ≤ c.last → p.TrueLine ds I k)
    (hw : p.worldOf n = .ok w) (hsup : p.Support ds I σ n w) {b : Bindings} {q : Premise}
    (hq : q.asks ≠ .marker) (hinst : q.Instance b m) : q.Granted I b (σ w) transfer := by
  have hsent : ∀ {l}, p.outline.line? c.start = some l → l.sentence?.map Material.sentence = some m →
      ∃ a pattern, p.outline.sentenceAt? c.start = some a ∧ q = .line pattern ∧
        pattern.instantiatePartial b = a ∧ a ≠ .marker := by
    intro l hl hl'
    obtain ⟨a, ha, rfl⟩ := Option.map_eq_some_iff.mp hl'
    cases q with
    | line pattern =>
      obtain ⟨e, hmark⟩ := hinst
      refine ⟨a, pattern, by rw [Outline.sentenceAt?_eq hl, ha], rfl, e, ?_⟩
      intro h
      exact hq (hmark h)
    | subproof pattern => exact hinst.elim
  obtain ⟨-, hlast, -⟩ := g.resolved_before hres
  cases hres with
  | within hstop hl hlt hk hn hv =>
    obtain ⟨a, pattern, ha, rfl, e, hne⟩ := hsent hl hm
    rw [hw] at hn
    cases hn
    rw [Catalog.granted_line, e]
    exact g.true_within (htrue _ (Nat.le_refl _) hlast) ha hne hlt hk hv hsup
  | across hstop hl hlt hhome hhyp henc hsys hhere hthere hcan =>
    obtain ⟨a, pattern, ha, rfl, e, hne⟩ := hsent hl hm
    rw [hw] at hhere
    cases hhere
    rw [Catalog.granted_across, e]
    exact g.true_across (htrue _ (Nat.le_refl _) hlast) ha hne hlt hhome hhyp henc hw hthere hcan
      (hI _ hsys).2 hsup
  | @subproof _ _ stop s v summary hstop hat hvis haround hn hsum =>
    cases hm
    rw [hw] at hn
    cases hn
    obtain ⟨hk, h0, efirst, elast⟩ := g.subproofAt_cases hat
    have estop : c.last = stop := by rw [Citation.last, hstop, Option.getD_some]
    cases q with
    | line pattern => exact hinst.elim
    | subproof pattern =>
      obtain ⟨hkind, hasm, r, hr, e, hmark⟩ := hinst
      obtain ⟨-, -, hkind', -, -⟩ := Outline.summary_cases hsum
      rw [Catalog.granted_subproof]
      intro y hy hassume
      rw [← hkind, hkind'] at hy
      rw [e]
      refine g.true_subproof hk h0 ?_ hvis haround hsum hsup hy ?_ hr fun h => hq (hmark h)
      · intro k h1 h2
        exact htrue k (by omega) (by omega)
      · intro a ha
        rw [hasm] at ha
        obtain ⟨q, hq', rfl⟩ := Option.map_eq_some_iff.mp ha
        exact hassume q hq'

theorem true_assumption {n : Nat} {l : Line} {a : Sentence} {w : World}
    (hl : p.outline.line? n = some l) (hread : l.reading = .ok a) (hne : a ≠ .marker)
    (hopens : l.opens.isSome = true) (hw : p.worldOf n = .ok w) (hsup : p.Support ds I σ n w) :
    I.holds (σ w) a := by
  obtain ⟨kind, hkind⟩ := Option.isSome_iff_exists.mp hopens
  obtain ⟨s, hs, hk, h0, hfirst, -⟩ := g.nested.opener hl hkind
  obtain ⟨s', hs', hworld⟩ := worldOf_ok.mp hw
  rw [hs] at hs'
  cases hs'
  have hmark : l.isMarker = false := by
    unfold Line.isMarker
    rw [hread]
    cases a <;> first | rfl | exact absurd rfl hne
  have hasm : p.outline.hasAssumption s = true := by
    unfold Outline.hasAssumption Outline.isMarkerAt
    have hroot := (g.nested.isRoot_iff g.rootless hk).not.mpr h0
    rw [hfirst, hl, Option.any_some, hmark, Bool.not_eq_true] at *
    rw [hroot]
    rfl
  have hover : p.outline.Over n s :=
    (g.nested.over_iff hs).mpr ⟨hk, g.nested.self_mem hk, hasm⟩
  refine hsup.assumptions s hover w a hworld ?_
  rwa [hfirst, Outline.sentenceAt?_eq hl, Line.sentence?_eq_some]

/-- The main proof is in the actual world. -/
theorem main_world {n : Nat} {l : Line} {w : World} (hl : p.outline.line? n = some l)
    (hd : l.depth = 0) (hw : p.worldOf n = .ok w) : w = .actual := by
  obtain ⟨s, hs, hworld⟩ := worldOf_ok.mp hw
  rw [g.nested.main_line hl hd hs] at hworld
  unfold WorldTree.ofScope at hworld
  rw [g.reflects.main] at hworld
  cases hworld
  rfl

theorem accepted_true (hI : I.Admits p.config) {n : Nat} {l : Line}
    {found : Option RuleId} (hl : p.outline.line? n = some l)
    (hacc : p.Accepted (ds.take (n - 1)) n l found)
    (hv : verdictAt ds n = .ok (.valid found)) (hph : found ≠ some .placeholder)
    (ih : ∀ k < n, Sustained ds k → p.TrueLine ds I k) : p.TrueLine ds I n := by
  intro a w σ ha hne hw hsup
  have hread : l.reading = .ok a := by
    rwa [Outline.sentenceAt?_eq hl, Line.sentence?_eq_some] at ha
  cases hacc with
  | marker hm _ =>
    rw [hread] at hm
    cases hm
    exact absurd rfl hne
  | assumption _ _ hopens _ => exact g.true_assumption hl hread hne hopens hw hsup
  | premise _ _ _ _ _ _ hd _ =>
    rw [g.main_world hl hd hw]
    exact hsup.premises n (Nat.le_refl n) l a hl hd hread hv
  | placeholder => exact absurd rfl hph
  | @rule s j rule d hread' _ _ _ _ _ _ hdef hset happ =>
    rw [hread] at hread'
    cases hread'
    obtain ⟨materials, hres, hsus, ⟨β, hβ⟩, -⟩ := applyDefinition_iff.mp happ
    obtain ⟨schema, hschema, ms, hperm, b, hinst, hconc⟩ := d.apply_cases hβ
    have hd : d ∈ Catalog.definitions := List.mem_of_find?_eq_some hdef
    rw [← I.holds_variant hconc]
    refine Catalog.enabled_sound hI hd hset schema hschema b (σ w) ?_
    intro q hq
    obtain ⟨m, hm, hqm⟩ := forall₂_exists_left hinst.flip hq
    have hmem : some m ∈ materials.map some := List.mem_map_of_mem (hperm.mem_iff.mp hm)
    obtain ⟨c, hc, hcm⟩ := forall₂_exists_left hres hmem
    refine g.granted hcm rfl hI ?_ hw hsup (Catalog.asks_proper d hd schema hschema q hq) hqm
    intro k h1 h2
    obtain ⟨hle, hk⟩ := sustained_take.mp (hsus c hc k h1 h2)
    have hpos := (g.resolved_before hcm).1
    exact ih k (by omega) hk

/-- Every line that is not invalid is true wherever all that it rests on is, if no line is a
placeholder. -/
theorem true_line (hds : p.Reached ds) (hI : I.Admits p.config)
    (hph : ∀ k, verdictAt ds k ≠ .ok (.valid (some .placeholder))) {n : Nat}
    (hn : Sustained ds n) : p.TrueLine ds I n := by
  induction n using Nat.strongRecOn with
  | _ n ih =>
    obtain ⟨l, found, hl, hv, hacc⟩ := hds.sustained hn
    refine g.accepted_true hI hl hacc hv ?_ ih
    rintro rfl
    exact hph n hv

/-- A valid line of the main proof is not the lone box, which opens a subproof. -/
theorem main_not_marker (hds : p.Reached ds) {n : Nat} {l : Line} {a : Sentence}
    (hn : Sustained ds n) (hl : p.outline.line? n = some l) (hd : l.depth = 0)
    (hread : l.reading = .ok a) : a ≠ .marker := by
  rintro rfl
  obtain ⟨l', found, hl', -, hacc⟩ := hds.sustained hn
  rw [hl] at hl'
  cases hl'
  cases hacc with
  | marker _ hm =>
    unfold judgeMarker at hm
    split at hm
    · cases hm
    · rename_i hopens
      obtain ⟨s, hs, -, h0, -⟩ := g.nested.opener hl (not_not.mp hopens)
      exact h0 (g.nested.main_line hl hd hs)
  | assumption h hne | premise h hne | placeholder h hne | rule h hne =>
    rw [hread] at h
    cases h
    exact hne rfl

end Grounded

end Pass

/-! ## Reports -/

namespace Report.From

variable {r : Report} {p : Pass} (f : r.From p)
include f

theorem no_placeholder (h : r.placeholders = []) (n : Nat) :
    Pass.verdictAt r.diagnostics n ≠ .ok (.valid (some .placeholder)) := by
  intro hv
  obtain ⟨-, d, hd, e⟩ := Pass.verdictAt_ok.mp hv
  rw [f.pending, List.map_eq_nil_iff, List.filter_eq_nil_iff] at h
  exact h d (List.mem_of_getElem? hd) (decide_eq_true e)

/-- A proved goal is the sentence of a line of the main proof, all lines are valid and none is a
placeholder. -/
theorem goal_line (h : r.provesGoal = some true) :
    r.placeholders = [] ∧ ∃ goal n l, p.outline.goal = some (.sentence goal) ∧
      p.outline.line? n = some l ∧ l.depth = 0 ∧ l.reading = .ok goal ∧
      Pass.Sustained r.diagnostics n := by
  unfold Report.provesGoal at h
  obtain ⟨reaches, hreaches, h⟩ := Option.map_eq_some_iff.mp h
  rw [Bool.and_eq_true, List.isEmpty_iff] at h
  refine ⟨h.2, ?_⟩
  rw [f.reaches] at hreaches
  obtain ⟨goal, hgoal, e⟩ := Option.map_eq_some_iff.mp hreaches
  rw [h.1, Bool.and_eq_true, List.all_eq_true] at e
  obtain ⟨hall, hstates⟩ := e
  unfold Outline.statesGoal at hstates
  obtain ⟨l, hl, hmeets⟩ := List.any_eq_true.mp hstates
  rw [Bool.and_eq_true, decide_eq_true_iff] at hmeets
  obtain ⟨hdepth, hmeets⟩ := hmeets
  cases hread : l.reading with
  | error e => simp [Line.sentence?, hread, Except.toOption] at hmeets
  | ok a =>
    cases goal with
    | other v => simp [Line.sentence?, hread, Except.toOption, Goal.isMetBy] at hmeets
    | sentence goal =>
      have e : goal = a := by
        simpa [Line.sentence?, hread, Except.toOption, Goal.isMetBy] using hmeets
      subst e
      obtain ⟨i, hi⟩ := List.mem_iff_getElem?.mp hl
      obtain ⟨hlt, -⟩ := List.getElem?_eq_some_iff.mp hi
      have hcomplete := f.complete
      unfold Outline.size at hcomplete
      obtain ⟨d, hd⟩ : ∃ d, r.diagnostics[i]? = some d :=
        ⟨_, List.getElem?_eq_getElem (by omega)⟩
      refine ⟨goal, i + 1, l, hgoal, ?_, hdepth, hread, d.verdict, ?_, ?_⟩
      · rw [Outline.line?, if_neg (Nat.succ_ne_zero i), Nat.add_sub_cancel, hi]
      · exact Pass.verdictAt_ok.mpr ⟨Nat.succ_ne_zero i, d, hd, rfl⟩
      · have hvalid := hall d (List.mem_of_getElem? hd)
        unfold Diagnostic.isValid Verdict.isValid at hvalid
        rw [decide_eq_true_iff] at hvalid
        simp [Verdict.isInvalid, hvalid]

theorem true_line {I : Interpretation.{u}} (hI : I.Admits p.config) (h : r.placeholders = [])
    {n : Nat} {rule : Option RuleId} (hv : Pass.verdictAt r.diagnostics n = .ok (.valid rule)) :
    ∃ w, p.worlds.ofLine p.outline n = .ok w ∧ ∀ a σ, p.outline.sentenceAt? n = some a →
      a ≠ .marker → p.Support r.diagnostics I σ n w → I.holds (σ w) a := by
  obtain ⟨l, hl, -⟩ := f.reached.line_verdict hv
  obtain ⟨-, w, -, -, -, hw⟩ := f.grounded.line_home hl
  refine ⟨w, Check.lift_ok.mp hw, fun a σ ha hne hsup => ?_⟩
  exact f.grounded.true_line f.reached hI (f.no_placeholder h) ⟨_, hv, rfl⟩ a w σ ha hne hw hsup

/-- A proved goal is true at every point where the premises are. -/
theorem true_goal (h : r.provesGoal = some true) :
    ∃ goal, p.outline.goal = some (.sentence goal) ∧ ∀ I : Interpretation.{u}, I.Admits p.config →
      ∀ x, p.outline.PremisesHold r.diagnostics p.outline.size (I.holds x) → I.holds x goal := by
  obtain ⟨hnone, goal, n, l, hgoal, hl, hd, hread, hn⟩ := f.goal_line h
  refine ⟨goal, hgoal, fun I hI x hprem => ?_⟩
  have g := f.grounded
  obtain ⟨home, w, hhome, -, -, hw⟩ := g.line_home hl
  have hactual := g.main_world hl hd hw
  subst hactual
  have ha : p.outline.sentenceAt? n = some goal := by
    rwa [Outline.sentenceAt?_eq hl, Line.sentence?_eq_some]
  have hne := g.main_not_marker f.reached hn hl hd hread
  refine g.true_line f.reached hI (f.no_placeholder hnone) hn goal .actual (fun _ => x) ha hne hw
    ⟨?_, ?_, ?_⟩
  · intro u _ v hv hp
    rw [List.mem_singleton.mp hv] at hp
    cases hp
  · intro m hm k a hk hdk hread' hv
    have hsize := (Outline.hasLine_bounds.mp (Outline.hasLine_iff.mpr ⟨k, hk⟩)).2
    exact hprem m hsize k a hk hdk hread' hv
  · intro s hs v b _ _
    obtain ⟨hk, hmem, has⟩ := (g.nested.over_iff hhome).mp hs
    have h0 := g.nested.main_line hl hd hhome
    rw [(g.nested.main_scope (g.nested.scopeOf_cases hhome).1 h0).1, List.mem_singleton] at hmem
    have hroot := (g.nested.isRoot_iff g.rootless hk).mpr hmem
    unfold Outline.hasAssumption at has
    rw [hroot] at has
    cases has

end Report.From

/-- Soundness of the modal systems. The report exists, and unless some line is a placeholder every
valid line is true in its world wherever the premises and the assumptions over it are. A proved goal
is true at every state where the premises are. -/
theorem kripke_sound {lines : List Line} {goal : Option Goal} {revision : Nat} {o : Outline}
    (hbuild : Outline.build lines goal revision = .ok o) (hopens : ∀ l ∈ lines, l.opens ≠ some .root)
    {config : Config} {system : ModalSystem} (hsystem : config.system = some system) :
    ∃ tree report, WorldTree.ofOutline o = .ok tree ∧ verify o config = .ok report ∧
      (report.placeholders = [] → ∀ M : KripkeModel.{u}, system.Frame M.access → ∀ n rule,
        Pass.verdictAt report.diagnostics n = .ok (.valid rule) →
        ∃ w, tree.ofLine o n = .ok w ∧ ∀ (a : Sentence) (σ : World → M.State),
          o.sentenceAt? n = some a → a ≠ .marker → tree.Follows M.access σ w →
          o.PremisesHold report.diagnostics n (M.Satisfies (σ .actual)) →
          o.AssumptionsHold tree n (fun v => M.Satisfies (σ v)) → M.Satisfies (σ w) a) ∧
      (report.provesGoal = some true → ∃ g, goal = some (.sentence g) ∧
        ∀ M : KripkeModel.{u}, system.Frame M.access → ∀ x,
          o.PremisesHold report.diagnostics o.size (M.Satisfies x) → M.Satisfies x g) := by
  obtain ⟨hnested, rfl, rfl, -⟩ := Outline.build_cases hbuild
  obtain ⟨tree, report, hverify, htree, f⟩ := verify_total hnested hopens config
  have hadmits : ∀ M : KripkeModel.{u}, system.Frame M.access → M.interpretation.Admits config := by
    intro M hM s hs
    rw [hsystem] at hs
    cases hs
    exact ⟨M.interpretation_modal, hM⟩
  refine ⟨tree, report, htree, hverify, ?_, ?_⟩
  · intro hnone M hM n rule hv
    obtain ⟨w, hw, htrue⟩ := f.true_line (hadmits M hM) hnone hv
    exact ⟨w, hw, fun a σ ha hne h1 h2 h3 => htrue a σ ha hne ⟨h1, h2, h3⟩⟩
  · intro hproves
    obtain ⟨g, hg, htrue⟩ := f.true_goal hproves
    exact ⟨g, hg, fun M hM => htrue M.interpretation (hadmits M hM)⟩

/-- What is possible is necessarily possible. -/
def euclideanLines : List Line :=
  createLines [("◇P", "PR", 0, none), ("□", "", 1, some .modal), ("◇P", "R5 1", 1, none),
    ("□◇P", "□I 2-3", 0, none)]

theorem kripke_sound_euclidean : ∃ o report,
    Outline.build euclideanLines (some (.sentence (.nec (.pos (.atom "P"))))) 0 = .ok o ∧
    verify o ⟨some .s5, false⟩ = .ok report ∧ report.provesGoal = some true ∧
    ∀ M : KripkeModel.{0}, ModalSystem.s5.Frame M.access → ∀ x,
      o.PremisesHold report.diagnostics o.size (M.Satisfies x) →
        M.Satisfies x (.nec (.pos (.atom "P"))) := by
  obtain ⟨o, ho, h⟩ := exists_ok
    (x := Outline.build euclideanLines (some (.sentence (.nec (.pos (.atom "P"))))) 0)
    (p := fun o => (verify o ⟨some .s5, false⟩).toOption.any fun r => r.provesGoal = some true)
    (by decide +kernel)
  obtain ⟨report, hreport, hproves⟩ := exists_ok h
  rw [decide_eq_true_iff] at hproves
  have hsystem : (Config.mk (some .s5) false).system = some .s5 := rfl
  obtain ⟨-, report', -, hreport', -, hgoal⟩ := kripke_sound ho (by decide +kernel) hsystem
  rw [hreport] at hreport'
  cases hreport'
  obtain ⟨g, hg, htrue⟩ := hgoal hproves
  cases hg
  exact ⟨o, report, ho, hreport, hproves, htrue⟩

/-- Soundness of truth-functional logic. The report exists, and unless some line is a placeholder
every valid line is true under each Boolean valuation that makes the premises and the assumptions
over it true. Such a valuation is the evaluation of sentences without modal parts, and a proved goal
is a tautological consequence of the premises. -/
theorem boolean_sound {lines : List Line} {goal : Option Goal} {revision : Nat} {o : Outline}
    (hbuild : Outline.build lines goal revision = .ok o) (hopens : ∀ l ∈ lines, l.opens ≠ some .root)
    {config : Config} (hsystem : config.system = none) :
    ∃ report, verify o config = .ok report ∧
      (report.placeholders = [] → ∀ v, Boolean v → ∀ n rule a,
        Pass.verdictAt report.diagnostics n = .ok (.valid rule) → o.sentenceAt? n = some a →
        a ≠ .marker → o.PremisesHold report.diagnostics n (fun b => v b = true) →
        (∀ s, o.Over n s → ∀ b, o.sentenceAt? s.first = some b → v b = true) → v a = true) ∧
      (∀ v, Boolean v → ∀ s : Sentence, s.IsPlain →
        s.evaluate (fun name => some (v (.atom name))) = .ok (v s)) ∧
      (report.provesGoal = some true → ∃ g, goal = some (.sentence g) ∧ ∀ v, Boolean v →
        o.PremisesHold report.diagnostics o.size (fun b => v b = true) → v g = true) := by
  obtain ⟨hnested, rfl, rfl, -⟩ := Outline.build_cases hbuild
  obtain ⟨tree, report, hverify, htree, f⟩ := verify_total hnested hopens config
  refine ⟨report, hverify, ?_, fun v hv s hs => hv.evaluate_eq hs, ?_⟩
  · intro hnone v hv n rule a hvalid ha hne hprem hassume
    obtain ⟨w, -, htrue⟩ := f.true_line (hv.interpretation_admits hsystem) hnone hvalid
    refine htrue a (fun _ => ()) ha hne ⟨fun _ _ _ _ _ => trivial, hprem, ?_⟩
    intro s hs _ b _ hb
    exact hassume s hs b hb
  · intro hproves
    obtain ⟨g, hg, htrue⟩ := f.true_goal hproves
    exact ⟨g, hg, fun v hv hprem =>
      htrue hv.interpretation (hv.interpretation_admits hsystem) () hprem⟩

/-- Excluded middle by indirect proof. -/
def middleLines : List Line :=
  createLines [("¬(P ∨ ¬P)", "AS", 1, some .ordinary), ("P", "AS", 2, some .ordinary),
    ("P ∨ ¬P", "∨I 2", 2, none), ("⊥", "¬E 1, 3", 2, none), ("¬P", "¬I 2-4", 1, none),
    ("P ∨ ¬P", "∨I 5", 1, none), ("⊥", "¬E 1, 6", 1, none), ("P ∨ ¬P", "IP 1-7", 0, none)]

theorem boolean_sound_middle : ∃ o report,
    Outline.build middleLines (some (.sentence (.dis (.atom "P") (.neg (.atom "P"))))) 0 = .ok o ∧
    verify o ⟨none, false⟩ = .ok report ∧ report.provesGoal = some true ∧
    ∀ v, Boolean v → o.PremisesHold report.diagnostics o.size (fun b => v b = true) →
      v (.dis (.atom "P") (.neg (.atom "P"))) = true := by
  obtain ⟨o, ho, h⟩ := exists_ok
    (x := Outline.build middleLines (some (.sentence (.dis (.atom "P") (.neg (.atom "P"))))) 0)
    (p := fun o => (verify o ⟨none, false⟩).toOption.any fun r => r.provesGoal = some true)
    (by decide +kernel)
  obtain ⟨report, hreport, hproves⟩ := exists_ok h
  rw [decide_eq_true_iff] at hproves
  have hsystem : (Config.mk none false).system = none := rfl
  obtain ⟨report', hreport', -, -, hgoal⟩ := boolean_sound ho (by decide +kernel) hsystem
  rw [hreport] at hreport'
  cases hreport'
  obtain ⟨g, hg, htrue⟩ := hgoal hproves
  cases hg
  exact ⟨o, report, ho, hreport, hproves, htrue⟩

end ModalFitch
