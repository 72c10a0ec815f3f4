import ModalFitch.Proofs.Intervals
import ModalFitch.Proofs.Verdicts

/-! Every laid out proof can be checked: no step of a pass asks for something that is not there.

* `Check.Answers`: a step does not stop at something missing.
* `Pass.judge_answers`: the judgement on a line, after the diagnostics of the lines before it.
* `verify_total`: the check of a whole proof gives a report. -/

namespace ModalFitch
set_option autoImplicit false

namespace Check

/-- A step accepts or refuses; it finds all that it presupposes. -/
def Answers {α : Type} (x : Check α) : Prop := ∀ m, x ≠ .error (.missing m)

theorem answers_ok {α : Type} (a : α) : Answers (.ok a) := by
  intro m h
  cases h

theorem answers_refuse {α : Type} (cause : CheckCause) (index : Option Int) :
    Answers (refuse cause index : Check α) := by
  intro m h
  cases h

theorem answers_lift {α : Type} {x : Except Missing α} (h : ∃ a, x = .ok a) : Answers (lift x) := by
  obtain ⟨a, rfl⟩ := h
  exact answers_ok a

theorem Answers.bind {α β : Type} {x : Check α} {f : α → Check β} (hx : Answers x)
    (hf : ∀ a, x = .ok a → Answers (f a)) : Answers (x >>= f) := by
  cases x with
  | ok a => exact hf a rfl
  | error e =>
    intro m h
    cases h
    exact hx m rfl

end Check

namespace Pass

open Check

/-- A pass over a laid out proof, with the worlds of that proof. -/
structure Grounded (p : Pass) : Prop where
  nested : p.outline.Nested
  rootless : p.outline.Rootless
  reflects : p.worlds.Reflects p.outline.scopes

theorem worldOf_ok {p : Pass} {n : Nat} {w : World} :
    p.worldOf n = .ok w ↔ ∃ s, p.outline.scopeOf n = .ok s ∧ p.worlds.ofScope s.id = .ok w := by
  unfold worldOf WorldTree.ofLine
  rw [Check.lift_ok, bind_ok]

namespace Grounded

variable {p : Pass} (g : p.Grounded)
include g

theorem scope_world {s : Scope} (hs : p.outline.HasScope s) :
    ∃ w, p.worlds.ofScope s.id = .ok w ∧ w ∈ p.worlds.worlds := by
  obtain ⟨w, hw, hmem, -⟩ := g.nested.scope_world g.rootless g.reflects hs
  exact ⟨w, hw, hmem⟩

theorem line_home {n : Nat} {l : Line} (hl : p.outline.line? n = some l) :
    ∃ s w, p.outline.scopeOf n = .ok s ∧ p.outline.HasScope s ∧ p.worlds.ofScope s.id = .ok w ∧
      p.worldOf n = .ok w := by
  obtain ⟨s, hs, hk, -⟩ := g.nested.line_scope hl
  obtain ⟨w, hw, -⟩ := g.scope_world hk
  refine ⟨s, w, hs, hk, hw, ?_⟩
  unfold worldOf WorldTree.ofLine
  rw [hs]
  exact Check.lift_ok.mpr hw

theorem world_mem {n : Nat} {w : World} (h : p.worldOf n = .ok w) : w ∈ p.worlds.worlds := by
  obtain ⟨s, hs, hw⟩ := worldOf_ok.mp h
  obtain ⟨w', hw', hmem⟩ := g.scope_world (g.nested.scopeOf_cases hs).1
  rw [hw] at hw'
  cases hw'
  exact hmem

theorem worldOf_answers {n : Nat} {l : Line} (hl : p.outline.line? n = some l) :
    Answers (p.worldOf n) := by
  obtain ⟨-, w, -, -, -, h⟩ := g.line_home hl
  rw [h]
  exact answers_ok w

/-- What a subproof is found under, and where. -/
theorem subproofAt_cases {first last : Nat} {s : Scope} (h : p.outline.subproofAt first last = some s) :
    p.outline.HasScope s ∧ s.id ≠ 0 ∧ s.first = first ∧ s.last = last :=
  (g.nested.subproofAt_iff g.rootless).mp h

/-! ## Citations -/

theorem lineVisible_total {n target : Nat} {l : Line} (hl : p.outline.line? n = some l) :
    ∃ b, p.outline.lineVisible n target = .ok b := by
  unfold Outline.lineVisible
  split
  · rename_i hcond
    rw [Bool.and_eq_true] at hcond
    obtain ⟨l', hl'⟩ := Outline.hasLine_iff.mp hcond.1
    obtain ⟨there, -, ht, -⟩ := g.line_home hl'
    obtain ⟨here, -, hh, -⟩ := g.line_home hl
    rw [ht, hh]
    exact ⟨_, rfl⟩
  · exact ⟨_, rfl⟩

theorem subproofVisible_total {n : Nat} {l : Line} (hl : p.outline.line? n = some l) (s : Scope) :
    ∃ b, p.outline.subproofVisible n s = .ok b := by
  unfold Outline.subproofVisible
  obtain ⟨here, -, hh, -⟩ := g.line_home hl
  split
  · exact ⟨_, rfl⟩
  · simp only [hh, bind, Except.bind]
    split
    · exact ⟨_, rfl⟩
    · split <;> exact ⟨_, rfl⟩

theorem resolveWithin_answers {n : Nat} {l l' : Line} (hl : p.outline.line? n = some l) {target : Nat}
    (hl' : p.outline.line? target = some l') (index : Int) :
    Answers (p.resolveWithin n index target) := by
  unfold resolveWithin
  refine (g.worldOf_answers hl').bind fun there _ => ?_
  refine (g.worldOf_answers hl).bind fun here _ => ?_
  refine (answers_lift (g.lineVisible_total hl)).bind fun visible _ => ?_
  split
  · split
    · exact answers_ok ()
    · exact answers_refuse _ _
  · split <;> exact answers_refuse _ _

theorem resolveAcross_answers {n : Nat} {l l' : Line} (hl : p.outline.line? n = some l) {target : Nat}
    (hl' : p.outline.line? target = some l') (index : Int) :
    Answers (p.resolveAcross n index target) := by
  obtain ⟨home, -, hhome, -⟩ := g.line_home hl
  obtain ⟨there, -, hthere, -⟩ := g.line_home hl'
  have hhyp : ∃ hs, p.outline.hypothesesOver target = .ok hs := by
    unfold Outline.hypothesesOver
    rw [hthere]
    exact ⟨_, rfl⟩
  unfold resolveAcross
  refine (answers_lift ⟨home, hhome⟩).bind fun _ _ => ?_
  refine (answers_lift hhyp).bind fun hs _ => ?_
  split
  · exact answers_refuse _ _
  · split
    · exact answers_refuse _ _
    · refine (g.worldOf_answers hl).bind fun here _ => ?_
      refine (g.worldOf_answers hl').bind fun there _ => ?_
      split
      · exact answers_ok ()
      · split <;> exact answers_refuse _ _

theorem resolveSubproof_answers {n : Nat} {l : Line} (hl : p.outline.line? n = some l) (index : Int)
    (c : Citation) : Answers (p.resolveSubproof n index c) := by
  unfold resolveSubproof
  split
  · exact answers_refuse _ _
  · rename_i s hs
    obtain ⟨stop, -, hat⟩ := Option.bind_eq_some_iff.mp hs
    obtain ⟨hk, h0, -, -⟩ := g.subproofAt_cases hat
    obtain ⟨around, -, hka, -, -, hpar, -, -, -⟩ := g.nested.subproof hk h0
    obtain ⟨w, hw, -⟩ := g.scope_world hka
    rw [if_pos (Int.natCast_nonneg n), Int.toNat_natCast]
    refine (answers_lift (g.subproofVisible_total hl s)).bind fun visible _ => ?_
    dsimp only
    split
    · refine (answers_lift ⟨w, by rw [hpar]; exact hw⟩).bind fun _ _ => ?_
      refine (g.worldOf_answers hl).bind fun _ _ => ?_
      split
      · exact answers_lift (g.nested.summary_total hk h0)
      · exact answers_refuse _ _
    · exact answers_refuse _ _

theorem resolve_answers {n : Nat} {l : Line} (hl : p.outline.line? n = some l) (transfer : Transfer)
    (index : Int) (c : Citation) : Answers (p.resolve n transfer index c) := by
  unfold resolve
  split
  · exact (g.resolveSubproof_answers hl index c).bind fun _ _ => answers_ok _
  · simp only
    split
    · exact answers_refuse _ _
    · rename_i hline
      rw [Bool.not_eq_true', Bool.not_eq_false] at hline
      obtain ⟨l', hl'⟩ := Outline.hasLine_iff.mp hline
      have hrest : Answers (lift (p.outline.line c.start) >>= fun l =>
          (return l.sentence?.map .sentence : Check (Option Material))) :=
        (answers_lift ⟨l', Outline.line_ok.mpr hl'⟩).bind fun _ _ => answers_ok _
      split
      · exact answers_refuse _ _
      · cases transfer with
        | within => exact (g.resolveWithin_answers hl hl' index).bind fun _ _ => hrest
        | across => exact (g.resolveAcross_answers hl hl' index).bind fun _ _ => hrest

theorem resolveAll_answers {n : Nat} {l : Line} (hl : p.outline.line? n = some l) (transfer : Transfer)
    (index : Int) (cs : List Citation) : Answers (p.resolveAll n transfer index cs) := by
  induction cs generalizing index with
  | nil => exact answers_ok _
  | cons c cs ih =>
    rw [resolveAll]
    exact (g.resolve_answers hl transfer index c).bind fun _ _ =>
      (ih (index + 1)).bind fun _ _ => answers_ok _

/-- A citation that leads somewhere reaches earlier lines only. -/
theorem resolved_before {n : Nat} {transfer : Transfer} {c : Citation} {m : Option Material}
    (h : p.Resolved n transfer c m) : 1 ≤ c.start ∧ c.start ≤ c.last ∧ c.last < n := by
  cases h with
  | @subproof _ _ stop s w m hstop hat hvis _ _ _ =>
    obtain ⟨hk, h0, hfirst, hlast⟩ := g.subproofAt_cases hat
    obtain ⟨_, l, -, -, -, -, hl, -, hfs⟩ := g.nested.subproof hk h0
    obtain ⟨-, hle⟩ := g.nested.range hfs hk (g.nested.self_mem hk)
    have hpos := (Outline.line?_eq_some.mp hl).1
    have hclosed := (Outline.subproofVisible_cases hvis).1
    have elast : c.last = stop := by rw [Citation.last, hstop, Option.getD_some]
    omega
  | within hstop hl hlt _ _ _ | across hstop hl hlt _ _ _ _ _ _ _ =>
    have elast : c.last = c.start := by rw [Citation.last, hstop, Option.getD_none]
    have hpos := (Outline.line?_eq_some.mp hl).1
    omega

/-! ## Dependencies -/

omit g in
theorem firstInvalid_total {done : List Diagnostic} {count n : Nat} (hn : 1 ≤ n)
    (hlast : n + count ≤ done.length + 1) : ∃ r, firstInvalid done count n = .ok r := by
  induction count generalizing n with
  | zero => exact ⟨none, rfl⟩
  | succ count ih =>
    obtain ⟨v, hv⟩ := (verdictAt_total (by omega) (by omega) : ∃ v, verdictAt done n = .ok v)
    rw [firstInvalid, hv]
    simp only [bind, Except.bind]
    split
    · exact ⟨_, rfl⟩
    · exact ih (by omega) (by omega)

omit g in
theorem checkDependencies_answers {done : List Diagnostic} {index : Int} {cs : List Citation}
    (hcs : ∀ c ∈ cs, 1 ≤ c.start ∧ c.start ≤ c.last ∧ c.last ≤ done.length) :
    Answers (checkDependencies done index cs) := by
  induction cs generalizing index with
  | nil => exact answers_ok ()
  | cons c cs ih =>
    obtain ⟨hpos, hle, hlast⟩ := hcs c List.mem_cons_self
    rw [checkDependencies]
    have hfirst : ∃ r, firstInvalid done (c.last + 1 - c.start) c.start = .ok r :=
      firstInvalid_total hpos (by omega)
    refine (answers_lift hfirst).bind fun found _ => ?_
    split
    · exact answers_refuse _ _
    · exact ih fun d hd => hcs d (List.mem_cons_of_mem c hd)

omit g in
/-- A line that can be cited without a fault has a sentence. -/
theorem resolved_present {done : List Diagnostic} (hdone : p.Reached done) {n : Nat}
    {transfer : Transfer} {c : Citation} {m : Option Material} (h : p.Resolved n transfer c m)
    (hs : Sustained done c.start) : ∃ material, m = some material := by
  have hread : ∀ {l}, p.outline.line? c.start = some l →
      ∃ material, l.sentence?.map Material.sentence = some material := by
    intro l hl
    obtain ⟨l', found, hl', -, hacc⟩ := hdone.sustained hs
    rw [hl] at hl'
    cases hl'
    obtain ⟨s, hread⟩ := hacc.reading
    exact ⟨.sentence s, by simp [Line.sentence?, hread, Except.toOption]⟩
  cases h with
  | subproof => exact ⟨_, rfl⟩
  | within _ hl => exact hread hl
  | across _ hl => exact hread hl

omit g in
theorem materials_present {done : List Diagnostic} (hdone : p.Reached done) {n : Nat}
    {transfer : Transfer} {cs : List Citation} {ms : List (Option Material)}
    (h : List.Forall₂ (p.Resolved n transfer) cs ms) (hs : ∀ c ∈ cs, Sustained done c.start) :
    ∃ materials, ms = List.map some materials := by
  induction h with
  | nil => exact ⟨[], rfl⟩
  | @cons c m cs ms hc _ ih =>
    obtain ⟨material, rfl⟩ := resolved_present hdone hc (hs c List.mem_cons_self)
    obtain ⟨rest, rfl⟩ := ih fun d hd => hs d (List.mem_cons_of_mem c hd)
    exact ⟨material :: rest, rfl⟩

/-! ## World closure -/

omit g in
theorem firstLeak_total {s : Scope} {count n : Nat} (hn : 1 ≤ n)
    (hlast : n + count ≤ p.outline.size + 1) : ∃ r, p.firstLeak s count n = .ok r := by
  induction count generalizing n with
  | zero => exact ⟨none, rfl⟩
  | succ count ih =>
    have hhas : p.outline.hasLine n = true := Outline.hasLine_bounds.mpr ⟨hn, by omega⟩
    obtain ⟨l, hl⟩ := Outline.hasLine_iff.mp hhas
    rw [firstLeak, Outline.line_ok.mpr hl]
    simp only [bind, Except.bind]
    split
    · exact ⟨_, rfl⟩
    · exact ih (by omega) (by omega)

theorem checkClosure_answers {index : Int} {cs : List Citation} : Answers (p.checkClosure index cs) := by
  induction cs generalizing index with
  | nil => exact answers_ok ()
  | cons c cs ih =>
    rw [checkClosure]
    split
    · exact ih
    · rename_i s hs
      obtain ⟨hbind, -⟩ := Option.filter_eq_some_iff.mp hs
      obtain ⟨stop, -, hat⟩ := Option.bind_eq_some_iff.mp hbind
      obtain ⟨hk, -, -, -⟩ := g.subproofAt_cases hat
      have hlast := g.nested.last_le hk
      have hleak : ∃ r, p.firstLeak s (s.last - s.first) (s.first + 1) = .ok r := by
        by_cases hle : s.first ≤ s.last
        · exact firstLeak_total (by omega) (by omega)
        · have hz : s.last - s.first = 0 := by omega
          exact ⟨none, by rw [hz, firstLeak]⟩
      refine (answers_lift hleak).bind fun found _ => ?_
      split
      · exact answers_refuse _ _
      · exact ih

/-! ## Lines -/

theorem applyDefinition_answers {done : List Diagnostic} (hdone : p.Reached done) {n : Nat} {l : Line}
    (hl : p.outline.line? n = some l) (hn : n = done.length + 1) (sentence : Sentence)
    (cs : List Citation) (d : RuleDefinition) :
    Answers (p.applyDefinition done n sentence cs d) := by
  unfold applyDefinition
  refine (g.resolveAll_answers hl d.transfer 0 cs).bind fun ms hms => ?_
  have hres := resolveAll_iff.mp hms
  have hbefore : ∀ c ∈ cs, 1 ≤ c.start ∧ c.start ≤ c.last ∧ c.last ≤ done.length := by
    intro c hc
    obtain ⟨m, -, hm⟩ := forall₂_exists_left hres.flip hc
    obtain ⟨hpos, hle, hlast⟩ := g.resolved_before hm
    omega
  refine (checkDependencies_answers hbefore).bind fun _ hdep => ?_
  have hsus : ∀ c ∈ cs, Sustained done c.start := by
    intro c hc
    exact checkDependencies_iff.mp hdep c hc c.start (Nat.le_refl _) (hbefore c hc).2.1
  obtain ⟨materials, rfl⟩ := materials_present hdone hres hsus
  rw [(present_iff hres.length_eq).mpr rfl]
  have happly : ∀ ms, Answers ((d.apply ms sentence).mapError CheckFailure.refused) := by
    intro ms
    cases d.apply ms sentence with
    | ok b => exact answers_ok b
    | error e =>
      intro m h
      cases h
  refine (answers_ok materials).bind fun ms _ => (happly ms).bind fun _ _ => ?_
  split
  · exact g.checkClosure_answers
  · exact answers_ok ()

theorem applyFirst_answers {done : List Diagnostic} (hdone : p.Reached done) {n : Nat} {l : Line}
    (hl : p.outline.line? n = some l) (hn : n = done.length + 1) (sentence : Sentence)
    (cs : List Citation) (reason : CheckError) (ds : List RuleDefinition) :
    Answers (p.applyFirst done n sentence cs reason ds) := by
  induction ds with
  | nil =>
    intro m h
    cases h
  | cons d ds ih =>
    rw [applyFirst]
    split
    · exact answers_ok _
    · exact ih
    · rename_i m hm
      exact absurd hm (g.applyDefinition_answers hdone hl hn sentence cs d m)

theorem judgeDefinitions_answers {done : List Diagnostic} (hdone : p.Reached done) {n : Nat}
    {l : Line} (hl : p.outline.line? n = some l) (hn : n = done.length + 1) (sentence : Sentence)
    (j : Justification) (rule : RuleId) :
    Answers (p.judgeDefinitions done n sentence j rule) := by
  unfold judgeDefinitions
  split
  · exact answers_refuse _ _
  · rename_i d ds _
    split
    · exact answers_ok _
    · exact g.applyFirst_answers hdone hl hn sentence j.citations _ ds
    · rename_i m hm
      exact absurd hm (g.applyDefinition_answers hdone hl hn sentence j.citations d m)

omit g in
theorem judgeMarker_answers (l : Line) : Answers (judgeMarker l) := by
  unfold judgeMarker
  split
  · exact answers_refuse _ _
  · split
    · exact answers_ok _
    · exact answers_refuse _ _
    · split
      · exact answers_refuse _ _
      · split
        · exact answers_refuse _ _
        · exact answers_ok _

omit g in
theorem judgePremise_answers (n : Nat) (l : Line) : Answers (p.judgePremise n l) := by
  unfold judgePremise
  split
  · exact answers_refuse _ _
  · split
    · exact answers_ok _
    · split
      · exact answers_refuse _ _
      · split
        · exact answers_ok _
        · exact answers_refuse _ _

theorem judgeRule_answers {done : List Diagnostic} (hdone : p.Reached done) {n : Nat} {l : Line}
    (hl : p.outline.line? n = some l) (hn : n = done.length + 1) (sentence : Sentence)
    (j : Justification) : Answers (p.judgeRule done n l sentence j) := by
  unfold judgeRule
  split
  · exact answers_refuse _ _
  · exact judgePremise_answers n l
  · split
    · exact answers_refuse _ _
    · split
      · exact answers_ok _
      · exact g.judgeDefinitions_answers hdone hl hn sentence j _

theorem judge_answers {done : List Diagnostic} (hdone : p.Reached done) {n : Nat} {l : Line}
    (hl : p.outline.line? n = some l) (hn : n = done.length + 1) : Answers (p.judge done n l) := by
  unfold judge
  split
  · exact answers_refuse _ _
  · exact judgeMarker_answers l
  · split
    · split
      · exact answers_ok _
      · exact answers_refuse _ _
    · exact answers_refuse _ _
    · exact g.judgeRule_answers hdone hl hn _ _

theorem verdict_total {done : List Diagnostic} (hdone : p.Reached done) {n : Nat} {l : Line}
    (hl : p.outline.line? n = some l) (hn : n = done.length + 1) :
    ∃ v, p.verdict done n l = .ok v := by
  unfold verdict
  split
  · exact ⟨_, rfl⟩
  · exact ⟨_, rfl⟩
  · rename_i m hm
    exact absurd hm (g.judge_answers hdone hl hn m)

/-! ## All lines -/

theorem continueWith_total {done : List Diagnostic} (hdone : p.Reached done) {rest : List Line}
    (hrest : p.outline.lines.drop done.length = rest) : ∃ ds, p.continueWith done rest = .ok ds := by
  induction rest generalizing done with
  | nil => exact ⟨done, rfl⟩
  | cons l rest ih =>
    have hl : p.outline.lines[done.length]? = some l := by
      rw [← List.head?_drop, hrest, List.head?_cons]
    have hline : p.outline.line? (done.length + 1) = some l := by
      rw [Outline.line?, if_neg (Nat.succ_ne_zero _), Nat.add_sub_cancel, hl]
    obtain ⟨v, hv⟩ := g.verdict_total hdone hline rfl
    rw [continueWith, hv]
    refine ih (hdone.concat hl hv) ?_
    rw [List.length_append, List.length_singleton, ← List.drop_drop, hrest]
    rfl

theorem run_total : ∃ ds, p.run = .ok ds := g.continueWith_total p.reached_nil rfl

end Grounded

end Pass

theorem Report.byLine_ok {r : Report} {n : Int} {d : Diagnostic} :
    r.byLine n = .ok d ↔ 1 ≤ n ∧ r.diagnostics[n.toNat - 1]? = some d := by
  unfold Report.byLine
  by_cases hn : 1 ≤ n
  · rw [if_pos hn]
    cases r.diagnostics[n.toNat - 1]? with
    | none => simp
    | some d' => simp [hn]
  · rw [if_neg hn]
    simp [hn]

/-- A report with the pass that it comes from. -/
structure Report.From (r : Report) (p : Pass) : Prop where
  grounded : p.Grounded
  reached : p.Reached r.diagnostics
  complete : r.diagnostics.length = p.outline.size
  reaches : r.reachesGoal =
    p.outline.goal.map fun g => r.diagnostics.all Diagnostic.isValid && p.outline.statesGoal g
  pending : r.placeholders =
    (r.diagnostics.filter fun d => d.verdict = .valid (some .placeholder)).map Diagnostic.number

theorem Pass.start_ok {o : Outline} {tree : WorldTree} (h : WorldTree.ofOutline o = .ok tree)
    (config : Config) : Pass.start o config = .ok ⟨o, config, tree⟩ := by
  unfold Pass.start
  rw [h]
  rfl

/-- The check of a laid out proof gives a report. -/
theorem verify_total {o : Outline} (h : o.Nested) (hr : o.Rootless) (config : Config) :
    ∃ tree report, verify o config = .ok report ∧ WorldTree.ofOutline o = .ok tree ∧
      report.From ⟨o, config, tree⟩ := by
  obtain ⟨tree, htree, r⟩ := h.worldTree hr
  have g : (Pass.mk o config tree).Grounded := ⟨h, hr, r⟩
  obtain ⟨ds, hds⟩ := g.run_total
  obtain ⟨hreached, hlen⟩ := Pass.run_reached hds
  refine ⟨tree, ⟨ds, config, o.revision, o.goal,
    o.goal.map fun g => ds.all Diagnostic.isValid && o.statesGoal g,
    (ds.filter fun d => d.verdict = .valid (some .placeholder)).map Diagnostic.number⟩, ?_, htree,
    ⟨g, hreached, hlen, rfl, rfl⟩⟩
  unfold verify
  rw [Pass.start_ok htree config]
  simp only [bind, Except.bind, hds]
  rfl

end ModalFitch
