import ModalFitch.Outline.Citing
import ModalFitch.Proofs.Totality

/-! What the verdict on a line depends on: the line, the lines that it cites with their verdicts, the
layout, which subproofs the lone box opens, and for a premise of the main proof the labels before
it.

* `Outline.build_shape`: the layout depends only on the depths and the openings of the lines.
* `Outline.Alike`: two outlines with one layout, whose subproofs are opened by the lone box alike.
* `Pass.verdict_eq`: in two such outlines the verdicts on a line are the same if those on the lines
  that it cites are. -/

namespace ModalFitch
set_option autoImplicit false

/-- A premise of the main proof: it is labelled so, cites nothing and opens nothing. -/
structure Line.IsMainPremise (l : Line) : Prop where
  depth : l.depth = 0
  opens : l.opens = none
  citations : l.citations = []
  reading : ∃ s, l.reading = .ok s ∧ s ≠ .marker
  label : ∃ j, l.justification = .ok j ∧ RuleId.lookup j.rule = some .premise

/-! ## Layout -/

namespace Line

/-- The line without its texts. -/
def bare (l : Line) : Line :=
  { l with
    sentenceText := [], justificationText := [], reading := .ok .bottom,
    justification := .error .missingRule }

end Line

theorem Layout.step_bare (p : Layout) (number : Nat) (l : Line) :
    p.step number l.bare = p.step number l := rfl

theorem Layout.chains_bare (p : Layout) (number : Nat) (lines : List Line) :
    p.chains number (lines.map Line.bare) = p.chains number lines := by
  induction lines generalizing p number with
  | nil => rfl
  | cons l rest ih =>
    rw [List.map_cons, chains, chains, step_bare]
    simp only [ih]

namespace Placed

/-- The placed line without its texts. -/
def bare (p : Placed) : Placed := { p with line := p.line.bare }

theorem lastIn_bare (scope : Nat) (ps : List Placed) : lastIn scope (ps.map bare) = lastIn scope ps := by
  unfold lastIn
  rw [List.foldl_map]
  rfl

theorem itemsIn_bare (scope : Nat) (ps : List Placed) :
    (ps.map bare).flatMap (·.itemsIn scope) = ps.flatMap (·.itemsIn scope) := by
  rw [List.flatMap_map]
  rfl

theorem opened_bare (ps : List Placed) (p : Placed) : opened (ps.map bare) p.bare = opened ps p := by
  unfold opened
  simp only [lastIn_bare, itemsIn_bare]
  rfl

theorem scopesOf_bare (ps : List Placed) : scopesOf (ps.map bare) = scopesOf ps := by
  unfold scopesOf
  rw [lastIn_bare, itemsIn_bare, List.filterMap_map]
  congr 1
  exact List.filterMap_congr fun p _ => opened_bare ps p

end Placed

namespace Outline

theorem placed_bare (lines : List Line) (chains : List (List Nat)) :
    placed (lines.map Line.bare) chains = (placed lines chains).map Placed.bare := by
  apply List.ext_getElem?
  intro i
  unfold placed
  rw [List.getElem?_map, List.getElem?_mapIdx, List.getElem?_mapIdx, List.zip_map_left,
    List.getElem?_map, Option.map_map, Option.map_map]
  rfl

/-- Lines with the same depths and openings have the same scopes. -/
theorem build_shape {lines lines' : List Line} (hbare : lines'.map Line.bare = lines.map Line.bare)
    {goal goal' : Option Goal} {revision revision' : Nat} {o o' : Outline}
    (h : build lines goal revision = .ok o) (h' : build lines' goal' revision' = .ok o') :
    o'.scopes = o.scopes ∧ o'.homes = o.homes := by
  obtain ⟨cs, hcs, h⟩ := bind_ok.mp h
  obtain ⟨cs', hcs', h'⟩ := bind_ok.mp h'
  cases h
  cases h'
  rw [← Layout.chains_bare, hbare, Layout.chains_bare, hcs] at hcs'
  cases hcs'
  refine ⟨?_, rfl⟩
  show scopesOf _ = scopesOf _
  rw [← Placed.scopesOf_bare, ← placed_bare, hbare, placed_bare, Placed.scopesOf_bare]

/-! ## Visibility -/

/-- Two outlines with one layout, whose subproofs are opened by the lone box alike. -/
structure Alike (o o' : Outline) : Prop where
  scopes : o'.scopes = o.scopes
  homes : o'.homes = o.homes
  size : o'.size = o.size
  markers : ∀ s ∈ o.scopes, s.isRoot = false → o'.isMarkerAt s.first = o.isMarkerAt s.first

namespace Alike

variable {o o' : Outline} (a : o.Alike o')
include a

theorem hasLine_eq (n : Nat) : o'.hasLine n = o.hasLine n := by
  unfold hasLine
  rw [a.size]

theorem scopeOf_eq (n : Nat) : o'.scopeOf n = o.scopeOf n := by
  unfold scopeOf scope
  rw [a.homes, a.scopes]

theorem lineVisible_eq (citing target : Nat) :
    o'.lineVisible citing target = o.lineVisible citing target := by
  unfold lineVisible
  rw [a.hasLine_eq, a.scopeOf_eq, a.scopeOf_eq]

theorem subproofAt_eq (first last : Nat) : o'.subproofAt first last = o.subproofAt first last := by
  unfold subproofAt subproofs
  rw [a.scopes]

theorem subproofOf_eq (c : Citation) :
    c.stop.bind (o'.subproofAt c.start) = c.stop.bind (o.subproofAt c.start) := by
  cases c.stop with
  | none => rfl
  | some stop => exact a.subproofAt_eq c.start stop

theorem subproofVisible_eq (citing : Nat) (s : Scope) :
    o'.subproofVisible citing s = o.subproofVisible citing s := by
  unfold subproofVisible parent?
  rw [a.scopeOf_eq, a.scopes]

theorem hypothesesOver_eq (n : Nat) : o'.hypothesesOver n = o.hypothesesOver n := by
  have hassume : ∀ s ∈ o.scopes, o'.hasAssumption s = o.hasAssumption s := by
    intro s hs
    unfold hasAssumption
    cases hroot : s.isRoot with
    | true => rfl
    | false => rw [a.markers s hs hroot]
  have hfilter : ∀ here, (o'.ancestors here).filter o'.hasAssumption =
      (o.ancestors here).filter o.hasAssumption := by
    intro here
    unfold ancestors
    rw [a.scopes]
    refine List.filter_congr fun s hs => hassume s ?_
    obtain ⟨k, -, hk⟩ := List.mem_filterMap.mp hs
    exact List.mem_of_getElem? hk
  unfold hypothesesOver
  rw [a.scopeOf_eq]
  simp only [hfilter]

omit a in
/-- The summary of a subproof reads only lines inside it. -/
theorem summary_eq (h : o.Nested) {s : Scope} (hs : o.HasScope s)
    (hlines : ∀ k, s.first ≤ k → k ≤ s.last → o'.line? k = o.line? k) (hle : s.first ≤ s.last) :
    o'.summary s = o.summary s := by
  have hopener : o'.line s.first = o.line s.first := by
    unfold line
    rw [hlines s.first (Nat.le_refl _) hle]
  have hitem : ∀ k, .line k ∈ s.items → o'.sentenceAt? k = o.sentenceAt? k := by
    intro k hk
    obtain ⟨h1, h2⟩ := h.range (h.line_item hs hk) hs (h.self_mem hs)
    unfold sentenceAt?
    rw [hlines k h1 h2]
  unfold summary
  rw [hopener]
  cases hlast : s.items.getLast? with
  | none => rfl
  | some item =>
    cases item with
    | scope id => rfl
    | line k => simp only [hitem k (List.mem_of_getLast? hlast)]

end Alike

end Outline

/-! ## Citations -/

namespace Pass

/-- The lines that a citation reaches are the same in two outlines. -/
def SameCited (o o' : Outline) (c : Citation) : Prop :=
  ∀ k, c.start ≤ k → k ≤ c.last → o'.line? k = o.line? k

/-- The line with a number is justified alike in two outlines, or is in neither. -/
def SameLabel (o o' : Outline) (k : Nat) : Prop :=
  (o'.line? k).map Line.justification = (o.line? k).map Line.justification

section Alike

variable {o o' : Outline} {config : Config} {t : WorldTree} (a : o.Alike o')
include a

theorem worldOf_eq (n : Nat) : (Pass.mk o' config t).worldOf n = (Pass.mk o config t).worldOf n := by
  unfold worldOf WorldTree.ofLine
  rw [a.scopeOf_eq]

theorem resolveWithin_eq (number : Nat) (index : Int) (target : Nat) :
    (Pass.mk o' config t).resolveWithin number index target =
      (Pass.mk o config t).resolveWithin number index target := by
  unfold resolveWithin
  simp only [worldOf_eq a, a.lineVisible_eq]

theorem resolveAcross_eq (number : Nat) (index : Int) (target : Nat) :
    (Pass.mk o' config t).resolveAcross number index target =
      (Pass.mk o config t).resolveAcross number index target := by
  unfold resolveAcross
  simp only [worldOf_eq a, a.scopeOf_eq, a.hypothesesOver_eq]

theorem resolveSubproof_eq (g : (Pass.mk o config t).Grounded) {c : Citation}
    (hc : SameCited o o' c) (number index : Int) :
    (Pass.mk o' config t).resolveSubproof number index c =
      (Pass.mk o config t).resolveSubproof number index c := by
  unfold resolveSubproof
  simp only [worldOf_eq a, a.subproofVisible_eq]
  rw [a.subproofOf_eq]
  cases hs : c.stop.bind (o.subproofAt c.start) with
  | none => rfl
  | some s =>
    obtain ⟨stop, hstop, hfound⟩ := Option.bind_eq_some_iff.mp hs
    obtain ⟨hk, h0, hfirst, hlast⟩ := g.subproofAt_cases hfound
    obtain ⟨_, _, -, -, -, -, -, -, hscope⟩ := g.nested.subproof hk h0
    have hle := (g.nested.range hscope hk (g.nested.self_mem hk)).2
    have estop : c.last = stop := by rw [Citation.last, hstop, Option.getD_some]
    have hsum : o'.summary s = o.summary s :=
      Outline.Alike.summary_eq g.nested hk (fun k h1 h2 => hc k (by omega) (by omega)) hle
    simp only [hsum]

theorem resolve_eq (g : (Pass.mk o config t).Grounded) {c : Citation} (hc : SameCited o o' c)
    (number : Nat) (transfer : Transfer) (index : Int) :
    (Pass.mk o' config t).resolve number transfer index c =
      (Pass.mk o config t).resolve number transfer index c := by
  unfold resolve
  cases hstop : c.stop with
  | some stop =>
    have hrange : c.isRange = true := by simp [Citation.isRange, hstop]
    simp only [hrange, if_true, resolveSubproof_eq a g hc]
  | none =>
    have hrange : c.isRange = false := by simp [Citation.isRange, hstop]
    have hlast : c.start ≤ c.last := by simp [Citation.last, hstop]
    have hline : o'.line c.start = o.line c.start := by
      unfold Outline.line
      rw [hc c.start (Nat.le_refl _) hlast]
    simp only [hrange, Bool.false_eq_true, if_false, a.hasLine_eq, resolveWithin_eq a,
      resolveAcross_eq a, hline]

theorem resolveAll_eq (g : (Pass.mk o config t).Grounded) {cs : List Citation}
    (hcs : ∀ c ∈ cs, SameCited o o' c) (number : Nat) (transfer : Transfer) (index : Int) :
    (Pass.mk o' config t).resolveAll number transfer index cs =
      (Pass.mk o config t).resolveAll number transfer index cs := by
  induction cs generalizing index with
  | nil => rfl
  | cons c cs ih =>
    have hrest := ih fun d hd => hcs d (List.mem_cons_of_mem c hd)
    rw [resolveAll, resolveAll, resolve_eq a g (hcs c List.mem_cons_self)]
    simp only [hrest]

omit a in
theorem firstInvalid_eq {done done' : List Diagnostic} {count n : Nat}
    (h : ∀ k, n ≤ k → k < n + count →
      (verdictAt done' k).map Verdict.isInvalid = (verdictAt done k).map Verdict.isInvalid) :
    firstInvalid done' count n = firstInvalid done count n := by
  induction count generalizing n with
  | zero => rfl
  | succ count ih =>
    -- one step looks only at whether the verdict is invalid
    have hstep : ∀ ds, firstInvalid ds (count + 1) n =
        (verdictAt ds n).map Verdict.isInvalid >>= fun invalid =>
          if invalid then return some n else firstInvalid ds count (n + 1) := by
      intro ds
      rw [firstInvalid]
      cases verdictAt ds n <;> rfl
    rw [hstep, hstep, h n (Nat.le_refl _) (by omega), ih fun k h1 h2 => h k (by omega) (by omega)]

omit a in
theorem checkDependencies_eq {done done' : List Diagnostic} {cs : List Citation}
    (h : ∀ c ∈ cs, ∀ k, c.start ≤ k → k ≤ c.last →
      (verdictAt done' k).map Verdict.isInvalid = (verdictAt done k).map Verdict.isInvalid)
    (index : Int) : checkDependencies done' index cs = checkDependencies done index cs := by
  induction cs generalizing index with
  | nil => rfl
  | cons c cs ih =>
    have hrest := ih fun d hd => h d (List.mem_cons_of_mem c hd)
    have hfirst : firstInvalid done' (c.last + 1 - c.start) c.start =
        firstInvalid done (c.last + 1 - c.start) c.start :=
      firstInvalid_eq fun k h1 h2 => h c List.mem_cons_self k h1 (by omega)
    rw [checkDependencies, checkDependencies, hfirst]
    simp only [hrest]

omit a in
theorem firstLeak_eq {s : Scope} {count n : Nat}
    (h : ∀ k, n ≤ k → k < n + count → SameLabel o o' k) :
    (Pass.mk o' config t).firstLeak s count n = (Pass.mk o config t).firstLeak s count n := by
  induction count generalizing n with
  | zero => rfl
  | succ count ih =>
    have hn : (o'.line? n).map Line.justification = (o.line? n).map Line.justification :=
      h n (Nat.le_refl _) (by omega)
    rw [firstLeak, firstLeak, ih fun k h1 h2 => h k (by omega) (by omega)]
    unfold Outline.line
    cases hl : o.line? n with
    | none =>
      rw [hl, Option.map_none, Option.map_eq_none_iff] at hn
      simp only [hn]
      rfl
    | some l =>
      rw [hl, Option.map_some] at hn
      obtain ⟨l', hl', hj⟩ := Option.map_eq_some_iff.mp hn
      have hlabel : l'.ruleLabel? = l.ruleLabel? := by rw [Line.ruleLabel?, hj, Line.ruleLabel?]
      have hcites : l'.citations = l.citations := by rw [Line.citations, hj, Line.citations]
      simp only [hl', bind, Except.bind, hlabel, hcites]
      rfl

theorem checkClosure_eq (g : (Pass.mk o config t).Grounded) {cs : List Citation}
    (hcs : ∀ c ∈ cs, ∀ k, c.start ≤ k → k ≤ c.last → SameLabel o o' k) (index : Int) :
    (Pass.mk o' config t).checkClosure index cs = (Pass.mk o config t).checkClosure index cs := by
  induction cs generalizing index with
  | nil => rfl
  | cons c cs ih =>
    have hrest := ih fun d hd => hcs d (List.mem_cons_of_mem c hd)
    rw [checkClosure, checkClosure]
    simp only [hrest, a.subproofOf_eq]
    cases hs : (c.stop.bind (o.subproofAt c.start)).filter fun s => s.kind = .modal with
    | none => rfl
    | some s =>
      obtain ⟨hbind, -⟩ := Option.filter_eq_some_iff.mp hs
      obtain ⟨stop, hstop, hfound⟩ := Option.bind_eq_some_iff.mp hbind
      obtain ⟨-, -, hfirst, hlast⟩ := g.subproofAt_cases hfound
      have estop : c.last = stop := by rw [Citation.last, hstop, Option.getD_some]
      have hleak : (Pass.mk o' config t).firstLeak s (s.last - s.first) (s.first + 1) =
          (Pass.mk o config t).firstLeak s (s.last - s.first) (s.first + 1) :=
        firstLeak_eq fun k h1 h2 => hcs c List.mem_cons_self k (by omega) (by omega)
      simp only [hleak]

/-! ## Lines -/

theorem applyDefinition_eq (g : (Pass.mk o config t).Grounded) {done done' : List Diagnostic}
    {cs : List Citation} (hcs : ∀ c ∈ cs, SameCited o o' c)
    (hdone : ∀ c ∈ cs, ∀ k, c.start ≤ k → k ≤ c.last → verdictAt done' k = verdictAt done k)
    (number : Nat) (sentence : Sentence) (d : RuleDefinition) :
    (Pass.mk o' config t).applyDefinition done' number sentence cs d =
      (Pass.mk o config t).applyDefinition done number sentence cs d := by
  have hinvalid := checkDependencies_eq fun c hc k h1 h2 =>
    congrArg (Except.map Verdict.isInvalid) (hdone c hc k h1 h2)
  have hclosure := checkClosure_eq a g fun c hc k h1 h2 =>
    congrArg (Option.map Line.justification) (hcs c hc k h1 h2)
  unfold applyDefinition
  simp only [resolveAll_eq a g hcs, hinvalid, hclosure]

theorem judgeDefinitions_eq (g : (Pass.mk o config t).Grounded) {done done' : List Diagnostic}
    {j : Justification} (hcs : ∀ c ∈ j.citations, SameCited o o' c)
    (hdone : ∀ c ∈ j.citations, ∀ k, c.start ≤ k → k ≤ c.last →
      verdictAt done' k = verdictAt done k) (number : Nat) (sentence : Sentence) (rule : RuleId) :
    (Pass.mk o' config t).judgeDefinitions done' number sentence j rule =
      (Pass.mk o config t).judgeDefinitions done number sentence j rule := by
  have happly := applyDefinition_eq a g hcs hdone number sentence
  have hfirst : ∀ reason ds, (Pass.mk o' config t).applyFirst done' number sentence j.citations
      reason ds = (Pass.mk o config t).applyFirst done number sentence j.citations reason ds := by
    intro reason ds
    induction ds with
    | nil => rfl
    | cons d ds ih => rw [applyFirst, applyFirst, happly, ih]
  unfold judgeDefinitions
  simp only [happly, hfirst]

omit a in
/-- The labels before a premise matter only in the main proof. -/
theorem judgePremise_eq {number : Nat} {l : Line}
    (hprem : l.citations = [] → l.opens = none → l.depth = 0 →
      onlyPremises o' (number - 1) = onlyPremises o (number - 1)) :
    (Pass.mk o' config t).judgePremise number l = (Pass.mk o config t).judgePremise number l := by
  unfold judgePremise
  by_cases hc : l.citations = []
  · by_cases ho : l.opens = none
    · by_cases hd : l.depth = 0
      · rw [hprem hc ho hd]
      · simp [hd]
    · have hsome : l.opens.isSome = true := Option.isSome_iff_ne_none.mpr ho
      simp [hsome]
  · simp [hc]

theorem judge_eq (g : (Pass.mk o config t).Grounded) {done done' : List Diagnostic} {number : Nat}
    {l : Line} (hcs : ∀ c ∈ l.citations, SameCited o o' c)
    (hdone : ∀ c ∈ l.citations, ∀ k, c.start ≤ k → k ≤ c.last →
      verdictAt done' k = verdictAt done k)
    (hprem : l.IsMainPremise → onlyPremises o' (number - 1) = onlyPremises o (number - 1)) :
    (Pass.mk o' config t).judge done' number l = (Pass.mk o config t).judge done number l := by
  cases hread : l.reading with
  | error e => simp only [judge, hread]
  | ok s =>
    by_cases hs : s = .marker
    · simp only [judge, hread, hs]
    · rw [judge_sentence hread hs, judge_sentence hread hs]
      cases hj : l.justification with
      | error e => cases e <;> rfl
      | ok j =>
        have hcites : l.citations = j.citations := by simp [Line.citations, hj]
        rw [hcites] at hcs hdone
        simp only [judgeRule]
        split
        · rfl
        · rename_i hlook
          exact judgePremise_eq fun h1 h2 h3 =>
            hprem ⟨h3, h2, h1, ⟨s, hread, hs⟩, j, hj, hlook⟩
        · rw [judgeDefinitions_eq a g hcs hdone]

/-- The verdict on a line is the same in outlines that are alike, if the cited lines and the verdicts
on them are the same and, for a premise of the main proof, there are only premises before it in both
or in none. -/
theorem verdict_eq (g : (Pass.mk o config t).Grounded) {done done' : List Diagnostic} {number : Nat}
    {l : Line} (hcs : ∀ c ∈ l.citations, SameCited o o' c)
    (hdone : ∀ c ∈ l.citations, ∀ k, c.start ≤ k → k ≤ c.last →
      verdictAt done' k = verdictAt done k)
    (hprem : l.IsMainPremise → onlyPremises o' (number - 1) = onlyPremises o (number - 1)) :
    (Pass.mk o' config t).verdict done' number l = (Pass.mk o config t).verdict done number l := by
  unfold verdict
  rw [judge_eq a g hcs hdone hprem]

end Alike

theorem judge_mainPremise {p : Pass} {done : List Diagnostic} {number : Nat} {l : Line}
    (h : l.IsMainPremise) : p.judge done number l =
      if onlyPremises p.outline (number - 1) then .ok (some .premise)
      else Check.refuse .latePremise none := by
  obtain ⟨s, hread, hs⟩ := h.reading
  obtain ⟨j, hj, hlook⟩ := h.label
  rw [judge_sentence hread hs, hj]
  simp only [judgeRule, hlook]
  unfold judgePremise
  simp [h.citations, h.opens, h.depth]

/-- One verdict on a premise of the main proof in two passes: both have only premises before it, or
none has. -/
theorem onlyPremises_eq {p p' : Pass} {done done' : List Diagnostic} {number : Nat} {l : Line}
    (h : l.IsMainPremise) {v : Verdict} (hv : p.verdict done number l = .ok v)
    (hv' : p'.verdict done' number l = .ok v) :
    onlyPremises p'.outline (number - 1) = onlyPremises p.outline (number - 1) := by
  unfold verdict at hv hv'
  rw [judge_mainPremise h] at hv hv'
  cases hp : onlyPremises p.outline (number - 1) with
  | true =>
    rw [hp, if_pos rfl] at hv
    cases hv
    by_contra hp'
    rw [if_neg hp'] at hv'
    cases hv'
  | false =>
    rw [hp, if_neg Bool.false_ne_true] at hv
    cases hv
    rw [← Bool.not_eq_true]
    intro hp'
    rw [if_pos hp'] at hv'
    cases hv'

end Pass

/-! ## Changes of one line -/

namespace Outline

theorem mem_dependents {o : Outline} {n m : Nat} :
    m ∈ o.dependents n ↔ m ≠ n ∧ Reaches o.isCitedBy o.numbers [n] m := by
  unfold dependents
  rw [List.mem_filter, Bool.and_eq_true, List.contains_iff_mem, mem_reachable_iff, bne_iff_ne,
    List.mem_singleton]
  constructor
  · rintro ⟨-, hr, hne⟩
    exact ⟨hne, hr.resolve_left hne⟩
  · rintro ⟨hne, hr⟩
    exact ⟨hr.mem_domain, .inr hr, hne⟩

/-- A line that cites a line, or one that depends on it, depends on it. -/
theorem dependents_closed {o : Outline} {n m k : Nat} {l : Line} {c : Citation}
    (hl : o.line? m = some l) (hc : c ∈ l.citations) (h1 : c.start ≤ k) (h2 : k ≤ c.last)
    (hk : k ∈ n :: o.dependents n) : m ∈ n :: o.dependents n := by
  by_cases hne : m = n
  · exact hne ▸ List.mem_cons_self
  have hcited : o.isCitedBy k m = true := by
    unfold isCitedBy Line.cites
    rw [hl, Option.any_some, List.any_eq_true]
    exact ⟨c, hc, by simp [h1, h2]⟩
  have hnum : m ∈ o.numbers := mem_numbers.mpr (hasLine_iff.mpr ⟨l, hl⟩)
  refine List.mem_cons_of_mem n (mem_dependents.mpr ⟨hne, ?_⟩)
  rcases List.mem_cons.mp hk with rfl | hk
  · exact .first List.mem_cons_self hcited hnum
  · exact .next (mem_dependents.mp hk).2 hcited hnum

/-- Two outlines that are alike and differ in one line at most. -/
structure Edited (o o' : Outline) (n : Nat) : Prop where
  alike : o.Alike o'
  others : ∀ k, k ≠ n → o'.line? k = o.line? k

/-- A change of one line keeps the verdicts on a set of other lines that holds all the lines that
they cite, if the premises of the main proof among them have only premises before them as before. -/
theorem Edited.verdict_eq {o o' : Outline} {n : Nat} (e : o.Edited o' n) {config : Config}
    {t : WorldTree} {r r' : Report} (f : r.From ⟨o, config, t⟩) (f' : r'.From ⟨o', config, t⟩)
    {S : Nat → Prop} (hn : ¬S n) (hS : ∀ m, S m → o'.hasLine m = true)
    (hclosed : ∀ m l c k, S m → o'.line? m = some l → c ∈ l.citations → c.start ≤ k → k ≤ c.last →
      o'.hasLine k = true → S k)
    (hprem : ∀ m l, S m → o'.line? m = some l → l.IsMainPremise →
      Pass.onlyPremises o' (m - 1) = Pass.onlyPremises o (m - 1)) {m : Nat} (hm : S m) :
    Pass.verdictAt r'.diagnostics m = Pass.verdictAt r.diagnostics m := by
  induction m using Nat.strongRecOn with
  | _ m ih =>
    obtain ⟨l, hl'⟩ := hasLine_iff.mp (hS m hm)
    have hmn : m ≠ n := fun h => hn (h ▸ hm)
    have hl : o.line? m = some l := by rw [← e.others m hmn, hl']
    obtain ⟨hpos, hsize⟩ := hasLine_bounds.mp (hS m hm)
    have hlen : r.diagnostics.length = o.size := f.complete
    have hlen' : r'.diagnostics.length = o'.size := f'.complete
    have hsizes := e.alike.size
    have hcs : ∀ c ∈ l.citations, Pass.SameCited o o' c := by
      intro c hc k h1 h2
      by_cases hkn : k = n
      · subst hkn
        have hno : o'.hasLine k = false := by
          rw [← Bool.not_eq_true]
          exact fun hk => hn (hclosed m l c k hm hl' hc h1 h2 hk)
        rw [line?_eq_none hno, line?_eq_none (e.alike.hasLine_eq k ▸ hno)]
      · exact e.others k hkn
    have hdone : ∀ c ∈ l.citations, ∀ k, c.start ≤ k → k ≤ c.last →
        Pass.verdictAt (r'.diagnostics.take (m - 1)) k =
          Pass.verdictAt (r.diagnostics.take (m - 1)) k := by
      intro c hc k h1 h2
      rw [Pass.verdictAt_take, Pass.verdictAt_take]
      split
      · by_cases h0 : k = 0
        · subst h0
          rfl
        · have hk := hasLine_bounds.mpr (⟨by omega, by omega⟩ : 1 ≤ k ∧ k ≤ o'.size)
          exact ih k (by omega) (hclosed m l c k hm hl' hc h1 h2 hk)
      · rfl
    obtain ⟨v, hv⟩ : ∃ v, Pass.verdictAt r.diagnostics m = .ok v :=
      Pass.verdictAt_total (by omega) (by omega)
    obtain ⟨v', hv'⟩ : ∃ v, Pass.verdictAt r'.diagnostics m = .ok v :=
      Pass.verdictAt_total (by omega) (by omega)
    obtain ⟨k, hk, hver⟩ := f.reached.line_verdict hv
    obtain ⟨k', hk', hver'⟩ := f'.reached.line_verdict hv'
    cases hl.symm.trans hk
    cases hl'.symm.trans hk'
    have hsame := Pass.verdict_eq e.alike f.grounded hcs hdone (hprem m l hm hl')
    rw [hver, hver'] at hsame
    rw [hv, hv', hsame]

end Outline

end ModalFitch
