import Mathlib.Logic.Relation
import Mathlib.Order.Bounds.Defs
import ModalFitch.Outline.Citing
import ModalFitch.Proofs.Coverage
import ModalFitch.Proofs.Refusals

/-! An invalid line takes the lines that cite it along.

A valid line cites valid lines before it, placeholders apart, whose citations are not looked at. So
along citations no valid line leads to an invalid one. Where the citations of a line by an enabled
rule lead somewhere, the line depends on an invalid one exactly if a citation reaches one, and the
first such citation is named.

* `Pass.Upheld`, `Pass.Rejected`: a line is valid, or it is invalid.
* `Pass.checkDependencies_cases`: the first citation that reaches an invalid line.
* `Pass.Derives`: a line by an enabled rule with citations that lead somewhere.
* `invalidity_cascades`: the report of a whole proof. -/

namespace ModalFitch
set_option autoImplicit false

/-! ## Cited lines -/

namespace Outline

theorem mem_dropRepeated {xs : List Nat} {k : Nat} : k ∈ dropRepeated xs ↔ k ∈ xs := by
  fun_induction dropRepeated xs with
  | case1 => rfl
  | case2 n => rfl
  | case3 m rest ih => rw [ih]; simp
  | case4 m n rest _ ih =>
    rw [List.mem_cons, ih]
    exact List.mem_cons.symm

theorem citedLines_mem {o : Outline} {n : Nat} {l : Line} (hl : o.line? n = some l) :
    ∃ ks, o.citedLines n = .ok ks ∧
      ∀ k, k ∈ ks ↔ ∃ c ∈ l.citations, c.start ≤ k ∧ k ≤ c.last := by
  unfold citedLines
  rw [line_ok.mpr hl]
  refine ⟨_, rfl, fun k => ?_⟩
  rw [mem_dropRepeated, List.mem_mergeSort, List.mem_flatMap]
  refine exists_congr fun c => and_congr_right fun _ => ?_
  rw [List.mem_range'_1]
  omega

end Outline

namespace Pass

/-! ## Valid and invalid lines -/

def Upheld (done : List Diagnostic) (n : Nat) : Prop :=
  ∃ rule, verdictAt done n = .ok (.valid rule)

def Rejected (done : List Diagnostic) (n : Nat) : Prop :=
  ∃ label e, verdictAt done n = .ok (.invalid label e)

theorem rejected_iff {done : List Diagnostic} {n : Nat} :
    Rejected done n ↔ ∃ v, verdictAt done n = .ok v ∧ v.isInvalid = true := by
  constructor
  · rintro ⟨label, e, h⟩
    exact ⟨_, h, rfl⟩
  · rintro ⟨v, h, hinv⟩
    cases v with
    | unchecked => cases hinv
    | valid rule => cases hinv
    | invalid label e => exact ⟨label, e, h⟩

theorem Sustained.not_rejected {done : List Diagnostic} {n : Nat} (h : Sustained done n) :
    ¬Rejected done n := by
  intro hrej
  obtain ⟨v, hv, hinv⟩ := h
  obtain ⟨u, hu, hinv'⟩ := rejected_iff.mp hrej
  rw [hv] at hu
  cases hu
  rw [hinv] at hinv'
  cases hinv'

theorem rejected_take {done : List Diagnostic} {k n : Nat} :
    Rejected (done.take k) n ↔ n ≤ k ∧ Rejected done n := by
  unfold Rejected
  rw [verdictAt_take]
  by_cases hn : n ≤ k
  · simp [hn]
  · simp [hn]

/-! ## What valid lines cite -/

theorem judgeMarker_citations {l : Line} {rule : Option RuleId} (h : judgeMarker l = .ok rule) :
    l.citations = [] := by
  unfold judgeMarker at h
  unfold Line.citations
  split at h
  · cases h
  · split at h
    · rename_i hj
      rw [hj]
    · cases h
    · rename_i j hj
      rw [hj]
      split at h
      · cases h
      · split at h
        · cases h
        · rename_i hc
          simpa using hc

theorem definitionOf?_rule {rule : RuleId} {d : RuleDefinition}
    (h : Catalog.definitionOf? rule = some d) : d.rule = rule := by
  unfold Catalog.definitionOf? at h
  simpa using List.find?_some h

/-- A valid line that cites something is a placeholder, or is valid by the definition of its rule. -/
theorem Accepted.citing {p : Pass} {done : List Diagnostic} {number : Nat} {l : Line}
    {found : Option RuleId} (h : p.Accepted done number l found) (hcites : l.citations ≠ []) :
    ∃ j rule, l.justification = .ok j ∧ l.citations = j.citations ∧
      RuleId.lookup j.rule = some rule ∧ found = some rule ∧ (rule = .placeholder ∨
        ∃ s d, Catalog.definitionOf? rule = some d ∧ d.ruleset ∈ p.config.rulesets ∧
          p.applyDefinition done number s j.citations d = .ok ()) := by
  cases h with
  | marker _ hm => exact absurd (judgeMarker_citations hm) hcites
  | assumption _ _ _ hjust =>
    rcases hjust with hj | ⟨j, hj, -, hcs⟩
    · exact absurd (by simp [Line.citations, hj]) hcites
    · exact absurd (by simp [Line.citations, hj, hcs]) hcites
  | premise _ _ hj _ hcs => exact absurd (by simp [Line.citations, hj, hcs]) hcites
  | @placeholder s j _ _ hj hlook _ =>
    exact ⟨j, .placeholder, hj, by simp [Line.citations, hj], hlook, rfl, .inl rfl⟩
  | @rule s j rule d _ _ hj hlook _ _ _ hdef hset happ =>
    exact ⟨j, rule, hj, by simp [Line.citations, hj], hlook, congrArg some (definitionOf?_rule hdef),
      .inr ⟨s, d, hdef, hset, happ⟩⟩

/-- A line that is valid other than as a placeholder reaches only lines that are not invalid. -/
theorem Accepted.cited {p : Pass} {done : List Diagnostic} {number : Nat} {l : Line}
    {found : Option RuleId} (h : p.Accepted done number l found) (hne : found ≠ some .placeholder)
    {c : Citation} (hc : c ∈ l.citations) {k : Nat} (h1 : c.start ≤ k) (h2 : k ≤ c.last) :
    Sustained done k := by
  obtain ⟨j, rule, -, hcites, -, rfl, rfl | ⟨s, d, -, -, happ⟩⟩ := h.citing (List.ne_nil_of_mem hc)
  · exact absurd rfl hne
  · obtain ⟨-, -, hsus, -⟩ := applyDefinition_iff.mp happ
    exact hsus c (hcites ▸ hc) k h1 h2

/-! ## The first invalid line -/

theorem firstInvalid_some {done : List Diagnostic} {count n k : Nat}
    (h : firstInvalid done count n = .ok (some k)) :
    n ≤ k ∧ k < n + count ∧ Rejected done k := by
  induction count generalizing n with
  | zero => cases h
  | succ count ih =>
    rw [firstInvalid] at h
    obtain ⟨v, hv, h⟩ := bind_ok.mp h
    split at h
    · rename_i hinv
      cases h
      exact ⟨Nat.le_refl _, by omega, rejected_iff.mpr ⟨v, hv, hinv⟩⟩
    · obtain ⟨h1, h2, hrej⟩ := ih h
      exact ⟨by omega, by omega, hrej⟩

/-- A citation reaches an invalid line. -/
def Strikes (done : List Diagnostic) (c : Citation) : Prop :=
  ∃ k, c.start ≤ k ∧ k ≤ c.last ∧ Rejected done k

/-- A citation is the first one that reaches an invalid line. -/
def FirstStrike (done : List Diagnostic) (cs : List Citation) (i : Nat) : Prop :=
  IsLeast {i | ∃ c, cs[i]? = some c ∧ Strikes done c} i

/-- Where the verdicts on all cited lines are there, either no citation reaches an invalid line, or
the first one that does is at fault. -/
theorem checkDependencies_cases {done : List Diagnostic} (index : Int) {cs : List Citation}
    (hcs : ∀ c ∈ cs, 1 ≤ c.start ∧ c.start ≤ c.last ∧ c.last ≤ done.length) :
    (checkDependencies done index cs = .ok () ∧ ∀ c ∈ cs, ¬Strikes done c) ∨
    ∃ i k, FirstStrike done cs i ∧
      checkDependencies done index cs = .error (.refused ⟨.invalidLine k, some (index + i)⟩) := by
  induction cs generalizing index with
  | nil => exact .inl ⟨rfl, fun c hc => by cases hc⟩
  | cons c cs ih =>
    obtain ⟨hpos, hle, hlast⟩ := hcs c List.mem_cons_self
    obtain ⟨found, hfound⟩ : ∃ r, firstInvalid done (c.last + 1 - c.start) c.start = .ok r :=
      Grounded.firstInvalid_total hpos (by omega)
    cases found with
    | some k =>
      obtain ⟨h1, h2, hrej⟩ := firstInvalid_some hfound
      refine .inr ⟨0, k, ⟨⟨c, rfl, k, h1, by omega, hrej⟩, fun _ _ => Nat.zero_le _⟩, ?_⟩
      rw [checkDependencies, hfound]
      simp [Check.lift, Except.mapError, bind, Except.bind, Check.refuse]
    | none =>
      have hclean : ¬Strikes done c := by
        rintro ⟨k, h1, h2, hrej⟩
        exact (firstInvalid_none_iff.mp hfound k h1 (by omega)).not_rejected hrej
      have hrest : checkDependencies done index (c :: cs) = checkDependencies done (index + 1) cs := by
        rw [checkDependencies, hfound]
        rfl
      rw [hrest]
      rcases ih (index + 1) fun d hd => hcs d (List.mem_cons_of_mem c hd) with ⟨hok, hall⟩ | ⟨i, k, hi, herr⟩
      · refine .inl ⟨hok, fun d hd => ?_⟩
        rcases List.mem_cons.mp hd with rfl | hd
        · exact hclean
        · exact hall d hd
      · -- the head strikes nothing, so the indices are those of the tail moved by one
        refine .inr ⟨i + 1, k, ⟨hi.1, ?_⟩, ?_⟩
        · rintro (_ | j) ⟨d, hd, hstrikes⟩
          · cases hd
            exact absurd hstrikes hclean
          · exact Nat.succ_le_succ (hi.2 ⟨d, hd, hstrikes⟩)
        · have hindex : index + 1 + (i : Int) = index + (i + 1 : Nat) := by
            push_cast
            omega
          rw [herr, hindex]

/-! ## Reasons -/

/-- Once the dependencies have passed, a line is not refused for an invalid one. -/
theorem applyDefinition_reason {p : Pass} {done : List Diagnostic} {number : Nat} {s : Sentence}
    {cs : List Citation} {d : RuleDefinition} {materials : List Material} {e : CheckError}
    (hms : p.resolveAll number d.transfer 0 cs = .ok (materials.map some))
    (hdep : checkDependencies done 0 cs = .ok ())
    (h : p.applyDefinition done number s cs d = .error (.refused e)) :
    e.reason ≠ .dependsOnInvalid := by
  have hpresent : present cs (materials.map some) = .ok materials :=
    (present_iff (resolveAll_iff.mp hms).length_eq).mpr rfl
  unfold applyDefinition at h
  rw [hms, hdep] at h
  simp only [bind, Except.bind, hpresent] at h
  cases happ : d.apply materials s with
  | error e' =>
    rw [happ] at h
    cases h
    intro hreason
    unfold CheckError.reason at hreason
    obtain hcause | hcause | ⟨expected, hcause⟩ := RuleDefinition.apply_cause happ <;>
      rw [hcause] at hreason <;> cases hreason
  | ok b =>
    rw [happ] at h
    simp only [Except.mapError] at h
    split at h
    · exact checkClosure_refusals (P := fun cause => cause.reason ≠ .dependsOnInvalid)
        (fun _ _ _ hreason => by cases hreason) p 0 cs e h
    · cases h

/-! ## Lines by an enabled rule -/

/-- A line by an enabled rule whose citations all lead somewhere for that rule. -/
structure Derives (p : Pass) (number : Nat) (l : Line) (j : Justification) (d : RuleDefinition) :
    Prop where
  line : p.outline.line? number = some l
  reading : ∃ s, l.reading = .ok s ∧ s ≠ .marker
  opens : l.opens = none
  justified : l.justification = .ok j
  rule : ∃ rule, RuleId.lookup j.rule = some rule ∧ rule ≠ .premise ∧ rule ≠ .placeholder ∧
    d ∈ Catalog.definitionsFor rule p.config.rulesets
  resolved : ∀ (i : Nat) (c : Citation), j.citations[i]? = some c →
    ∃ m, p.resolve number d.transfer i c = .ok m

theorem definitionsFor_eq {rule : RuleId} {config : Config} {d : RuleDefinition}
    (h : d ∈ Catalog.definitionsFor rule config.rulesets) :
    Catalog.definitionsFor rule config.rulesets = [d] := by
  rw [Catalog.definitionsFor_rulesets] at h ⊢
  split at h
  · split at h
    · rename_i hset
      rw [if_pos hset, List.mem_singleton.mp h]
    · cases h
  · cases h

theorem judgeDefinitions_refused {p : Pass} {done : List Diagnostic} {number : Nat} {s : Sentence}
    {j : Justification} {rule : RuleId} {d : RuleDefinition} {e : CheckError}
    (hd : Catalog.definitionsFor rule p.config.rulesets = [d]) :
    p.judgeDefinitions done number s j rule = .error (.refused e) ↔
      p.applyDefinition done number s j.citations d = .error (.refused e) := by
  unfold judgeDefinitions
  rw [hd]
  dsimp only
  cases p.applyDefinition done number s j.citations d with
  | ok u => simp
  | error f => cases f <;> simp [applyFirst]

namespace Derives

variable {p : Pass} {number : Nat} {l : Line} {j : Justification} {d : RuleDefinition}
  (h : p.Derives number l j d)
include h

theorem citations : l.citations = j.citations := by simp [Line.citations, h.justified]

theorem resolveAll : ∃ ms, p.resolveAll number d.transfer 0 j.citations = .ok ms := by
  have hall : ∀ c ∈ j.citations, ∃ m, p.Resolved number d.transfer c m := by
    intro c hc
    obtain ⟨i, hi⟩ := List.mem_iff_getElem?.mp hc
    obtain ⟨m, hm⟩ := h.resolved i c hi
    exact ⟨m, resolve_iff.mp hm⟩
  obtain ⟨ms, hms⟩ : ∃ ms, List.Forall₂ (p.Resolved number d.transfer) j.citations ms := by
    generalize j.citations = cs at hall
    induction cs with
    | nil => exact ⟨[], .nil⟩
    | cons c cs ih =>
      obtain ⟨m, hm⟩ := hall c List.mem_cons_self
      obtain ⟨ms, hms⟩ := ih fun d hd => hall d (List.mem_cons_of_mem c hd)
      exact ⟨m :: ms, .cons hm hms⟩
  exact ⟨ms, resolveAll_iff.mpr hms⟩

theorem judge_refused (done : List Diagnostic) :
    ∃ s, ∀ e, p.judge done number l = .error (.refused e) ↔
      p.applyDefinition done number s j.citations d = .error (.refused e) := by
  obtain ⟨s, hread, hs⟩ := h.reading
  obtain ⟨rule, hlook, hprem, hph, hd⟩ := h.rule
  have hrule : p.judgeRule done number l s j = p.judgeDefinitions done number s j rule := by
    unfold judgeRule
    rw [hlook]
    split
    · cases ‹some rule = none›
    · rename_i e
      exact absurd (Option.some.inj e) hprem
    · rename_i rule' _ e
      cases e
      simp [h.opens, hph]
  refine ⟨s, fun e => ?_⟩
  rw [judge_sentence hread hs, h.justified]
  simp only [hrule]
  exact judgeDefinitions_refused (definitionsFor_eq hd)

end Derives

/-- After the verdicts on the lines before it, a line by an enabled rule is refused for an invalid
line that its first citation to reach one leads to; where no citation reaches one, it is not refused
for that reason. -/
theorem Derives.judge_cases {p : Pass} (g : p.Grounded) {done : List Diagnostic}
    (hdone : p.Reached done) {number : Nat} (hn : number = done.length + 1) {l : Line}
    {j : Justification} {d : RuleDefinition} (h : p.Derives number l j d) :
    (∃ i k, FirstStrike done j.citations i ∧
      p.judge done number l = .error (.refused ⟨.invalidLine k, some (i : Int)⟩)) ∨
    ((∀ c ∈ j.citations, ¬Strikes done c) ∧
      ∀ e, p.judge done number l = .error (.refused e) → e.reason ≠ .dependsOnInvalid) := by
  obtain ⟨ms, hms⟩ := h.resolveAll
  have hbefore : ∀ c ∈ j.citations, 1 ≤ c.start ∧ c.start ≤ c.last ∧ c.last ≤ done.length := by
    intro c hc
    obtain ⟨hpos, hle, hlast⟩ := g.cited_before hms hc
    exact ⟨hpos, hle, by omega⟩
  obtain ⟨s, hjudge⟩ := h.judge_refused done
  rcases checkDependencies_cases 0 hbefore with ⟨hok, hclean⟩ | ⟨i, k, hfirst, herr⟩
  · refine .inr ⟨hclean, fun e he => ?_⟩
    obtain ⟨materials, rfl⟩ := Grounded.materials_present hdone (resolveAll_iff.mp hms) fun c hc =>
      checkDependencies_iff.mp hok c hc c.start (Nat.le_refl _) (hbefore c hc).2.1
    exact applyDefinition_reason hms hok ((hjudge e).mp he)
  · refine .inl ⟨i, k, hfirst, (hjudge _).mpr ?_⟩
    rw [Int.zero_add] at herr
    unfold applyDefinition
    rw [hms, herr]
    rfl

theorem Strikes.take {done : List Diagnostic} {n : Nat} {c : Citation} (h : c.last ≤ n) :
    Strikes (done.take n) c ↔ Strikes done c := by
  refine exists_congr fun k => and_congr_right fun _ => and_congr_right fun hk => ?_
  rw [rejected_take]
  exact and_iff_right (by omega)

end Pass

/-! ## Reports -/

namespace Report

/-- A line that is no placeholder draws on the lines that its justification reaches. -/
def Draws (r : Report) (o : Outline) (n k : Nat) : Prop :=
  Pass.verdictAt r.diagnostics n ≠ .ok (.valid (some .placeholder)) ∧
    ∃ ks, o.citedLines n = .ok ks ∧ k ∈ ks

namespace From

variable {r : Report} {p : Pass} (f : r.From p)
include f

theorem valid_cites {n : Nat} {rule : Option RuleId}
    (hv : Pass.verdictAt r.diagnostics n = .ok (.valid rule)) (hne : rule ≠ some .placeholder) :
    ∃ ks, p.outline.citedLines n = .ok ks ∧
      ∀ k ∈ ks, p.outline.hasLine k = true ∧ k < n ∧ Pass.Upheld r.diagnostics k := by
  obtain ⟨hn, -⟩ := Pass.verdictAt_ok.mp hv
  obtain ⟨l, hl, hverdict⟩ := f.reached.line_verdict hv
  obtain ⟨ks, hks, hmem⟩ := Outline.citedLines_mem hl
  refine ⟨ks, hks, fun k hk => ?_⟩
  obtain ⟨c, hc, h1, h2⟩ := (hmem k).mp hk
  have hsus := (Pass.verdict_valid_iff.mp hverdict).cited hne hc h1 h2
  obtain ⟨hlt, hsus⟩ := Pass.sustained_take.mp hsus
  obtain ⟨l', found, hl', hv', -⟩ := f.reached.sustained hsus
  exact ⟨Outline.hasLine_iff.mpr ⟨l', hl'⟩, by omega, found, hv'⟩

/-- The validity of a line passes to all the lines that it leads to. -/
theorem valid_draws {n k : Nat} (hv : Pass.Upheld r.diagnostics n)
    (hdraws : Relation.ReflTransGen (r.Draws p.outline) n k) : Pass.Upheld r.diagnostics k := by
  induction hdraws with
  | refl => exact hv
  | @tail m k _ hstep ih =>
    obtain ⟨rule, hm⟩ := ih
    obtain ⟨hne, ks, hks, hk⟩ := hstep
    obtain ⟨ks', hks', hall⟩ := f.valid_cites hm fun e => hne (e ▸ hm)
    rw [hks] at hks'
    cases hks'
    exact (hall k hk).2.2

theorem invalid_iff {n : Nat} {l : Line} (hl : p.outline.line? n = some l) {label : Option Text}
    {e : CheckError} : Pass.verdictAt r.diagnostics n = .ok (.invalid label e) ↔
      l.ruleLabel? = label ∧ p.judge (r.diagnostics.take (n - 1)) n l = .error (.refused e) := by
  obtain ⟨v, hv, hverdict⟩ := f.line_decided hl
  rw [← Pass.verdict_invalid_iff, hverdict, hv]

/-- A line by an enabled rule is invalid for an invalid line exactly if one of its citations reaches
one, and then for the first such citation. -/
theorem depends {n : Nat} {l : Line} {j : Justification} {d : RuleDefinition}
    (h : p.Derives n l j d) :
    ((∃ label e, Pass.verdictAt r.diagnostics n = .ok (.invalid label e) ∧
      e.reason = .dependsOnInvalid) ↔ ∃ c ∈ j.citations, Pass.Strikes r.diagnostics c) ∧
    ∀ label e, Pass.verdictAt r.diagnostics n = .ok (.invalid label e) →
      e.reason = .dependsOnInvalid → ∃ i : Nat, e.index = some (i : Int) ∧
        Pass.FirstStrike r.diagnostics j.citations i := by
  have hstrikes : ∀ c ∈ j.citations, Pass.Strikes (r.diagnostics.take (n - 1)) c ↔
      Pass.Strikes r.diagnostics c := by
    intro c hc
    obtain ⟨ms, hms⟩ := h.resolveAll
    have hlast := (f.grounded.cited_before hms hc).2.2
    exact Pass.Strikes.take (by omega)
  have hnumber := (f.length_before h.line).symm
  rcases h.judge_cases f.grounded (f.reached.take (n - 1)) hnumber with
    ⟨i, k, hfirst, hrefused⟩ | ⟨hclean, hother⟩
  · obtain ⟨⟨c, hc, hstrike⟩, hleast⟩ := hfirst
    have hmem := List.mem_of_getElem? hc
    refine ⟨⟨fun _ => ⟨c, hmem, (hstrikes c hmem).mp hstrike⟩, fun _ =>
      ⟨_, _, (f.invalid_iff h.line).mpr ⟨rfl, hrefused⟩, rfl⟩⟩, ?_⟩
    intro label e he _
    have hsame := ((f.invalid_iff h.line).mp he).2
    rw [hrefused] at hsame
    cases hsame
    refine ⟨i, rfl, ⟨c, hc, (hstrikes c hmem).mp hstrike⟩, ?_⟩
    rintro i' ⟨c', hc', hstrike'⟩
    exact hleast ⟨c', hc', (hstrikes c' (List.mem_of_getElem? hc')).mpr hstrike'⟩
  · have hnone : ∀ label e, Pass.verdictAt r.diagnostics n = .ok (.invalid label e) →
        e.reason ≠ .dependsOnInvalid := by
      intro label e he
      exact hother e ((f.invalid_iff h.line).mp he).2
    refine ⟨⟨?_, ?_⟩, fun label e he hr => absurd hr (hnone label e he)⟩
    · rintro ⟨label, e, he, hr⟩
      exact absurd hr (hnone label e he)
    · rintro ⟨c, hc, hstrike⟩
      exact absurd ((hstrikes c hc).mpr hstrike) (hclean c hc)

end From

end Report

/-- How invalidity spreads in a report. What a valid line cites is there, comes before it and is
valid, unless the line is a placeholder; so no valid line leads to an invalid one. A line by an enabled
rule with citations that lead somewhere is invalid for depending on an invalid line exactly if it
cites one, and it names the first citation that reaches one. -/
theorem invalidity_cascades {lines : List Line} {goal : Option Goal} {revision : Nat} {o : Outline}
    (hbuild : Outline.build lines goal revision = .ok o) (hopens : ∀ l ∈ lines, l.opens ≠ some .root)
    (config : Config) :
    ∃ tree report, WorldTree.ofOutline o = .ok tree ∧ verify o config = .ok report ∧
      (∀ n rule, Pass.verdictAt report.diagnostics n = .ok (.valid rule) → rule ≠ some .placeholder →
        ∃ ks, o.citedLines n = .ok ks ∧
          ∀ k ∈ ks, o.hasLine k = true ∧ k < n ∧ Pass.Upheld report.diagnostics k) ∧
      (∀ n k, Pass.Upheld report.diagnostics n → Relation.ReflTransGen (report.Draws o) n k →
        Pass.Upheld report.diagnostics k ∧ ¬Pass.Rejected report.diagnostics k) ∧
      ∀ n l j d, (Pass.mk o config tree).Derives n l j d → ∃ ks, o.citedLines n = .ok ks ∧
        ((∃ label e, Pass.verdictAt report.diagnostics n = .ok (.invalid label e) ∧
          e.reason = .dependsOnInvalid) ↔ ∃ k ∈ ks, Pass.Rejected report.diagnostics k) ∧
        ∀ label e, Pass.verdictAt report.diagnostics n = .ok (.invalid label e) →
          e.reason = .dependsOnInvalid → ∃ i : Nat, e.index = some (i : Int) ∧
            IsLeast {i | ∃ c, j.citations[i]? = some c ∧
              ∃ k, c.start ≤ k ∧ k ≤ c.last ∧ Pass.Rejected report.diagnostics k} i := by
  obtain ⟨hnested, rfl, -, -⟩ := Outline.build_cases hbuild
  obtain ⟨tree, report, hverify, htree, f⟩ := verify_total hnested hopens config
  refine ⟨tree, report, htree, hverify, fun n rule => f.valid_cites, ?_, ?_⟩
  · intro n k hn hdraws
    obtain ⟨rule, hrule⟩ := f.valid_draws hn hdraws
    refine ⟨⟨rule, hrule⟩, ?_⟩
    rintro ⟨label, e, hk⟩
    rw [hrule] at hk
    cases hk
  · intro n l j d h
    obtain ⟨ks, hks, hmem⟩ := Outline.citedLines_mem h.line
    obtain ⟨hiff, hindex⟩ := f.depends h
    refine ⟨ks, hks, hiff.trans ?_, hindex⟩
    constructor
    · rintro ⟨c, hc, k, h1, h2, hk⟩
      exact ⟨k, (hmem k).mpr ⟨c, h.citations ▸ hc, h1, h2⟩, hk⟩
    · rintro ⟨k, hk, hrej⟩
      obtain ⟨c, hc, h1, h2⟩ := (hmem k).mp hk
      exact ⟨c, h.citations ▸ hc, k, h1, h2, hrej⟩

/-- The second citation of the last line leads to a subproof with an invalid line inside. -/
def brokenLines : List Line :=
  createLines [("P", "PR", 0, none), ("P", "PR", 1, some .ordinary), ("Q", "PR", 2, some .ordinary),
    ("R", "R 9", 2, none), ("P", "R 2", 1, none), ("P", "∨E 1, 2-5, 2-5", 0, none)]

theorem invalidity_cascades_nested : ∃ o tree report l j d label e,
    Outline.build brokenLines none 0 = .ok o ∧ WorldTree.ofOutline o = .ok tree ∧
    verify o ⟨none, false⟩ = .ok report ∧ Pass.Rejected report.diagnostics 4 ∧
    (Pass.mk o ⟨none, false⟩ tree).Derives 6 l j d ∧
    Pass.verdictAt report.diagnostics 6 = .ok (.invalid label e) ∧ e.reason = .dependsOnInvalid ∧
    e.index = some 1 := by
  obtain ⟨o, ho, h⟩ := exists_ok (x := Outline.build brokenLines none 0)
    (p := fun o => (verify o ⟨none, false⟩).toOption.any (fun r =>
        Pass.verdictAt r.diagnostics 1 = .ok (.valid (some .premise)) &&
        (Pass.verdictAt r.diagnostics 4).toOption.any Verdict.isInvalid) &&
      (WorldTree.ofOutline o).toOption.any fun t => (o.line 6).toOption.any fun l =>
        l.opens = none && l.reading = .ok (.atom "P") && l.justification.toOption.any fun j =>
          RuleId.lookup j.rule = some .orElim &&
          j.citations = [⟨1, none⟩, ⟨2, some 5⟩, ⟨2, some 5⟩] &&
          (Catalog.definitionsFor .orElim (Config.mk none false).rulesets).any fun d =>
            j.citations.zipIdx.all fun (c, i) =>
              ((Pass.mk o ⟨none, false⟩ t).resolve 6 d.transfer i c).toOption.isSome)
    (by decide +kernel)
  rw [Bool.and_eq_true] at h
  obtain ⟨report, hreport, hr⟩ := exists_ok h.1
  obtain ⟨tree, htree, hl⟩ := exists_ok h.2
  obtain ⟨l, hl, hj⟩ := exists_ok hl
  simp only [Bool.and_eq_true, decide_eq_true_eq] at hr hj
  obtain ⟨h1, h4⟩ := hr
  obtain ⟨v, hv, hinv⟩ := exists_ok h4
  have hrej : Pass.Rejected report.diagnostics 4 := Pass.rejected_iff.mpr ⟨v, hv, hinv⟩
  obtain ⟨⟨hopens, hread⟩, hj⟩ := hj
  obtain ⟨j, hj, hrule⟩ := exists_ok hj
  simp only [Bool.and_eq_true, decide_eq_true_eq, List.any_eq_true, List.all_eq_true] at hrule
  obtain ⟨⟨hlook, hcs⟩, d, hd, hres⟩ := hrule
  have hderives : (Pass.mk o ⟨none, false⟩ tree).Derives 6 l j d := by
    refine ⟨Outline.line_ok.mp hl, ⟨_, hread, by decide⟩, hopens, hj,
      ⟨.orElim, hlook, by decide, by decide, hd⟩, fun i c hc => ?_⟩
    have hsome := hres (c, i) (List.mem_zipIdx_iff_getElem?.mpr hc)
    cases hm : (Pass.mk o ⟨none, false⟩ tree).resolve 6 d.transfer i c with
    | ok m => exact ⟨m, rfl⟩
    | error e => simp [hm, Except.toOption] at hsome
  obtain ⟨tree', report', htree', hreport', -, -, hdepends⟩ :=
    invalidity_cascades ho (by decide +kernel) ⟨none, false⟩
  rw [hreport] at hreport'
  rw [htree] at htree'
  cases hreport'
  cases htree'
  obtain ⟨ks, hks, hiff, hindex⟩ := hdepends 6 l j d hderives
  obtain ⟨ks', hks', hmem⟩ := Outline.citedLines_mem hderives.line
  rw [hks] at hks'
  cases hks'
  have hfour : 4 ∈ ks := by
    rw [hmem, hderives.citations, hcs]
    exact ⟨⟨2, some 5⟩, by simp, by decide, by decide⟩
  obtain ⟨label, e, he, hreason⟩ := hiff.mpr ⟨4, hfour, hrej⟩
  obtain ⟨i, hi, ⟨c, hc, k, hk1, hk2, hk⟩, hleast⟩ := hindex label e he hreason
  have hle : i ≤ 1 := hleast ⟨⟨2, some 5⟩, by rw [hcs]; rfl, 4, by decide, by decide, hrej⟩
  have hne : i ≠ 0 := by
    rintro rfl
    rw [hcs] at hc
    cases hc
    have hone : k = 1 := Nat.le_antisymm hk2 hk1
    obtain ⟨label, e, hk⟩ := hk
    rw [hone, h1] at hk
    cases hk
  have hone : i = 1 := by omega
  rw [hone] at hi
  exact ⟨o, tree, report, l, j, d, label, e, ho, htree, hreport, hrej, hderives, he, hreason, hi⟩

end ModalFitch
