import ModalFitch.Proofs.Citing
import ModalFitch.Report

/-! When a line is valid, and the verdicts of a whole pass.

* `Catalog.definitionsFor_rulesets`: a rule has one definition, enabled or not.
* `Pass.Accepted`: the ways in which a line is valid.
* `Pass.Reached`: verdicts on the first lines, each made after those before it. -/

namespace ModalFitch
set_option autoImplicit false

/-! ## Definitions of a rule -/

namespace Catalog

theorem find_definition (rule : RuleId) (set : RuleSet) :
    (definitions.find? fun d => d.ruleset = set && d.rule = rule) =
      (definitionOf? rule).filter fun d => d.ruleset = set := by
  cases rule <;> cases set <;> rfl

theorem filterMap_single {α β : Type} [DecidableEq β] (a : α) (k : β) {ys : List β}
    (hys : ys.Nodup) :
    (ys.filterMap fun y => if k = y then some a else none) = if k ∈ ys then [a] else [] := by
  induction ys with
  | nil => rfl
  | cons y ys ih =>
    rw [List.nodup_cons] at hys
    rw [List.filterMap_cons, ih hys.2]
    by_cases h : k = y
    · subst h
      simp [hys.1]
    · simp [h]

end Catalog

theorem Config.rulesets_nodup (c : Config) : c.rulesets.Nodup := by
  obtain ⟨system, derived⟩ := c
  cases derived <;> rcases system with _ | _ | _ | _ | _ <;> decide

theorem Config.mem_modal_rulesets {config : Config} {set : RuleSet} (h : set ∈ config.rulesets)
    (hb : set ≠ .tflBasic) (hd : set ≠ .tflDerived) :
    ∃ system, config.system = some system ∧ set ∈ system.rulesets := by
  unfold Config.rulesets at h
  rcases List.mem_append.mp h with h | h
  · rcases List.mem_cons.mp h with h | h
    · exact absurd h hb
    · split at h
      · exact absurd (List.mem_singleton.mp h) hd
      · cases h
  · split at h
    · rename_i system hs
      exact ⟨system, hs, h⟩
    · cases h

/-- A rule has one definition, which is there if its rule set is enabled. -/
theorem Catalog.definitionsFor_rulesets (rule : RuleId) (c : Config) :
    definitionsFor rule c.rulesets =
      match definitionOf? rule with
      | some d => if d.ruleset ∈ c.rulesets then [d] else []
      | none => [] := by
  unfold definitionsFor
  simp only [find_definition]
  split
  · rename_i d hd
    rw [hd]
    simp only [Option.filter_some, decide_eq_true_eq]
    exact filterMap_single d d.ruleset c.rulesets_nodup
  · rename_i hd
    rw [hd]
    exact List.filterMap_eq_nil_iff.mpr fun _ _ => rfl

namespace Pass

/-! ## One line -/

/-- The ways in which a line is valid: as the lone box that opens a strict subproof, as an
assumption, as a premise of the main proof, as a placeholder, or by the definition of its rule. -/
inductive Accepted (p : Pass) (done : List Diagnostic) (number : Nat) (l : Line) :
    Option RuleId → Prop where
  | marker {rule : Option RuleId} : l.reading = .ok .marker → judgeMarker l = .ok rule →
      Accepted p done number l rule
  | assumption {s : Sentence} : l.reading = .ok s → s ≠ .marker → l.opens.isSome = true →
      (l.justification = .error .missingRule ∨ ∃ j, l.justification = .ok j ∧
        RuleId.lookup j.rule = some .premise ∧ j.citations = []) →
      Accepted p done number l (some .premise)
  | premise {s : Sentence} {j : Justification} : l.reading = .ok s → s ≠ .marker →
      l.justification = .ok j → RuleId.lookup j.rule = some .premise → j.citations = [] →
      l.opens = none → l.depth = 0 → onlyPremises p.outline (number - 1) = true →
      Accepted p done number l (some .premise)
  | placeholder {s : Sentence} {j : Justification} : l.reading = .ok s → s ≠ .marker →
      l.justification = .ok j → RuleId.lookup j.rule = some .placeholder → l.opens = none →
      Accepted p done number l (some .placeholder)
  | rule {s : Sentence} {j : Justification} {rule : RuleId} {d : RuleDefinition} :
      l.reading = .ok s → s ≠ .marker → l.justification = .ok j →
      RuleId.lookup j.rule = some rule → rule ≠ .premise → rule ≠ .placeholder → l.opens = none →
      Catalog.definitionOf? rule = some d → d.ruleset ∈ p.config.rulesets →
      p.applyDefinition done number s j.citations d = .ok () →
      Accepted p done number l (some d.rule)

theorem Accepted.reading {p : Pass} {done : List Diagnostic} {number : Nat} {l : Line}
    {found : Option RuleId} (h : p.Accepted done number l found) : ∃ s, l.reading = .ok s := by
  cases h with
  | marker h | assumption h | premise h | placeholder h | rule h => exact ⟨_, h⟩

theorem judgePremise_iff {p : Pass} {number : Nat} {l : Line} {rule : Option RuleId} :
    p.judgePremise number l = .ok rule ↔ rule = some .premise ∧ l.citations = [] ∧
      (l.opens.isSome = true ∨
        (l.opens = none ∧ l.depth = 0 ∧ onlyPremises p.outline (number - 1) = true)) := by
  unfold judgePremise
  by_cases hc : l.citations = []
  · rw [if_neg (by simp [hc])]
    cases ho : l.opens with
    | some kind =>
      rw [if_pos Option.isSome_some]
      constructor
      · rintro ⟨⟩
        exact ⟨rfl, hc, .inl rfl⟩
      · rintro ⟨rfl, -, -⟩
        rfl
    | none =>
      rw [if_neg (by simp)]
      by_cases hd : l.depth = 0
      · rw [if_neg (by simp [hd])]
        cases onlyPremises p.outline (number - 1) with
        | true => simp [hc, hd, eq_comm]
        | false => simp [Check.refuse]
      · rw [if_pos hd]
        simp [Check.refuse, hd]
  · rw [if_pos (by simp [hc])]
    simp [Check.refuse, hc]

theorem judgeDefinitions_iff {p : Pass} {done : List Diagnostic} {number : Nat}
    {sentence : Sentence} {j : Justification} {rule : RuleId} {found : Option RuleId} :
    p.judgeDefinitions done number sentence j rule = .ok found ↔
      ∃ d, Catalog.definitionOf? rule = some d ∧ d.ruleset ∈ p.config.rulesets ∧
        found = some d.rule ∧ p.applyDefinition done number sentence j.citations d = .ok () := by
  unfold judgeDefinitions
  rw [Catalog.definitionsFor_rulesets]
  cases hd : Catalog.definitionOf? rule with
  | none => simp [Check.refuse]
  | some d =>
    by_cases hset : d.ruleset ∈ p.config.rulesets
    · simp only [if_pos hset]
      split
      · rename_i a ha
        simp [hset, ha, eq_comm]
      · rename_i e he
        simp [applyFirst, he]
      · rename_i m hm
        simp [hm]
    · simp [hset, Check.refuse]

theorem judgeRule_iff {p : Pass} {done : List Diagnostic} {number : Nat} {l : Line}
    {sentence : Sentence} {j : Justification} (hl : l.reading = .ok sentence)
    (hs : sentence ≠ .marker) (hj : l.justification = .ok j) {found : Option RuleId} :
    p.judgeRule done number l sentence j = .ok found ↔ p.Accepted done number l found := by
  have hcites : l.citations = j.citations := by simp [Line.citations, hj]
  unfold judgeRule
  constructor
  · intro h
    split at h
    · cases h
    · rename_i hlook
      obtain ⟨rfl, hc, hopens | ⟨ho, hd, honly⟩⟩ := judgePremise_iff.mp h
      · exact .assumption hl hs hopens (.inr ⟨j, hj, hlook, hcites ▸ hc⟩)
      · exact .premise hl hs hj hlook (hcites ▸ hc) ho hd honly
    · rename_i rule hne hlook
      split at h
      · cases h
      · rename_i ho
        rw [Bool.not_eq_true, Option.isSome_eq_false_iff, Option.isNone_iff_eq_none] at ho
        split at h
        · rename_i hph
          subst hph
          cases h
          exact .placeholder hl hs hj hlook ho
        · rename_i hph
          obtain ⟨d, hd, hset, rfl, happ⟩ := judgeDefinitions_iff.mp h
          refine .rule hl hs hj hlook ?_ hph ho hd hset happ
          rintro rfl
          exact hne rfl
  · intro h
    cases h with
    | marker hm _ =>
      rw [hl] at hm
      cases hm
      exact absurd rfl hs
    | assumption _ _ hopens hjust =>
      obtain hmiss | ⟨j', hj', hlook, hc⟩ := hjust
      · rw [hj] at hmiss
        cases hmiss
      · rw [hj] at hj'
        cases hj'
        rw [hlook]
        exact judgePremise_iff.mpr ⟨rfl, hcites.trans hc, .inl hopens⟩
    | premise _ _ hj' hlook hc ho hd honly =>
      rw [hj] at hj'
      cases hj'
      rw [hlook]
      exact judgePremise_iff.mpr ⟨rfl, hcites.trans hc, .inr ⟨ho, hd, honly⟩⟩
    | placeholder _ _ hj' hlook ho =>
      rw [hj] at hj'
      cases hj'
      simp [hlook, ho]
    | @rule s' j' rule d hl' _ hj' hlook hprem hph ho hd hset happ =>
      rw [hl] at hl'
      cases hl'
      rw [hj] at hj'
      cases hj'
      rw [hlook]
      cases rule <;> first
        | exact absurd rfl hprem
        | exact absurd rfl hph
        | simpa [ho] using judgeDefinitions_iff.mpr ⟨d, hd, hset, rfl, happ⟩

theorem judge_sentence {p : Pass} {done : List Diagnostic} {number : Nat} {l : Line} {s : Sentence}
    (hl : l.reading = .ok s) (hs : s ≠ .marker) :
    p.judge done number l =
      match l.justification with
      | .error .missingRule =>
        if l.opens.isSome then .ok (some .premise)
        else Check.refuse (.justification .missingRule) none
      | .error e => Check.refuse (.justification e) e.index
      | .ok j => p.judgeRule done number l s j := by
  unfold judge
  rw [hl]
  cases s <;> first | rfl | exact absurd rfl hs

/-- The judgement on a line accepts it exactly in the ways listed. -/
theorem judge_iff {p : Pass} {done : List Diagnostic} {number : Nat} {l : Line}
    {found : Option RuleId} :
    p.judge done number l = .ok found ↔ p.Accepted done number l found := by
  cases hl : l.reading with
  | error e =>
    unfold judge
    rw [hl]
    constructor
    · intro h; cases h
    · intro h
      cases h <;> simp_all
  | ok s =>
    by_cases hs : s = .marker
    · subst hs
      unfold judge
      rw [hl]
      constructor
      · intro h
        exact .marker hl h
      · intro h
        cases h with
        | marker _ h => exact h
        | assumption hl' hs | premise hl' hs | placeholder hl' hs | rule hl' hs =>
          rw [hl] at hl'
          cases hl'
          exact absurd rfl hs
    · rw [judge_sentence hl hs]
      cases hj : l.justification with
      | ok j => exact judgeRule_iff hl hs hj
      | error e =>
        constructor
        · intro h
          cases e with
          | missingRule =>
            simp only at h
            split at h
            · rename_i ho
              cases h
              exact .assumption hl hs ho (.inl hj)
            · cases h
          | notCitation i t => cases h
          | backwards i t => cases h
        · intro h
          cases h with
          | marker hm _ =>
            rw [hl] at hm
            cases hm
            exact absurd rfl hs
          | assumption _ _ ho hjust =>
            obtain hmiss | ⟨j, hj', -⟩ := hjust
            · rw [hj] at hmiss
              cases hmiss
              simp [ho]
            · rw [hj] at hj'
              cases hj'
          | premise _ _ hj' | placeholder _ _ hj' | rule _ _ hj' =>
            rw [hj] at hj'
            cases hj'

theorem verdict_valid_iff {p : Pass} {done : List Diagnostic} {number : Nat} {l : Line}
    {found : Option RuleId} :
    p.verdict done number l = .ok (.valid found) ↔ p.Accepted done number l found := by
  rw [← judge_iff]
  unfold verdict
  cases p.judge done number l with
  | ok rule => simp
  | error e =>
    cases e with
    | refused e => simp
    | missing m => simp

theorem verdict_invalid_iff {p : Pass} {done : List Diagnostic} {number : Nat} {l : Line}
    {label : Option Text} {e : CheckError} : p.verdict done number l = .ok (.invalid label e) ↔
      l.ruleLabel? = label ∧ p.judge done number l = .error (.refused e) := by
  unfold verdict
  cases p.judge done number l with
  | ok rule => simp
  | error f =>
    cases f with
    | refused e' => simp
    | missing m => simp

theorem verdict_not_unchecked {p : Pass} {done : List Diagnostic} {number : Nat} {l : Line} :
    p.verdict done number l ≠ .ok .unchecked := by
  unfold verdict
  split <;> simp

/-! ## All lines -/

/-- Diagnostics reached by a pass: those of the first lines, each given after the ones before it. -/
structure Reached (p : Pass) (done : List Diagnostic) : Prop where
  bound : done.length ≤ p.outline.size
  entry : ∀ (i : Nat) (d : Diagnostic), done[i]? = some d → d.number = i + 1 ∧
    ∃ l, p.outline.lines[i]? = some l ∧ p.verdict (done.take i) (i + 1) l = .ok d.verdict

theorem reached_nil (p : Pass) : p.Reached [] :=
  ⟨Nat.zero_le _, fun i d h => by simp at h⟩

theorem Reached.concat {p : Pass} {done : List Diagnostic} (hdone : p.Reached done) {l : Line}
    {v : Verdict} (hl : p.outline.lines[done.length]? = some l)
    (hv : p.verdict done (done.length + 1) l = .ok v) :
    p.Reached (done ++ [⟨done.length + 1, v⟩]) := by
  obtain ⟨hlt, -⟩ := List.getElem?_eq_some_iff.mp hl
  refine ⟨by rw [List.length_append]; exact hlt, ?_⟩
  intro i d hd
  rw [List.getElem?_append] at hd
  split at hd
  · rename_i hi
    obtain ⟨hnum, l', hl', hv'⟩ := hdone.entry i d hd
    rw [List.take_append_of_le_length (by omega)]
    exact ⟨hnum, l', hl', hv'⟩
  · rename_i hi
    obtain ⟨hlast, rfl⟩ := List.getElem?_eq_some_iff.mp hd
    have e : i = done.length := by
      rw [List.length_singleton] at hlast
      omega
    subst e
    rw [List.take_left]
    simpa using ⟨l, hl, hv⟩

/-- A pass that goes on from reached diagnostics ends with those of all lines. -/
theorem continueWith_reached {p : Pass} {done ds : List Diagnostic} {rest : List Line}
    (hdone : p.Reached done) (hrest : p.outline.lines.drop done.length = rest)
    (h : p.continueWith done rest = .ok ds) : p.Reached ds ∧ ds.length = p.outline.size := by
  induction rest generalizing done with
  | nil =>
    cases h
    have hlen := List.drop_eq_nil_iff.mp hrest
    have := hdone.bound
    unfold Outline.size at this ⊢
    exact ⟨hdone, by omega⟩
  | cons l rest ih =>
    rw [continueWith] at h
    obtain ⟨v, hv, h⟩ := bind_ok.mp h
    have hl : p.outline.lines[done.length]? = some l := by
      rw [← List.head?_drop, hrest, List.head?_cons]
    refine ih (hdone.concat hl hv) ?_ h
    rw [List.length_append, List.length_singleton, ← List.drop_drop, hrest]
    rfl

theorem run_reached {p : Pass} {ds : List Diagnostic} (h : p.run = .ok ds) :
    p.Reached ds ∧ ds.length = p.outline.size :=
  continueWith_reached p.reached_nil rfl h

theorem verdictAt_ok {done : List Diagnostic} {n : Nat} {v : Verdict} :
    verdictAt done n = .ok v ↔ n ≠ 0 ∧ ∃ d, done[n - 1]? = some d ∧ d.verdict = v := by
  unfold verdictAt
  by_cases hn : n = 0
  · simp [hn]
  · rw [if_neg hn]
    cases done[n - 1]? with
    | none => simp
    | some d => simp [hn]

theorem Reached.line_verdict {p : Pass} {done : List Diagnostic} (hdone : p.Reached done) {n : Nat}
    {v : Verdict} (h : verdictAt done n = .ok v) :
    ∃ l, p.outline.line? n = some l ∧ p.verdict (done.take (n - 1)) n l = .ok v := by
  obtain ⟨hn, d, hd, rfl⟩ := verdictAt_ok.mp h
  obtain ⟨-, l, hl, hv⟩ := hdone.entry _ d hd
  have e : n - 1 + 1 = n := by omega
  rw [e] at hv
  exact ⟨l, by rw [Outline.line?, if_neg hn, hl], hv⟩

theorem verdictAt_take {done : List Diagnostic} {k n : Nat} :
    verdictAt (done.take k) n = if n ≤ k then verdictAt done n else .error (.verdict n) := by
  unfold verdictAt
  by_cases hn : n = 0
  · simp [hn]
  · rw [if_neg hn, if_neg hn, List.getElem?_take]
    by_cases hk : n ≤ k
    · rw [if_pos (by omega), if_pos hk]
    · rw [if_neg (by omega), if_neg hk]

theorem sustained_take {done : List Diagnostic} {k n : Nat} :
    Sustained (done.take k) n ↔ n ≤ k ∧ Sustained done n := by
  unfold Sustained
  rw [verdictAt_take]
  split
  · rename_i hle
    exact ⟨fun h => ⟨hle, h⟩, And.right⟩
  · rename_i hlt
    constructor
    · rintro ⟨v, hv, -⟩
      cases hv
    · rintro ⟨hle, -⟩
      exact absurd hle hlt

theorem verdictAt_total {done : List Diagnostic} {n : Nat} (h0 : n ≠ 0) (hn : n ≤ done.length) :
    ∃ v, verdictAt done n = .ok v := by
  have hd : done[n - 1]? = some (done.get ⟨n - 1, by omega⟩) := List.getElem?_eq_getElem (by omega)
  exact ⟨_, verdictAt_ok.mpr ⟨h0, _, hd, rfl⟩⟩

/-- A reached diagnostic that is not invalid is valid, in one of the ways to be so. -/
theorem Reached.sustained {p : Pass} {done : List Diagnostic} (hdone : p.Reached done) {n : Nat}
    (h : Sustained done n) : ∃ l found, p.outline.line? n = some l ∧
      verdictAt done n = .ok (.valid found) ∧ p.Accepted (done.take (n - 1)) n l found := by
  obtain ⟨v, hv, hinv⟩ := h
  obtain ⟨l, hl, hver⟩ := hdone.line_verdict hv
  cases v with
  | unchecked => exact absurd hver verdict_not_unchecked
  | valid found => exact ⟨l, found, hl, hv, verdict_valid_iff.mp hver⟩
  | invalid label e => cases hinv

/-- Where the valid lines before a line are valid after other verdicts too, all that it may use is
still there. -/
theorem Reached.sustained_before {p : Pass} {ds ds' : List Diagnostic} (hds : p.Reached ds)
    {n : Nat} (hn : n ≠ 0)
    (h : ∀ k < n, ∀ found, verdictAt ds k = .ok (.valid found) →
      verdictAt ds' k = .ok (.valid found))
    {k : Nat} (hk : Sustained (ds.take (n - 1)) k) : Sustained (ds'.take (n - 1)) k := by
  obtain ⟨hle, hk⟩ := sustained_take.mp hk
  obtain ⟨-, found, -, hv, -⟩ := hds.sustained hk
  exact sustained_take.mpr ⟨hle, _, h k (by omega) found hv, rfl⟩

end Pass

end ModalFitch
