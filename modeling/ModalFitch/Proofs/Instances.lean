import ModalFitch.Proofs.Coverage
import ModalFitch.Proofs.Interference
import ModalFitch.Proofs.Substitution

/-! The verdicts on the instances of a proof.

A substitution keeps the layout, the labels and the lone boxes of a proof. What the citations bring
becomes its instance, so a rule that accepts a line accepts its instance. A renaming can be undone,
so under it the lines that are not accepted are refused for the same reasons.

* `Outline.Instance`: an outline and the one with the instances of its lines.
* `Pass.resolveAll_substitute`: the citations of an instance bring the instances.
* `Pass.Accepted.substitute`: an accepted line is accepted as an instance.
* `Pass.judge_rename`: under a renaming the lines are judged alike.
* `substitution_keeps_valid`: the reports of whole proofs. -/

namespace ModalFitch
set_option autoImplicit false

variable {θ : Substitution}

/-! ## Outlines -/

namespace Line

/-- The line with the instance of its sentence, if it has one. -/
def substitute (θ : Substitution) (l : Line) : Line :=
  { l with reading := l.reading.map (Sentence.substitute θ) }

/-- The atoms of the sentence, if the line has one. -/
def atoms (l : Line) : List String := (l.sentence?.map Sentence.atoms).getD []

theorem mem_atoms {l : Line} {a : String} :
    a ∈ l.atoms ↔ ∃ s, l.sentence? = some s ∧ a ∈ s.atoms := by
  unfold atoms
  cases l.sentence? with
  | none => simp
  | some s => simp

theorem sentence?_substitute (l : Line) :
    (l.substitute θ).sentence? = l.sentence?.map (Sentence.substitute θ) := by
  unfold sentence? substitute
  cases l.reading <;> rfl

theorem isMarker_substitute (hθ : θ.Plain) (l : Line) :
    (l.substitute θ).isMarker = l.isMarker := by
  rw [Bool.eq_iff_iff, isMarker_iff, isMarker_iff]
  unfold substitute
  cases l.reading with
  | error e => rfl
  | ok s =>
    simp only [Except.map, Except.ok.injEq]
    exact Sentence.substitute_eq_marker hθ

theorem substitute_congr {θ' : Substitution} {l : Line} (h : ∀ a ∈ l.atoms, θ a = θ' a) :
    l.substitute θ = l.substitute θ' := by
  unfold substitute
  cases hread : l.reading with
  | error e => rfl
  | ok s =>
    have hs : ∀ a ∈ s.atoms, θ a = θ' a :=
      fun a ha => h a (mem_atoms.mpr ⟨s, by rw [sentence?, hread]; rfl, ha⟩)
    simp only [Except.map, Sentence.substitute_congr hs]

end Line

namespace Outline

/-- Two outlines with one layout, of which the second has the instances of the lines of the
first. -/
structure Instance (θ : Substitution) (o o' : Outline) : Prop where
  plain : θ.Plain
  alike : o.Alike o'
  lines : o'.lines = o.lines.map (Line.substitute θ)

namespace Instance

variable {o o' : Outline} (e : Instance θ o o')
include e

theorem line?_eq (n : Nat) : o'.line? n = (o.line? n).map (Line.substitute θ) := by
  unfold line?
  rw [e.lines, List.getElem?_map]
  split <;> rfl

theorem line_eq (n : Nat) : o'.line n = (o.line n).map (Line.substitute θ) := by
  unfold line
  rw [e.line?_eq]
  cases o.line? n <;> rfl

theorem sentenceAt?_eq (n : Nat) :
    o'.sentenceAt? n = (o.sentenceAt? n).map (Sentence.substitute θ) := by
  unfold sentenceAt?
  rw [e.line?_eq]
  cases o.line? n with
  | none => rfl
  | some l => exact l.sentence?_substitute

theorem sameLabel (n : Nat) : Pass.SameLabel o o' n := by
  unfold Pass.SameLabel
  rw [e.line?_eq, Option.map_map]
  rfl

theorem summary_eq (s : Scope) : o'.summary s = (o.summary s).map (Summary.substitute θ) := by
  unfold summary
  rw [e.line_eq]
  cases o.line s.first with
  | error m => rfl
  | ok opener =>
    have hside : ∀ (c : Prop) [Decidable c] (x : Option Sentence),
        (if c then none else x.map (Sentence.substitute θ)) =
          (if c then none else x).map (Sentence.substitute θ) := by
      intro c _ x
      split <;> rfl
    simp only [Except.map, bind, Except.bind, Line.isMarker_substitute e.plain,
      Line.sentence?_substitute, e.sentenceAt?_eq, hside]
    cases s.items.getLast? with
    | none => rfl
    | some item =>
      cases item with
      | scope id => rfl
      | line n => rfl

theorem onlyPremises_eq (count : Nat) :
    Pass.onlyPremises o' count = Pass.onlyPremises o count := by
  unfold Pass.onlyPremises
  rw [e.lines, ← List.map_take, List.all_map]
  rfl

end Instance

theorem Nested.substituted {o o' : Outline} (ho : o.Nested) (hθ : θ.Plain) {goal : Option Goal}
    {revision : Nat} (hbuild : build (o.lines.map (Line.substitute θ)) goal revision = .ok o') :
    o.Instance θ o' := by
  obtain ⟨-, hlines, -, -⟩ := build_cases hbuild
  have hbare : (o.lines.map (Line.substitute θ)).map Line.bare = o.lines.map Line.bare := by
    rw [List.map_map]
    rfl
  obtain ⟨hscopes, hhomes⟩ := build_shape hbare ho hbuild
  refine ⟨hθ, ⟨hscopes, hhomes, ?_, ?_⟩, hlines⟩
  · unfold size
    rw [hlines, List.length_map]
  · intro s _ _
    unfold isMarkerAt line?
    rw [hlines, List.getElem?_map]
    split
    · rfl
    · cases o.lines[s.first - 1]? with
      | none => rfl
      | some l => exact l.isMarker_substitute hθ

end Outline

/-! ## Citations -/

theorem bind_map {ε α β γ : Type} {x : Except ε α} {f : α → Except ε β} {f' : α → Except ε γ}
    {g : β → γ} (h : ∀ a, f' a = (f a).map g) : (x >>= f') = (x >>= f).map g := by
  cases x with
  | error e => rfl
  | ok a => exact h a

namespace Pass

open Check

section Instance

variable {o o' : Outline} {config : Config} {t : WorldTree} (e : o.Instance θ o')
include e

theorem resolveSubproof_substitute (number : Nat) (index : Int) (c : Citation) :
    (Pass.mk o' config t).resolveSubproof number index c =
      ((Pass.mk o config t).resolveSubproof number index c).map (Summary.substitute θ) := by
  unfold resolveSubproof
  simp only [worldOf_eq e.alike, e.alike.subproofVisible_eq, e.summary_eq, Int.natCast_nonneg,
    if_true]
  rw [e.alike.subproofOf_eq]
  cases c.stop.bind (o.subproofAt c.start) with
  | none => rfl
  | some s =>
    apply bind_map
    intro visible
    cases visible with
    | false => rfl
    | true =>
      apply bind_map
      intro around
      apply bind_map
      intro here
      by_cases hw : around = here
      · rw [if_pos hw, if_pos hw]
        cases o.summary s <;> rfl
      · rw [if_neg hw, if_neg hw]
        rfl

theorem resolve_substitute (number : Nat) (transfer : Transfer) (index : Int) (c : Citation) :
    (Pass.mk o' config t).resolve number transfer index c =
      ((Pass.mk o config t).resolve number transfer index c).map
        (Option.map (Material.substitute θ)) := by
  unfold resolve
  simp only [resolveSubproof_substitute e, e.alike.hasLine_eq, resolveWithin_eq e.alike,
    resolveAcross_eq e.alike, e.line_eq]
  have hline : (do
      let l ← lift ((o.line c.start).map (Line.substitute θ))
      return l.sentence?.map Material.sentence : Check (Option Material)) =
      (do
        let l ← lift (o.line c.start)
        return l.sentence?.map Material.sentence : Check (Option Material)).map
          (Option.map (Material.substitute θ)) := by
    cases o.line c.start with
    | error m => rfl
    | ok l =>
      show Except.ok ((l.substitute θ).sentence?.map Material.sentence) =
        Except.ok ((l.sentence?.map Material.sentence).map (Material.substitute θ))
      rw [Line.sentence?_substitute]
      cases l.sentence? <;> rfl
  cases c.isRange with
  | true =>
    simp only [if_true]
    cases (Pass.mk o config t).resolveSubproof number index c <;> rfl
  | false =>
    simp only [Bool.false_eq_true, if_false]
    cases o.hasLine c.start with
    | false => rfl
    | true =>
      by_cases hle : number ≤ c.start
      · simp only [if_pos hle]
        rfl
      · simp only [if_neg hle]
        cases transfer with
        | within => exact bind_map fun _ => hline
        | across => exact bind_map fun _ => hline

theorem resolveAll_substitute (number : Nat) (transfer : Transfer) (index : Int)
    (cs : List Citation) :
    (Pass.mk o' config t).resolveAll number transfer index cs =
      ((Pass.mk o config t).resolveAll number transfer index cs).map
        (List.map (Option.map (Material.substitute θ))) := by
  induction cs generalizing index with
  | nil => rfl
  | cons c cs ih =>
    rw [resolveAll, resolveAll, resolve_substitute e, ih]
    cases (Pass.mk o config t).resolve number transfer index c with
    | error f => rfl
    | ok m =>
      cases (Pass.mk o config t).resolveAll number transfer (index + 1) cs with
      | error f => rfl
      | ok ms => rfl

end Instance

theorem present_substitute (cs : List Citation) (ms : List (Option Material)) :
    present cs (ms.map (Option.map (Material.substitute θ))) =
      (present cs ms).map (List.map (Material.substitute θ)) := by
  unfold present
  induction cs generalizing ms with
  | nil => rfl
  | cons c cs ih =>
    cases ms with
    | nil => rfl
    | cons m ms =>
      rw [List.map_cons, List.zip_cons_cons, List.zip_cons_cons, List.mapM_cons, List.mapM_cons, ih]
      cases m with
      | none => rfl
      | some m =>
        generalize List.mapM (m := Except CheckFailure) _ (cs.zip ms) = rest
        cases rest <;> rfl

/-! ## Accepted lines -/

theorem definition_atomless {rule : RuleId} {d : RuleDefinition}
    (h : Catalog.definitionOf? rule = some d) : ∀ s ∈ d.schemas, s.atomless = true :=
  Catalog.definitions_atomless (List.mem_of_find?_eq_some h)

section Instance

variable {o o' : Outline} {config : Config} {t : WorldTree} (e : o.Instance θ o')
  (g : (Pass.mk o config t).Grounded) {done done' : List Diagnostic} {n : Nat}
include e g

theorem applyDefinition_substitute (hdone : ∀ k, Sustained done k → Sustained done' k)
    {s : Sentence} {cs : List Citation} {d : RuleDefinition}
    (hd : ∀ s ∈ d.schemas, s.atomless = true)
    (h : (Pass.mk o config t).applyDefinition done n s cs d = .ok ()) :
    (Pass.mk o' config t).applyDefinition done' n (s.substitute θ) cs d = .ok () := by
  unfold applyDefinition at h ⊢
  obtain ⟨resolved, hres, h⟩ := bind_ok.mp h
  obtain ⟨⟨⟩, hdep, h⟩ := bind_ok.mp h
  obtain ⟨materials, hmat, h⟩ := bind_ok.mp h
  obtain ⟨b, hb, h⟩ := bind_ok.mp h
  have hdep' : checkDependencies done' 0 cs = .ok () := by
    rw [checkDependencies_iff] at hdep ⊢
    exact fun c hc k h1 h2 => hdone k (hdep c hc k h1 h2)
  obtain ⟨b', hb'⟩ := d.apply_substitute e.plain hd ⟨b, mapError_ok.mp hb⟩
  rw [resolveAll_substitute e, hres, hdep',
    checkClosure_eq e.alike g fun _ _ k _ _ => e.sameLabel k]
  simp only [Except.map, bind, Except.bind, present_substitute, hmat, hb', Except.mapError]
  exact h

theorem Accepted.substitute (hdone : ∀ k, Sustained done k → Sustained done' k) {l : Line}
    {found : Option RuleId} (h : (Pass.mk o config t).Accepted done n l found) :
    (Pass.mk o' config t).Accepted done' n (l.substitute θ) found := by
  have hreading : ∀ s, l.reading = .ok s → (l.substitute θ).reading = .ok (s.substitute θ) := by
    intro s hs
    rw [Line.substitute, hs]
    rfl
  have hmarker : ∀ s : Sentence, s ≠ .marker → s.substitute θ ≠ .marker :=
    fun s hs => mt (Sentence.substitute_eq_marker e.plain).mp hs
  cases h with
  | marker h1 h2 => exact .marker (hreading _ h1) h2
  | assumption h1 h2 h3 h4 => exact .assumption (hreading _ h1) (hmarker _ h2) h3 h4
  | premise h1 h2 h3 h4 h5 h6 h7 h8 =>
    exact .premise (hreading _ h1) (hmarker _ h2) h3 h4 h5 h6 h7
      ((e.onlyPremises_eq (n - 1)).trans h8)
  | placeholder h1 h2 h3 h4 h5 => exact .placeholder (hreading _ h1) (hmarker _ h2) h3 h4 h5
  | rule h1 h2 h3 h4 h5 h6 h7 h8 h9 h10 =>
    exact .rule (hreading _ h1) (hmarker _ h2) h3 h4 h5 h6 h7 h8 h9
      (applyDefinition_substitute e g hdone (definition_atomless h8) h10)

end Instance

/-! ## Refused lines -/

end Pass

/-- What a failure says apart from sentences: the reason of a refusal and the citation that it
points at, or what is missing. -/
def CheckFailure.gist : CheckFailure → (Reason × Option Int) ⊕ Missing
  | .refused e => .inl (e.reason, e.index)
  | .missing m => .inr m

namespace Check

/-- The outcome of a step, with the gist of a failure. -/
def gist {α : Type} (x : Check α) : Except ((Reason × Option Int) ⊕ Missing) α :=
  x.mapError CheckFailure.gist

theorem gist_cases {α : Type} {x y : Check α} (h : x.gist = y.gist) :
    (∃ a, x = .ok a ∧ y = .ok a) ∨ (∃ m, x = .error (.missing m) ∧ y = .error (.missing m)) ∨
      ∃ e e' : CheckError, x = .error (.refused e) ∧ y = .error (.refused e') ∧
        e.reason = e'.reason ∧ e.index = e'.index := by
  unfold gist at h
  cases x with
  | ok a =>
    cases y with
    | ok b =>
      cases h
      exact .inl ⟨a, rfl, rfl⟩
    | error f => cases h
  | error f =>
    cases y with
    | ok b => cases h
    | error f' =>
      have hf : f.gist = f'.gist := Except.error.inj h
      cases f with
      | missing m =>
        cases f' with
        | missing m' =>
          cases hf
          exact .inr (.inl ⟨m, rfl, rfl⟩)
        | refused e' => cases hf
      | refused e =>
        cases f' with
        | missing m' => cases hf
        | refused e' =>
          obtain ⟨hreason, hindex⟩ := Prod.mk.inj (Sum.inl.inj hf)
          exact .inr (.inr ⟨e, e', rfl, rfl, hreason, hindex⟩)

end Check

/-- Two verdicts that differ at most in the sentences of an error. -/
structure Verdict.Resembles (v v' : Verdict) : Prop where
  status : v'.status = v.status
  rule : v'.ruleText = v.ruleText
  reason : v'.error?.map CheckError.reason = v.error?.map CheckError.reason
  index : v'.error?.bind CheckError.index = v.error?.bind CheckError.index

namespace Pass

section Renaming

variable {o o' : Outline} {config : Config} {t : WorldTree} (e : o.Instance θ o')
  (g : (Pass.mk o config t).Grounded) (hθ : θ.Renames) {done done' : List Diagnostic}
  (hdone : ∀ k,
    (verdictAt done' k).map Verdict.isInvalid = (verdictAt done k).map Verdict.isInvalid)
  {n : Nat}
include e g hθ hdone

theorem applyDefinition_rename {d : RuleDefinition} (hd : ∀ s ∈ d.schemas, s.atomless = true)
    (s : Sentence) (cs : List Citation) :
    Check.gist ((Pass.mk o' config t).applyDefinition done' n (s.substitute θ) cs d) =
      Check.gist ((Pass.mk o config t).applyDefinition done n s cs d) := by
  unfold applyDefinition
  rw [resolveAll_substitute e, checkDependencies_eq fun _ _ k _ _ => hdone k,
    checkClosure_eq e.alike g fun _ _ k _ _ => e.sameLabel k]
  cases (Pass.mk o config t).resolveAll n d.transfer 0 cs with
  | error f => rfl
  | ok resolved =>
    cases checkDependencies done 0 cs with
    | error f => rfl
    | ok _ =>
      simp only [Except.map, bind, Except.bind, present_substitute]
      cases present cs resolved with
      | error f => rfl
      | ok materials =>
        have happly := d.apply_rename hθ hd materials s
        dsimp only
        cases hb : d.apply materials s with
        | error f =>
          cases hb' : d.apply (materials.map (Material.substitute θ)) (s.substitute θ) with
          | error f' =>
            rw [hb, hb'] at happly
            exact congrArg (fun x => Except.error (Sum.inl x)) (Except.error.inj happly)
          | ok b' =>
            rw [hb, hb'] at happly
            cases happly
        | ok b =>
          cases hb' : d.apply (materials.map (Material.substitute θ)) (s.substitute θ) with
          | error f' =>
            rw [hb, hb'] at happly
            cases happly
          | ok b' => rfl

theorem judgeDefinitions_rename (s : Sentence) (j : Justification) (rule : RuleId) :
    Check.gist ((Pass.mk o' config t).judgeDefinitions done' n (s.substitute θ) j rule) =
      Check.gist ((Pass.mk o config t).judgeDefinitions done n s j rule) := by
  unfold judgeDefinitions
  rw [Catalog.definitionsFor_rulesets]
  cases hdef : Catalog.definitionOf? rule with
  | none => rfl
  | some d =>
    by_cases hset : d.ruleset ∈ config.rulesets
    · simp only [if_pos hset]
      have happ := applyDefinition_rename e g hθ hdone (definition_atomless hdef) s j.citations
        (n := n)
      rcases Check.gist_cases happ with ⟨_, h', h⟩ | ⟨m, h', h⟩ | ⟨f', f, h', h, hr, hi⟩
      · rw [h', h]
      · rw [h', h]
      · rw [h', h]
        exact congrArg (fun x => Except.error (Sum.inl x)) (Prod.ext hr hi)
    · simp only [if_neg hset]

theorem judge_rename (l : Line) :
    Check.gist ((Pass.mk o' config t).judge done' n (l.substitute θ)) =
      Check.gist ((Pass.mk o config t).judge done n l) := by
  cases hread : l.reading with
  | error f =>
    have hread' : (l.substitute θ).reading = .error f := by
      rw [Line.substitute, hread]
      rfl
    simp only [judge, hread, hread']
  | ok s =>
    have hread' : (l.substitute θ).reading = .ok (s.substitute θ) := by
      rw [Line.substitute, hread]
      rfl
    by_cases hs : s = .marker
    · subst hs
      simp only [judge, hread, hread', Sentence.substitute]
      rfl
    · have hs' : s.substitute θ ≠ .marker := mt (Sentence.substitute_eq_marker e.plain).mp hs
      rw [judge_sentence hread' hs', judge_sentence hread hs]
      have hj' : (l.substitute θ).justification = l.justification := rfl
      rw [hj']
      cases hj : l.justification with
      | error f => cases f <;> rfl
      | ok j =>
        simp only [judgeRule]
        split
        · rfl
        · unfold judgePremise
          rw [e.onlyPremises_eq (n - 1)]
          rfl
        · show Check.gist (if l.opens.isSome then _ else if _ then _ else _) = _
          split
          · rfl
          · split
            · rfl
            · exact judgeDefinitions_rename e g hθ hdone s j _

theorem verdict_rename {l : Line} {v v' : Verdict}
    (hv : (Pass.mk o config t).verdict done n l = .ok v)
    (hv' : (Pass.mk o' config t).verdict done' n (l.substitute θ) = .ok v') : v.Resembles v' := by
  unfold verdict at hv hv'
  rcases Check.gist_cases (judge_rename e g hθ hdone l (n := n)) with
    ⟨found, h', h⟩ | ⟨m, h', h⟩ | ⟨f', f, h', h, hr, hi⟩
  · rw [h] at hv
    rw [h'] at hv'
    cases hv
    cases hv'
    exact ⟨rfl, rfl, rfl, rfl⟩
  · rw [h] at hv
    cases hv
  · rw [h] at hv
    rw [h'] at hv'
    cases hv
    cases hv'
    exact ⟨rfl, rfl, congrArg some hr, hi⟩

end Renaming

end Pass

/-! ## Reports -/

namespace Report.From

variable {o o' : Outline} {config : Config} {t : WorldTree} {r r' : Report}
  (e : o.Instance θ o') (f : r.From ⟨o, config, t⟩) (f' : r'.From ⟨o', config, t⟩)
include e f f'

theorem valid_substitute {n : Nat} {found : Option RuleId}
    (hv : Pass.verdictAt r.diagnostics n = .ok (.valid found)) :
    Pass.verdictAt r'.diagnostics n = .ok (.valid found) := by
  induction n using Nat.strongRecOn generalizing found with
  | _ n ih =>
    obtain ⟨l, hl, -⟩ := f.reached.line_verdict hv
    have hn := (Pass.verdictAt_ok.mp hv).1
    have hl' : o'.line? n = some (l.substitute θ) := by
      rw [e.line?_eq, hl]
      rfl
    have hdone : ∀ k, Pass.Sustained (r.diagnostics.take (n - 1)) k →
        Pass.Sustained (r'.diagnostics.take (n - 1)) k :=
      fun _ => f.reached.sustained_before hn fun k hk found => ih k hk
    rw [f.valid_iff hl] at hv
    rw [f'.valid_iff hl']
    exact hv.substitute e f.grounded hdone

theorem verdict_rename (hθ : θ.Renames) {n : Nat} {v : Verdict}
    (hv : Pass.verdictAt r.diagnostics n = .ok v) :
    ∃ v', Pass.verdictAt r'.diagnostics n = .ok v' ∧ v.Resembles v' := by
  induction n using Nat.strongRecOn generalizing v with
  | _ n ih =>
    obtain ⟨l, hl, hver⟩ := f.reached.line_verdict hv
    have hl' : o'.line? n = some (l.substitute θ) := by
      rw [e.line?_eq, hl]
      rfl
    have hbounds : 1 ≤ n ∧ n ≤ o.size :=
      Outline.hasLine_bounds.mp (Outline.hasLine_iff.mpr ⟨l, hl⟩)
    have hlen : r.diagnostics.length = o.size := f.complete
    have hdone : ∀ k, (Pass.verdictAt (r'.diagnostics.take (n - 1)) k).map Verdict.isInvalid =
        (Pass.verdictAt (r.diagnostics.take (n - 1)) k).map Verdict.isInvalid := by
      intro k
      rw [Pass.verdictAt_take, Pass.verdictAt_take]
      split
      · by_cases h0 : k = 0
        · subst h0
          rfl
        · obtain ⟨u, hu⟩ : ∃ u, Pass.verdictAt r.diagnostics k = .ok u :=
            Pass.verdictAt_total h0 (by omega)
          obtain ⟨u', hu', hsame⟩ := ih k (by omega) hu
          rw [hu, hu']
          show Except.ok (decide (u'.status = .invalid)) = Except.ok (decide (u.status = .invalid))
          rw [hsame.status]
      · rfl
    obtain ⟨v', hv', hver'⟩ := f'.line_decided hl'
    exact ⟨v', hv', Pass.verdict_rename e f.grounded hθ hdone hver hver'⟩

end Report.From

/-- The instances of the lines of a proof make an outline again, in which the lines that were valid
are valid by the same rules. If the substitution only gives the atoms of the proof other names, all
different, then the lines that were invalid are invalid for the same reasons and point at the same
citations. -/
theorem substitution_keeps_valid {lines : List Line} {goal : Option Goal} {revision : Nat}
    {o : Outline} (h : Outline.build lines goal revision = .ok o)
    (hroot : ∀ l ∈ lines, l.opens ≠ some .root) {θ : Substitution} (hθ : θ.Plain)
    (goal' : Option Goal) (revision' : Nat) (config : Config) :
    ∃ o' r r', Outline.build (lines.map (Line.substitute θ)) goal' revision' = .ok o' ∧
      verify o config = .ok r ∧ verify o' config = .ok r' ∧
      (∀ (n : Nat) d, r.byLine n = .ok d → d.isValid = true → r'.byLine n = .ok d) ∧
      (θ.RenamesOn (lines.flatMap Line.atoms) →
        ∀ (n : Nat) d, r.byLine n = .ok d → ∃ d', r'.byLine n = .ok d' ∧
          d'.status = d.status ∧ d'.verdict.ruleText = d.verdict.ruleText ∧
          d'.verdict.error?.map CheckError.reason = d.verdict.error?.map CheckError.reason ∧
          d'.verdict.error?.bind CheckError.index = d.verdict.error?.bind CheckError.index) := by
  obtain ⟨ho, rfl, -, -⟩ := Outline.build_cases h
  have hshape : (o.lines.map (Line.substitute θ)).map Line.shape = o.lines.map Line.shape := by
    rw [List.map_map]
    rfl
  obtain ⟨o', hbuild⟩ : ∃ o',
      Outline.build (o.lines.map (Line.substitute θ)) goal' revision' = .ok o' :=
    Outline.build_iff_fits.mpr ((fits_shape hshape).mpr ho.fits)
  obtain ⟨ho', hlines, -, -⟩ := Outline.build_cases hbuild
  have e := ho.substituted hθ hbuild
  have hroot' : o'.Rootless := by
    intro k hk
    rw [hlines] at hk
    obtain ⟨l, hl, rfl⟩ := List.mem_map.mp hk
    exact hroot l hl
  obtain ⟨t, r, hr, ht, f⟩ := verify_total ho hroot config
  obtain ⟨t', r', hr', ht', f'⟩ := verify_total ho' hroot' config
  rw [e.alike.worldTree_eq, ht] at ht'
  cases ht'
  refine ⟨o', r, r', hbuild, hr, hr', ?_, ?_⟩
  · rintro n ⟨number, v⟩ hd hvalid
    obtain ⟨hnumber, hv⟩ := f.byLine_iff.mp hd
    cases v with
    | unchecked => cases hvalid
    | invalid label error => cases hvalid
    | valid found => exact f'.byLine_iff.mpr ⟨hnumber, f.valid_substitute e f' hv⟩
  · intro hren n d hd
    -- outside the proof the atoms may be renamed in another way, so that all stay apart
    obtain ⟨θ', hθ', hagree⟩ := hren.exists_renames
    have hsame : o.lines.map (Line.substitute θ) = o.lines.map (Line.substitute θ') := by
      apply List.map_congr_left
      intro l hl
      exact Line.substitute_congr fun a ha => hagree a (List.mem_flatMap.mpr ⟨l, hl, ha⟩)
    rw [hsame] at hbuild
    obtain ⟨hnumber, hv⟩ := f.byLine_iff.mp hd
    obtain ⟨v', hv', hres⟩ := f.verdict_rename (ho.substituted hθ'.plain hbuild) f' hθ' hv
    exact ⟨⟨n, v'⟩, f'.byLine_iff.mpr ⟨rfl, hv'⟩, hres.status, hres.rule, hres.reason, hres.index⟩

/-- A step by each of two rules, and one that does not follow. -/
def detachedLines : List Line :=
  createLines [("P → Q", "PR", 0, none), ("P", "PR", 0, none), ("Q", "→E 1, 2", 0, none),
    ("Q ∧ P", "∧I 2, 3", 0, none), ("P", "∧E 3", 0, none)]

/-- One atom becomes a necessity, the others are negated. -/
def boxing : Substitution := fun a => if a = "P" then .nec (.atom "Q") else .neg (.atom a)

/-- A renaming that keeps two atoms apart, and no more. -/
def shifting : Substitution := fun a => .atom (if a = "P" then "Q" else "R")

/-- The fourth line stays valid as an instance, the fifth is refused alike under other names. -/
theorem substitution_keeps_valid_detached : ∃ o o₁ o₂ r r₁ r₂ d₄ d₅ d₅',
    Outline.build detachedLines none 0 = .ok o ∧
    Outline.build (detachedLines.map (Line.substitute boxing)) none 0 = .ok o₁ ∧
    Outline.build (detachedLines.map (Line.substitute shifting)) none 0 = .ok o₂ ∧
    verify o ⟨none, false⟩ = .ok r ∧ verify o₁ ⟨none, false⟩ = .ok r₁ ∧
    verify o₂ ⟨none, false⟩ = .ok r₂ ∧
    r.byLine 4 = .ok d₄ ∧ d₄.isValid = true ∧ r₁.byLine 4 = .ok d₄ ∧
    r.byLine 5 = .ok d₅ ∧ r₂.byLine 5 = .ok d₅' ∧
    d₅'.verdict.error?.map CheckError.reason = some .noMatchingRule ∧
    d₅'.verdict.error?.bind CheckError.index = some 0 := by
  obtain ⟨o, ho, h⟩ := exists_ok (x := Outline.build detachedLines none 0)
    (p := fun o => (verify o ⟨none, false⟩).toOption.any fun r =>
      ((r.byLine 4).toOption.any Diagnostic.isValid) && (r.byLine 5).toOption.any fun d =>
        d.verdict.error?.map CheckError.reason = some .noMatchingRule &&
          d.verdict.error?.bind CheckError.index = some 0)
    (by decide +kernel)
  obtain ⟨r, hr, h⟩ := exists_ok h
  rw [Bool.and_eq_true] at h
  obtain ⟨d₄, hd₄, hvalid⟩ := exists_ok h.1
  obtain ⟨d₅, hd₅, h₅⟩ := exists_ok h.2
  rw [Bool.and_eq_true, decide_eq_true_iff, decide_eq_true_iff] at h₅
  have hroot : ∀ l ∈ detachedLines, l.opens ≠ some .root := by
    decide +kernel
  have hboxing : boxing.Plain := by
    intro a
    unfold boxing
    split <;> rfl
  have hshifting : shifting.RenamesOn (detachedLines.flatMap Line.atoms) := by
    have hatoms : ∀ a ∈ detachedLines.flatMap Line.atoms, a = "P" ∨ a = "Q" := by
      have hwalk : ∀ l ∈ detachedLines, ∀ s ∈ l.sentence?, ∀ t ∈ s.walk, ∀ a ∈ t.atomName?,
          a = "P" ∨ a = "Q" := by
        decide +kernel
      intro a ha
      obtain ⟨l, hl, ha⟩ := List.mem_flatMap.mp ha
      obtain ⟨s, hs, ha⟩ := Line.mem_atoms.mp ha
      exact hwalk l hl s hs _ (Sentence.mem_atoms.mp ha) a rfl
    refine ⟨fun a => if a = "P" then "Q" else "R", ?_, fun _ _ => rfl⟩
    intro a ha b hb
    rcases hatoms a ha with rfl | rfl <;> rcases hatoms b hb with rfl | rfl <;> decide
  obtain ⟨o₁, r', r₁, hbuild₁, hr', hr₁, hkept, -⟩ :=
    substitution_keeps_valid ho hroot hboxing none 0 ⟨none, false⟩
  cases hr.symm.trans hr'
  obtain ⟨o₂, r', r₂, hbuild₂, hr', hr₂, -, hrenamed⟩ :=
    substitution_keeps_valid ho hroot (θ := shifting) (fun _ => rfl) none 0 ⟨none, false⟩
  cases hr.symm.trans hr'
  obtain ⟨d₅', hd₅', -, -, hreason, hindex⟩ := hrenamed hshifting 5 d₅ hd₅
  exact ⟨o, o₁, o₂, r, r₁, r₂, d₄, d₅, d₅', ho, hbuild₁, hbuild₂, hr, hr₁, hr₂, hd₄, hvalid,
    hkept 4 d₄ hd₄ hvalid, hd₅, hd₅', hreason.trans h₅.1, hindex.trans h₅.2⟩

end ModalFitch
