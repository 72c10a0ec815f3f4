import Mathlib.Data.List.Perm.Basic
import ModalFitch.Proofs.Choices
import ModalFitch.Proofs.Interference

/-! The order of the citations is irrelevant where the rule takes them in any order.

* `RuleDefinition.exists_apply_perm`: such a rule accepts a sentence from materials in any order.
* `Line.Reorders`: a line with its citations in another order.
* `Pass.Accepted.reordered`: one line, after verdicts that accept as much.
* `citation_order_irrelevant`: all lines of a proof, with one of them reordered. -/

namespace ModalFitch
set_option autoImplicit false

/-! ## Rules -/

/-- The places of the materials have no part in the bindings. -/
theorem matchPremises_congr {ps : List Premise} {ms ms' : List (Nat × Material)} {b b' : Bindings}
    (h : matchPremises ps ms b = .ok b') (hsame : ms'.map Prod.snd = ms.map Prod.snd) :
    matchPremises ps ms' b = .ok b' := by
  induction ps generalizing ms ms' b with
  | nil =>
    rw [matchPremises] at h ⊢
    · exact h
    · simp
    · simp
  | cons p ps ih =>
    cases ms with
    | nil =>
      rw [List.map_eq_nil_iff.mp hsame]
      exact h
    | cons e ms =>
      obtain ⟨e', ms', rfl, hmaterial, hrest⟩ := List.map_eq_cons_iff.mp hsame
      rw [matchPremises] at h ⊢
      rw [hmaterial]
      split at h
      · exact ih h hrest
      · cases h

namespace RuleDefinition

variable {d : RuleDefinition}

theorem attempt_congr {s : Schema} {ms ms' : List (Nat × Material)} {sentence : Sentence}
    {b : Bindings} (h : d.attempt s ms sentence = .fits b)
    (hsame : ms'.map Prod.snd = ms.map Prod.snd) : d.attempt s ms' sentence = .fits b := by
  obtain ⟨hpremises, hconcludes⟩ := attempt_fits h
  rw [attempt, matchPremises_congr hpremises hsame]
  exact if_pos hconcludes

/-- A rule that takes its citations in any order accepts a sentence whatever that order is. -/
theorem exists_apply_perm (hd : d.unordered = true) {materials materials' : List Material}
    (hperm : materials'.Perm materials) {sentence : Sentence}
    (h : ∃ b, d.apply materials sentence = .ok b) : ∃ b, d.apply materials' sentence = .ok b := by
  rw [exists_apply_iff, attempts_eq] at h ⊢
  obtain ⟨harity, b, hmem⟩ := h
  obtain ⟨t, ht, hfits⟩ := List.mem_map.mp hmem
  obtain ⟨hs, hlen, hms, -⟩ := mem_trials.mp ht
  have horder : (t.materials.map Prod.snd).Perm materials' := by
    refine ((perm_of_mem_arranged hms).map Prod.snd).trans ?_
    rw [indexed_snd]
    exact hperm.symm
  -- the same materials come in this order also among the orders of the others
  rw [← mem_orders_iff, ← indexed_snd materials', orders_map] at horder
  obtain ⟨ms, hms, hsame⟩ := List.mem_map.mp horder
  refine ⟨by rwa [hperm.length_eq], b, List.mem_map.mpr
    ⟨⟨⟨t.choice.schema, ms.map Prod.fst⟩, t.schema, ms⟩, mem_trials.mpr ?_, ?_⟩⟩
  · exact ⟨hs, hlen.trans hperm.length_eq.symm, by rwa [arranged, if_pos hd], rfl⟩
  · exact attempt_congr hfits hsame

end RuleDefinition

/-! ## Lines -/

/-- The line at the same place with the same sentence and justification, but perhaps for the order
of the citations where its rule takes them in any order. -/
structure Line.Reorders (l l' : Line) : Prop where
  depth : l'.depth = l.depth
  opens : l'.opens = l.opens
  reading : l'.reading = l.reading
  justification : l'.justification = l.justification ∨ ∃ label cs cs' rule d,
    l.justification = .ok ⟨label, cs⟩ ∧ l'.justification = .ok ⟨label, cs'⟩ ∧ cs'.Perm cs ∧
    RuleId.lookup label = some rule ∧ Catalog.definitionOf? rule = some d ∧ d.unordered = true

namespace Line.Reorders

variable {l l' : Line}

theorem refl (l : Line) : l.Reorders l := ⟨rfl, rfl, rfl, .inl rfl⟩

theorem symm (h : l.Reorders l') : l'.Reorders l := by
  refine ⟨h.depth.symm, h.opens.symm, h.reading.symm, ?_⟩
  rcases h.justification with e | ⟨label, cs, cs', rule, d, hj, hj', hperm, hd⟩
  · exact .inl e.symm
  · exact .inr ⟨label, cs', cs, rule, d, hj', hj, hperm.symm, hd⟩

theorem error_eq (h : l.Reorders l') {e : JustificationError} (hj : l.justification = .error e) :
    l'.justification = .error e := by
  rcases h.justification with hsame | ⟨label, cs, cs', rule, d, hj', -⟩
  · rw [hsame, hj]
  · rw [hj] at hj'
    cases hj'

theorem exists_citations (h : l.Reorders l') {j : Justification} (hj : l.justification = .ok j) :
    ∃ cs, l'.justification = .ok ⟨j.rule, cs⟩ ∧ cs.Perm j.citations ∧
      (cs = j.citations ∨ ∃ rule d, RuleId.lookup j.rule = some rule ∧
        Catalog.definitionOf? rule = some d ∧ d.unordered = true) := by
  rcases h.justification with hsame | ⟨label, cs, cs', rule, d, hj', hnew, hperm, hd⟩
  · exact ⟨j.citations, by rw [hsame, hj], .refl _, .inl rfl⟩
  · rw [hj] at hj'
    cases hj'
    exact ⟨cs', hnew, hperm, .inr ⟨rule, d, hd⟩⟩

theorem ruleLabel_eq (h : l.Reorders l') : l'.ruleLabel? = l.ruleLabel? := by
  unfold ruleLabel?
  rcases h.justification with e | ⟨label, cs, cs', rule, d, hj, hj', -⟩
  · rw [e]
  · rw [hj, hj']
    rfl

theorem citations_perm (h : l.Reorders l') : l'.citations.Perm l.citations := by
  unfold citations
  rcases h.justification with e | ⟨label, cs, cs', rule, d, hj, hj', hperm, -⟩
  · rw [e]
  · rw [hj, hj']
    exact hperm

theorem sentence_eq (h : l.Reorders l') : l'.sentence? = l.sentence? := by
  unfold sentence?
  rw [h.reading]

theorem isMarker_eq (h : l.Reorders l') : l'.isMarker = l.isMarker := by
  unfold isMarker
  rw [h.reading]

theorem recasts (h : l.Reorders l') : l.Recasts l' := by
  refine ⟨h.depth, h.opens, h.isMarker_eq, ?_⟩
  unfold isPremise
  rw [h.ruleLabel_eq]

end Line.Reorders

/-! ## Outlines -/

theorem Outline.Alike.symm {o o' : Outline} (a : o.Alike o') : o'.Alike o where
  scopes := a.scopes.symm
  homes := a.homes.symm
  size := a.size.symm
  markers s hs hroot := (a.markers s (a.scopes ▸ hs) hroot).symm

/-- Two outlines of the same lines, but for the order of citations. -/
structure Outline.Reordered (o o' : Outline) : Prop where
  alike : o.Alike o'
  lines : ∀ k l l', o.line? k = some l → o'.line? k = some l' → l.Reorders l'
  premises : ∀ count, Pass.onlyPremises o' count = Pass.onlyPremises o count

namespace Outline.Reordered

variable {o o' : Outline} (e : o.Reordered o')
include e

theorem symm : o'.Reordered o where
  alike := e.alike.symm
  lines k l' l hl' hl := (e.lines k l l' hl hl').symm
  premises count := (e.premises count).symm

theorem line_some {k : Nat} {l : Line} (hl : o.line? k = some l) :
    ∃ l', o'.line? k = some l' ∧ l.Reorders l' := by
  have hk : o'.hasLine k = true := by
    rw [e.alike.hasLine_eq]
    exact hasLine_iff.mpr ⟨l, hl⟩
  obtain ⟨l', hl'⟩ := hasLine_iff.mp hk
  exact ⟨l', hl', e.lines k l l' hl hl'⟩

theorem sentenceAt_eq (k : Nat) : o'.sentenceAt? k = o.sentenceAt? k := by
  cases hk : o.hasLine k with
  | true =>
    obtain ⟨l, hl⟩ := hasLine_iff.mp hk
    obtain ⟨l', hl', h⟩ := e.line_some hl
    rw [sentenceAt?_eq hl, sentenceAt?_eq hl', h.sentence_eq]
  | false =>
    have hk' : o'.hasLine k = false := by rw [e.alike.hasLine_eq, hk]
    unfold sentenceAt?
    rw [line?_eq_none hk, line?_eq_none hk']

theorem summary_ok {s : Scope} {m : Summary} (hm : o.summary s = .ok m) :
    o'.summary s = .ok m := by
  obtain ⟨l, hl, hm⟩ := bind_ok.mp hm
  obtain ⟨l', hl', h⟩ := e.line_some (line_ok.mp hl)
  refine bind_ok.mpr ⟨l', line_ok.mpr hl', ?_⟩
  simp only [e.sentenceAt_eq, h.isMarker_eq, h.sentence_eq]
  exact hm

end Outline.Reordered

/-- A line with its citations in another order in the place of the line. -/
theorem Outline.Nested.reordered {o o' : Outline} (ho : o.Nested) {n : Nat} {l l' : Line}
    (hl : o.line? n = some l) (h : l.Reorders l') {goal : Option Goal} {revision : Nat}
    (hbuild : Outline.build (o.lines.set (n - 1) l') goal revision = .ok o') : o.Reordered o' := by
  have e := ho.edited hl h.recasts.bare_eq (fun _ => h.isMarker_eq) hbuild
  obtain ⟨-, hlines, -, -⟩ := Outline.build_cases hbuild
  obtain ⟨hn, hat⟩ := Outline.line?_eq_some.mp hl
  have hnew : o'.line? n = some l' := by
    rw [Outline.line?_eq_some, hlines,
      List.getElem?_set_self (List.getElem?_eq_some_iff.mp hat).1]
    exact ⟨hn, rfl⟩
  refine ⟨e.alike, fun k i i' hi hi' => ?_,
    Pass.onlyPremises_replaced hl h.depth h.recasts.premise hbuild⟩
  by_cases hk : k = n
  · subst hk
    cases hl.symm.trans hi
    cases hnew.symm.trans hi'
    exact h
  · rw [e.others k hk, hi] at hi'
    cases hi'
    exact .refl i

namespace Pass

theorem judgeMarker_reordered {l l' : Line} (hl : l.Reorders l') {found : Option RuleId}
    (h : judgeMarker l = .ok found) : judgeMarker l' = .ok found := by
  unfold judgeMarker at h ⊢
  rw [hl.opens]
  cases hj : l.justification with
  | error e =>
    rw [hl.error_eq hj]
    rwa [hj] at h
  | ok j =>
    obtain ⟨cs, hj', hperm, -⟩ := hl.exists_citations hj
    simp only [hj, ← hperm.isEmpty_eq] at h
    simp only [hj']
    exact h

section Reordered

variable {o o' : Outline} (e : o.Reordered o') {config : Config} {t : WorldTree}
include e

/-- Citations lead to the same material. -/
theorem Resolved.reordered {n : Nat} {transfer : Transfer} {c : Citation} {m : Option Material}
    (h : (Pass.mk o config t).Resolved n transfer c m) :
    (Pass.mk o' config t).Resolved n transfer c m := by
  cases h with
  | subproof hstop hat hvis haround hworld hsum =>
    rw [← e.alike.subproofAt_eq] at hat
    rw [← e.alike.subproofVisible_eq] at hvis
    rw [← worldOf_eq e.alike] at hworld
    exact .subproof hstop hat hvis haround hworld (e.summary_ok hsum)
  | within hstop hl hlt hthere hhere hvis =>
    obtain ⟨l', hl', hline⟩ := e.line_some hl
    rw [← worldOf_eq e.alike] at hthere hhere
    rw [← e.alike.lineVisible_eq] at hvis
    rw [← hline.sentence_eq]
    exact .within hstop hl' hlt hthere hhere hvis
  | across hstop hl hlt hhome hover henc hsys hhere hthere hcan =>
    obtain ⟨l', hl', hline⟩ := e.line_some hl
    rw [← e.alike.scopeOf_eq] at hhome
    rw [← e.alike.hypothesesOver_eq] at hover
    rw [← worldOf_eq e.alike] at hhere hthere
    rw [← hline.sentence_eq]
    exact .across hstop hl' hlt hhome hover henc hsys hhere hthere hcan

theorem StaysIn.reordered {s : Scope} {n : Nat} (h : (Pass.mk o config t).StaysIn s n) :
    (Pass.mk o' config t).StaysIn s n := by
  obtain ⟨l, hl, h⟩ := h
  obtain ⟨l', hl', hline⟩ := e.line_some hl
  refine ⟨l', hl', ?_⟩
  rw [hline.ruleLabel_eq]
  exact h.imp id fun hall c hc => hall c (hline.citations_perm.subset hc)

theorem checkClosure_reordered {cs cs' : List Citation} (hperm : cs'.Perm cs)
    (h : (Pass.mk o config t).checkClosure 0 cs = .ok ()) :
    (Pass.mk o' config t).checkClosure 0 cs' = .ok () := by
  rw [checkClosure_iff] at h ⊢
  intro c hc stop s hstop hat hkind n h1 h2
  rw [e.alike.subproofAt_eq] at hat
  exact (h c (hperm.subset hc) stop s hstop hat hkind n h1 h2).reordered e

/-- A definition applies to the citations in another order, if it takes them in any order. -/
theorem applyDefinition_reordered {done done' : List Diagnostic}
    (hdone : ∀ k, Sustained done k → Sustained done' k) {n : Nat} {sentence : Sentence}
    {cs cs' : List Citation} (hperm : cs'.Perm cs) {d : RuleDefinition}
    (hd : cs' = cs ∨ d.unordered = true)
    (h : (Pass.mk o config t).applyDefinition done n sentence cs d = .ok ()) :
    (Pass.mk o' config t).applyDefinition done' n sentence cs' d = .ok () := by
  rw [applyDefinition_iff] at h ⊢
  simp only [List.forall₂_map_right_iff] at h ⊢
  obtain ⟨materials, hres, hdep, happ, hclosed⟩ := h
  have hdep' : ∀ c ∈ cs', ∀ k, c.start ≤ k → k ≤ c.last → Sustained done' k :=
    fun c hc k h1 h2 => hdone k (hdep c (hperm.subset hc) k h1 h2)
  have hclosed' := fun hw => checkClosure_reordered e hperm (hclosed hw)
  have hres' := hres.imp fun c m h => h.reordered e
  rcases hd with rfl | hd
  · exact ⟨materials, hres', hdep', happ, hclosed'⟩
  · obtain ⟨materials', hres', hperm'⟩ := List.perm_comp_forall₂ hperm hres'
    exact ⟨materials', hres', hdep', RuleDefinition.exists_apply_perm hd hperm' happ, hclosed'⟩

/-- A line that is valid is so with its citations in another order, and by the same rule. -/
theorem Accepted.reordered {done done' : List Diagnostic}
    (hdone : ∀ k, Sustained done k → Sustained done' k) {n : Nat} {l l' : Line}
    (hl : l.Reorders l') {found : Option RuleId}
    (h : (Pass.mk o config t).Accepted done n l found) :
    (Pass.mk o' config t).Accepted done' n l' found := by
  cases h with
  | marker hread hjudge =>
    exact .marker (hl.reading.trans hread) (judgeMarker_reordered hl hjudge)
  | assumption hread hs hopens hj =>
    refine .assumption (hl.reading.trans hread) hs (hl.opens ▸ hopens) ?_
    rcases hj with hj | ⟨j, hj, hlook, hcs⟩
    · exact .inl (hl.error_eq hj)
    · obtain ⟨cs, hj', hperm, -⟩ := hl.exists_citations hj
      rw [hcs] at hperm
      exact .inr ⟨_, hj', hlook, hperm.eq_nil⟩
  | premise hread hs hj hlook hcs hopens hdepth hprem =>
    obtain ⟨cs, hj', hperm, -⟩ := hl.exists_citations hj
    rw [hcs] at hperm
    rw [← e.premises] at hprem
    exact .premise (hl.reading.trans hread) hs hj' hlook hperm.eq_nil (hl.opens.trans hopens)
      (hl.depth.trans hdepth) hprem
  | placeholder hread hs hj hlook hopens =>
    obtain ⟨cs, hj', -, -⟩ := hl.exists_citations hj
    exact .placeholder (hl.reading.trans hread) hs hj' hlook (hl.opens.trans hopens)
  | @rule s j rule d hread hs hj hlook h1 h2 hopens hd hset happ =>
    obtain ⟨cs, hj', hperm, hany⟩ := hl.exists_citations hj
    have hd' : cs = j.citations ∨ d.unordered = true := by
      refine hany.imp id ?_
      rintro ⟨rule', d', hlook', hd', hun⟩
      cases hlook.symm.trans hlook'
      cases hd.symm.trans hd'
      exact hun
    exact .rule (hl.reading.trans hread) hs hj' hlook h1 h2 (hl.opens.trans hopens) hd hset
      (applyDefinition_reordered e hdone hperm hd' happ)

/-- The same lines are valid, by induction on their numbers. -/
theorem valid_reordered {r r' : Report} (f : r.From ⟨o, config, t⟩) (f' : r'.From ⟨o', config, t⟩)
    {n : Nat} {found : Option RuleId} (h : verdictAt r.diagnostics n = .ok (.valid found)) :
    verdictAt r'.diagnostics n = .ok (.valid found) := by
  induction n using Nat.strongRecOn generalizing found with
  | _ n ih =>
    have h0 : n ≠ 0 := (verdictAt_ok.mp h).1
    obtain ⟨l, hl, -⟩ := f.reached.line_verdict h
    obtain ⟨l', hl', hline⟩ := e.line_some hl
    rw [f.valid_iff hl] at h
    rw [f'.valid_iff hl']
    refine h.reordered e (fun k hk => ?_) hline
    exact f.reached.sustained_before h0 (fun j hj found => ih j hj) hk

end Reordered

end Pass

/-- The citations of a line in another order, where its rule takes them in any order, make an
outline again, in which every line has the status and the rule that it had. -/
theorem citation_order_irrelevant {lines : List Line} {goal : Option Goal} {revision : Nat}
    {o : Outline} (h : Outline.build lines goal revision = .ok o)
    (hroot : ∀ l ∈ lines, l.opens ≠ some .root) {n : Nat} {l : Line} (hl : o.line? n = some l)
    {label : Text} {cs : List Citation} (hj : l.justification = .ok ⟨label, cs⟩) {rule : RuleId}
    (hrule : RuleId.lookup label = some rule) {d : RuleDefinition}
    (hd : Catalog.definitionOf? rule = some d) (hunordered : d.unordered = true)
    {cs' : List Citation} (hperm : cs'.Perm cs) (text : Text) (goal' : Option Goal)
    (revision' : Nat) (config : Config) :
    ∃ o' r r', Outline.build (lines.set (n - 1)
        { l with justificationText := text, justification := .ok ⟨label, cs'⟩ }) goal' revision' =
          .ok o' ∧
      verify o config = .ok r ∧ verify o' config = .ok r' ∧
      ∀ m, o.hasLine m = true → ∃ e e', r.byLine m = .ok e ∧ r'.byLine m = .ok e' ∧
        e'.status = e.status ∧ e'.verdict.ruleText = e.verdict.ruleText ∧
        (e.isValid = true → e' = e) := by
  obtain ⟨ho, rfl, -, -⟩ := Outline.build_cases h
  obtain ⟨-, hat⟩ := Outline.line?_eq_some.mp hl
  have hline : l.Reorders { l with justificationText := text, justification := .ok ⟨label, cs'⟩ } :=
    ⟨rfl, rfl, rfl, .inr ⟨label, cs, cs', rule, d, hj, rfl, hperm, hrule, hd, hunordered⟩⟩
  obtain ⟨o', hbuild⟩ := Outline.build_iff_fits.mpr (set_fits ho.fits hat hline.recasts.shape_eq)
  obtain ⟨ho', hlines, -, -⟩ := Outline.build_cases hbuild
  have hroot' : o'.Rootless := by
    intro k hk
    rw [hlines] at hk
    rcases List.mem_or_eq_of_mem_set hk with hk | rfl
    · exact hroot k hk
    · exact hroot l (List.mem_of_getElem? hat)
  have e := ho.reordered hl hline hbuild
  obtain ⟨t, r, hr, ht, f⟩ := verify_total ho hroot config
  obtain ⟨t', r', hr', ht', f'⟩ := verify_total ho' hroot' config
  rw [e.alike.worldTree_eq, ht] at ht'
  cases ht'
  refine ⟨o', r, r', hbuild, hr, hr', fun m hm => ?_⟩
  obtain ⟨k, hk⟩ := Outline.hasLine_iff.mp hm
  obtain ⟨k', hk', hlike⟩ := e.line_some hk
  exact f.status_eq f' hk hk'
    (fun _ => ⟨Pass.valid_reordered e.symm f' f, Pass.valid_reordered e f f'⟩) hlike.ruleLabel_eq

/-- A proof by cases, and a line that cites its result. -/
def casesLines : List Line :=
  createLines [("P ∨ Q", "PR", 0, none), ("P", "AS", 1, some .ordinary), ("Q ∨ P", "∨I 2", 1, none),
    ("Q", "AS", 1, some .ordinary), ("Q ∨ P", "∨I 4", 1, none),
    ("Q ∨ P", "∨E 1, 2-3, 4-5", 0, none), ("R ∨ (Q ∨ P)", "∨I 6", 0, none)]

/-- The second case comes first, then the disjunction. -/
theorem citation_order_irrelevant_cases : ∃ o l label d o' r r' e,
    Outline.build casesLines none 0 = .ok o ∧ o.line? 6 = some l ∧
    l.justification = .ok ⟨label, [⟨1, none⟩, ⟨2, some 3⟩, ⟨4, some 5⟩]⟩ ∧
    RuleId.lookup label = some .orElim ∧ Catalog.definitionOf? .orElim = some d ∧
    d.unordered = true ∧
    Justification.read "∨E 4-5, 1, 2-3" = .ok ⟨label, [⟨4, some 5⟩, ⟨1, none⟩, ⟨2, some 3⟩]⟩ ∧
    Outline.build (casesLines.set 5
      { l with
        justificationText := "∨E 4-5, 1, 2-3",
        justification := .ok ⟨label, [⟨4, some 5⟩, ⟨1, none⟩, ⟨2, some 3⟩]⟩ }) none 1 = .ok o' ∧
    verify o ⟨none, false⟩ = .ok r ∧ verify o' ⟨none, false⟩ = .ok r' ∧
    r.byLine 7 = .ok e ∧ e.isValid = true ∧ r'.byLine 7 = .ok e := by
  obtain ⟨o, ho, h⟩ := exists_ok (x := Outline.build casesLines none 0)
    (p := fun o => (o.line 6).toOption.any (fun l =>
      l.justification = .ok ⟨"∨E", [⟨1, none⟩, ⟨2, some 3⟩, ⟨4, some 5⟩]⟩) && o.hasLine 7 &&
      (verify o ⟨none, false⟩).toOption.any fun r => (r.byLine 7).toOption.any Diagnostic.isValid)
    (by decide +kernel)
  simp only [Bool.and_eq_true] at h
  obtain ⟨⟨hline, hseven⟩, hvalid⟩ := h
  obtain ⟨l, hl, hj⟩ := exists_ok hline
  have hl := Outline.line_ok.mp hl
  have hj := of_decide_eq_true hj
  obtain ⟨d, hd, hunordered⟩ : ∃ d, Catalog.definitionOf? .orElim = some d ∧ d.unordered = true :=
    ⟨_, rfl, rfl⟩
  have hlookup : RuleId.lookup "∨E" = some .orElim := by decide +kernel
  have hread : Justification.read "∨E 4-5, 1, 2-3" =
      .ok ⟨"∨E", [⟨4, some 5⟩, ⟨1, none⟩, ⟨2, some 3⟩]⟩ := by
    decide +kernel
  have hperm : ([⟨4, some 5⟩, ⟨1, none⟩, ⟨2, some 3⟩] : List Citation).Perm
      [⟨1, none⟩, ⟨2, some 3⟩, ⟨4, some 5⟩] := by
    decide
  obtain ⟨o', r, r', ho', hr, hr', hsame⟩ := citation_order_irrelevant ho (by decide +kernel) hl hj
    hlookup hd hunordered hperm "∨E 4-5, 1, 2-3" none 1 ⟨none, false⟩
  obtain ⟨e, e', he, he', -, -, heq⟩ := hsame 7 hseven
  obtain ⟨r₁, hr₁, hvalid⟩ := exists_ok hvalid
  obtain ⟨e₁, he₁, hvalid⟩ := exists_ok hvalid
  cases hr₁.symm.trans hr
  cases he₁.symm.trans he
  cases heq hvalid
  exact ⟨o, l, "∨E", d, o', r, r', e, ho, hl, hj, hlookup, hd, hunordered, hread, ho', hr, hr', he,
    hvalid, he'⟩

end ModalFitch
