import ModalFitch.Proofs.Truncation

/-! Lines that are appended to a proof leave the verdicts on the earlier ones, but for the reasons
that an open subproof gives.

* `Pass.Extended`: a pass over a proof, and one over the proof with more lines.
* `Pass.Extended.resolved_iff`: a citation in one of the first lines leads to the same material.
* `Pass.Extended.accepted_iff`: one line, after verdicts that accept as much.
* `appending_keeps_status`: all the first lines. -/

namespace ModalFitch
set_option autoImplicit false

/-- The second pass is over the lines of the first one and perhaps more. -/
structure Pass.Extended (p p' : Pass) : Prop where
  grounded : p.Grounded
  grounded' : p'.Grounded
  config : p'.config = p.config
  outline : p.outline.Extended p'.outline
  worlds : p.worlds.Extended p'.worlds

namespace Pass.Extended

variable {p p' : Pass} (e : p.Extended p')
include e

/-! ## Citations -/

theorem worldOf_eq {n : Nat} (hn : n ≤ p.outline.size) : p'.worldOf n = p.worldOf n := by
  by_cases h0 : n = 0
  · subst h0
    rfl
  · obtain ⟨l, hl⟩ : ∃ l, p.outline.line? n = some l := Outline.exists_line (by omega) hn
    obtain ⟨s, w, hs, -, hw, hworld⟩ := e.grounded.line_home hl
    obtain ⟨s', hs', hstem⟩ := e.outline.scopeOf_some hs
    rw [hworld]
    apply worldOf_ok.mpr
    refine ⟨s', hs', ?_⟩
    rw [(Scope.stem_eq_iff.mp hstem).1]
    exact e.worlds.ofScope_ok hw

/-- A subproof that is closed before one of the first lines shows the same in both passes. -/
theorem subproof_eq {s : Scope} (hs : p.outline.HasScope s) (h0 : s.id ≠ 0) {n : Nat}
    (hn : n ≤ p.outline.size) (hlast : s.last < n) :
    p'.worlds.ofScope (s.parent?.getD 0) = p.worlds.ofScope (s.parent?.getD 0) ∧
      p'.outline.summary s = p.outline.summary s := by
  constructor
  · obtain ⟨around, -, ha, -, -, hpar, -⟩ := e.grounded.nested.subproof hs h0
    obtain ⟨w, hw, -⟩ := e.grounded.scope_world ha
    rw [hpar, Option.getD_some, hw]
    exact e.worlds.ofScope_ok hw
  · have hle := e.grounded.nested.subproof_nonempty hs h0
    exact Outline.Alike.summary_eq e.grounded.nested hs
      (fun k _ hk => e.outline.line_eq (by omega)) hle

theorem resolved_iff {n : Nat} (hn : n ≤ p.outline.size) {transfer : Transfer} {c : Citation}
    {m : Option Material} : p'.Resolved n transfer c m ↔ p.Resolved n transfer c m := by
  constructor
  · intro h
    cases h with
    | @subproof _ _ stop s w m hstop hat hvis haround hworld hsum =>
      have hlast := (e.grounded'.subproofAt_cases hat).2.2.2
      have hlt := (Outline.subproofVisible_cases hvis).1
      rw [e.outline.subproofAt_eq e.grounded'.rootless hn (by omega)] at hat
      obtain ⟨hs, h0, -, -⟩ := e.grounded.subproofAt_cases hat
      obtain ⟨hw, hm⟩ := e.subproof_eq hs h0 hn hlt
      rw [e.outline.subproofVisible_eq hn hs] at hvis
      rw [hw] at haround
      rw [e.worldOf_eq hn] at hworld
      rw [hm] at hsum
      exact .subproof hstop hat hvis haround hworld hsum
    | within hstop hl hlt hthere hhere hvis =>
      rw [e.outline.line_eq (by omega)] at hl
      rw [e.worldOf_eq (by omega)] at hthere
      rw [e.worldOf_eq hn] at hhere
      rw [e.outline.lineVisible_eq hn] at hvis
      exact .within hstop hl hlt hthere hhere hvis
    | across hstop hl hlt hhome hover henc hsys hhere hthere hcan =>
      rw [e.outline.line_eq (by omega)] at hl
      rw [e.config] at hsys
      rw [e.worldOf_eq hn] at hhere
      rw [e.worldOf_eq (by omega)] at hthere
      rw [e.worlds.canImport_eq e.grounded.reflects e.grounded'.reflects _
        (e.grounded.world_mem hhere) (e.grounded.world_mem hthere)] at hcan
      obtain ⟨home, hhome, hstem⟩ := e.outline.scopeOf_back hhome hn
      obtain ⟨hypotheses, hover, hstems⟩ := e.outline.hypothesesOver_back hover (by omega)
      rw [Scope.all_enclose_iff hstems hstem] at henc
      exact .across hstop hl hlt hhome hover henc hsys hhere hthere hcan
  · intro h
    cases h with
    | @subproof _ _ stop s w m hstop hat hvis haround hworld hsum =>
      obtain ⟨hs, h0, -, hlast⟩ := e.grounded.subproofAt_cases hat
      have hlt := (Outline.subproofVisible_cases hvis).1
      obtain ⟨hw, hm⟩ := e.subproof_eq hs h0 hn hlt
      rw [← e.outline.subproofAt_eq e.grounded'.rootless hn (by omega)] at hat
      rw [← e.outline.subproofVisible_eq hn hs] at hvis
      rw [← hw] at haround
      rw [← e.worldOf_eq hn] at hworld
      rw [← hm] at hsum
      exact .subproof hstop hat hvis haround hworld hsum
    | within hstop hl hlt hthere hhere hvis =>
      rw [← e.worldOf_eq (by omega)] at hthere
      rw [← e.worldOf_eq hn] at hhere
      rw [← e.outline.lineVisible_eq hn] at hvis
      exact .within hstop (e.outline.line_some hl) hlt hthere hhere hvis
    | across hstop hl hlt hhome hover henc hsys hhere hthere hcan =>
      rw [← e.worlds.canImport_eq e.grounded.reflects e.grounded'.reflects _
        (e.grounded.world_mem hhere) (e.grounded.world_mem hthere)] at hcan
      rw [← e.config] at hsys
      rw [← e.worldOf_eq hn] at hhere
      rw [← e.worldOf_eq (by omega)] at hthere
      obtain ⟨home', hhome', hstem⟩ := e.outline.scopeOf_some hhome
      obtain ⟨hypotheses', hover', hstems⟩ := e.outline.hypothesesOver_stem hover
      rw [← Scope.all_enclose_iff hstems hstem] at henc
      exact .across hstop (e.outline.line_some hl) hlt hhome' hover' henc hsys hhere hthere hcan

/-! ## World closure -/

theorem staysIn_iff {s : Scope} {n : Nat} (hn : n ≤ p.outline.size) :
    p'.StaysIn s n ↔ p.StaysIn s n := by
  unfold StaysIn mayReachOut
  rw [e.outline.line_eq hn, e.config]

/-- Citations that lead somewhere are closed in both passes or in none. -/
theorem closure_iff {n : Nat} (hn : n ≤ p.outline.size) {cs : List Citation}
    (hcs : ∀ c ∈ cs, c.last < n) (index : Int) :
    p'.checkClosure index cs = .ok () ↔ p.checkClosure index cs = .ok () := by
  rw [checkClosure_iff, checkClosure_iff]
  apply forall₂_congr
  intro c hc
  apply forall₂_congr
  intro stop s
  apply forall_congr'
  intro hstop
  have hlt : stop < n := by simpa [Citation.last, hstop] using hcs c hc
  rw [e.outline.subproofAt_eq e.grounded'.rootless hn hlt]
  apply forall₂_congr
  intro hat _
  have hlast := (e.grounded.subproofAt_cases hat).2.2.2
  apply forall₃_congr
  intro k _ hk
  exact e.staysIn_iff (by omega)

/-! ## Lines -/

theorem onlyPremises_eq {count : Nat} (hcount : count ≤ p.outline.size) :
    onlyPremises p'.outline count = onlyPremises p.outline count := by
  obtain ⟨rest, hrest⟩ := e.outline.lines
  unfold onlyPremises
  rw [← hrest, List.take_append_of_le_length hcount]

theorem applies_iff {done done' : List Diagnostic}
    (hdone : ∀ k, Sustained done' k ↔ Sustained done k) {n : Nat} (hn : n ≤ p.outline.size)
    {sentence : Sentence} {cs : List Citation} {d : RuleDefinition} :
    p'.applyDefinition done' n sentence cs d = .ok () ↔
      p.applyDefinition done n sentence cs d = .ok () := by
  have hsame : p'.Resolved n d.transfer = p.Resolved n d.transfer := by
    funext c m
    exact propext (e.resolved_iff hn)
  rw [applyDefinition_iff, applyDefinition_iff]
  simp only [hdone, hsame]
  apply exists_congr
  intro materials
  apply and_congr_right
  intro hres
  have hcs : ∀ c ∈ cs, c.last < n := by
    intro c hc
    obtain ⟨m, -, hm⟩ := forall₂_exists_left hres.flip hc
    exact (e.grounded.resolved_before hm).2.2
  rw [e.closure_iff hn hcs]

theorem accepted_iff {done done' : List Diagnostic}
    (hdone : ∀ k, Sustained done' k ↔ Sustained done k) {n : Nat} (hn : n ≤ p.outline.size)
    {l : Line} {found : Option RuleId} :
    p'.Accepted done' n l found ↔ p.Accepted done n l found := by
  constructor
  · intro h
    cases h with
    | marker h1 h2 => exact .marker h1 h2
    | assumption h1 h2 h3 h4 => exact .assumption h1 h2 h3 h4
    | premise h1 h2 h3 h4 h5 h6 h7 h8 =>
      rw [e.onlyPremises_eq (by omega)] at h8
      exact .premise h1 h2 h3 h4 h5 h6 h7 h8
    | placeholder h1 h2 h3 h4 h5 => exact .placeholder h1 h2 h3 h4 h5
    | rule h1 h2 h3 h4 h5 h6 h7 h8 hset happ =>
      rw [e.config] at hset
      exact .rule h1 h2 h3 h4 h5 h6 h7 h8 hset ((e.applies_iff hdone hn).mp happ)
  · intro h
    cases h with
    | marker h1 h2 => exact .marker h1 h2
    | assumption h1 h2 h3 h4 => exact .assumption h1 h2 h3 h4
    | premise h1 h2 h3 h4 h5 h6 h7 h8 =>
      rw [← e.onlyPremises_eq (by omega)] at h8
      exact .premise h1 h2 h3 h4 h5 h6 h7 h8
    | placeholder h1 h2 h3 h4 h5 => exact .placeholder h1 h2 h3 h4 h5
    | rule h1 h2 h3 h4 h5 h6 h7 h8 hset happ =>
      rw [← e.config] at hset
      exact .rule h1 h2 h3 h4 h5 h6 h7 h8 hset ((e.applies_iff hdone hn).mpr happ)

/-- The first lines are valid by the same rules, by induction on their numbers. -/
theorem valid_iff {r r' : Report} (f : r.From p) (f' : r'.From p') {n : Nat}
    (hn : n ≤ p.outline.size) {found : Option RuleId} :
    verdictAt r'.diagnostics n = .ok (.valid found) ↔
      verdictAt r.diagnostics n = .ok (.valid found) := by
  induction n using Nat.strongRecOn generalizing found with
  | _ n ih =>
    by_cases h0 : n = 0
    · simp [verdictAt_ok, h0]
    · obtain ⟨l, hl⟩ : ∃ l, p.outline.line? n = some l := Outline.exists_line (by omega) hn
      rw [f.valid_iff hl, f'.valid_iff (e.outline.line_some hl)]
      apply e.accepted_iff _ hn
      intro k
      constructor
      · exact f'.reached.sustained_before h0 fun j hj found => (ih j hj (by omega)).mp
      · exact f.reached.sustained_before h0 fun j hj found => (ih j hj (by omega)).mpr

end Pass.Extended

/-- The first lines of an accepted list are accepted, and each of them has the status and the rule
that it has among all the lines. -/
theorem appending_keeps_status {lines : List Line} {goal : Option Goal} {revision : Nat}
    {o : Outline} (h : Outline.build lines goal revision = .ok o)
    (hroot : ∀ l ∈ lines, l.opens ≠ some .root) {k : Nat} (hk : k ≤ lines.length)
    (goal' : Option Goal) (revision' : Nat) (config : Config) :
    ∃ first r r', Outline.build (lines.take k) goal' revision' = .ok first ∧
      verify first config = .ok r ∧ verify o config = .ok r' ∧
      ∀ n, 1 ≤ n → n ≤ k → ∃ d d', r.byLine n = .ok d ∧ r'.byLine n = .ok d' ∧
        d'.status = d.status ∧ d'.verdict.ruleText = d.verdict.ruleText ∧
        (d.isValid = true → d' = d) := by
  obtain ⟨ho, rfl, -, -⟩ := Outline.build_cases h
  have hfits := ho.fits
  rw [← List.take_append_drop k o.lines, fits_append] at hfits
  obtain ⟨first, hbuild⟩ : ∃ first, Outline.build (o.lines.take k) goal' revision' = .ok first :=
    Outline.build_iff_fits.mpr hfits.1
  obtain ⟨hfirst, hlines, -, -⟩ := Outline.build_cases hbuild
  have hroot' : first.Rootless := by
    intro l hl
    rw [hlines] at hl
    exact hroot l (List.mem_of_mem_take hl)
  obtain ⟨t, r, hr, ht, f⟩ := verify_total hfirst hroot' config
  obtain ⟨t', r', hr', ht', f'⟩ := verify_total ho hroot config
  have e : first.Extended o := ⟨hfirst, ho, hlines ▸ List.take_prefix k o.lines⟩
  have ep : (Pass.mk first config t).Extended ⟨o, config, t'⟩ :=
    ⟨f.grounded, f'.grounded, rfl, e, e.worlds ht ht'⟩
  refine ⟨first, r, r', hbuild, hr, hr', fun n h1 hn => ?_⟩
  have hsize : n ≤ first.size := by
    unfold Outline.size
    rw [hlines, List.length_take]
    omega
  obtain ⟨l, hl⟩ : ∃ l, first.line? n = some l := Outline.exists_line h1 hsize
  exact f.status_eq f' hl (e.line_some hl) fun _ => ep.valid_iff f f' hsize

/-- The fourth line cites its own subproof, which the fifth line makes longer. -/
def ongoingLines : List Line :=
  createLines [("P", "PR", 0, none), ("Q", "AS", 1, some .ordinary), ("P", "R 1", 1, none),
    ("Q → P", "→I 2-4", 1, none), ("Q", "R 2", 1, none), ("Q → Q", "→I 2-5", 0, none)]

/-- The fourth line is invalid before and after, for different reasons. -/
theorem appending_keeps_status_ongoing : ∃ o first r r' d d',
    Outline.build ongoingLines none 0 = .ok o ∧
    Outline.build (ongoingLines.take 4) none 0 = .ok first ∧
    verify first ⟨none, false⟩ = .ok r ∧ verify o ⟨none, false⟩ = .ok r' ∧
    r.byLine 4 = .ok d ∧ r'.byLine 4 = .ok d' ∧ d'.status = d.status ∧
    d'.verdict.ruleText = d.verdict.ruleText ∧
    d.verdict.error?.map CheckError.reason = some .outOfScope ∧
    d'.verdict.error?.map CheckError.reason = some .unresolvedCitation := by
  obtain ⟨o, ho, h⟩ := exists_ok (x := Outline.build ongoingLines none 0)
    (p := fun o => (verify o ⟨none, false⟩).toOption.any fun r => (r.byLine 4).toOption.any fun d =>
      d.verdict.error?.map CheckError.reason = some .unresolvedCitation)
    (by decide +kernel)
  obtain ⟨first, hfirst, h'⟩ := exists_ok (x := Outline.build (ongoingLines.take 4) none 0)
    (p := fun o => (verify o ⟨none, false⟩).toOption.any fun r => (r.byLine 4).toOption.any fun d =>
      d.verdict.error?.map CheckError.reason = some .outOfScope)
    (by decide +kernel)
  obtain ⟨first', r, r', hfirst', hr, hr', hsame⟩ := appending_keeps_status ho (by decide +kernel)
    (by decide : 4 ≤ ongoingLines.length) none 0 ⟨none, false⟩
  cases hfirst.symm.trans hfirst'
  obtain ⟨d, d', hd, hd', hstatus, hrule, -⟩ := hsame 4 (by decide) (by decide)
  obtain ⟨r₁, hr₁, h⟩ := exists_ok h
  obtain ⟨d₁, hd₁, h⟩ := exists_ok h
  cases hr₁.symm.trans hr'
  cases hd₁.symm.trans hd'
  obtain ⟨r₂, hr₂, h'⟩ := exists_ok h'
  obtain ⟨d₂, hd₂, h'⟩ := exists_ok h'
  cases hr₂.symm.trans hr
  cases hd₂.symm.trans hd
  rw [decide_eq_true_iff] at h h'
  exact ⟨o, first, r, r', d, d', ho, hfirst, hr, hr', hd, hd', hstatus, hrule, h', h⟩

end ModalFitch
