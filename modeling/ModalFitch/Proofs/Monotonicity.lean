import ModalFitch.Proofs.Totality

/-! A stronger logic accepts more: a line that is valid under a configuration is valid, by the same
rule, under every configuration that enables all its rule sets.

* `WorldTree.canImport_mono`: a stronger system grants more access.
* `Pass.Accepted.mono`: one line, after verdicts that accept as much.
* `Pass.valid_mono`: all lines, by induction on their numbers. -/

namespace ModalFitch
set_option autoImplicit false

/-! ## Systems -/

theorem ModalSystem.stronger {s s' : ModalSystem} (h : s.rulesets ⊆ s'.rulesets) :
    (s.reflexive = true → s'.reflexive = true) ∧ (s.transitive = true → s'.transitive = true) ∧
      (s.symmetric = true → s'.symmetric = true) := by
  revert h
  cases s <;> cases s' <;> decide

theorem Config.stronger_system {c c' : Config} (h : c.rulesets ⊆ c'.rulesets) {s : ModalSystem}
    (hs : c.system = some s) : ∃ s', c'.system = some s' ∧ s.rulesets ⊆ s'.rulesets := by
  have hmodal : ∀ set ∈ s.rulesets, set ≠ .tflBasic ∧ set ≠ .tflDerived := by
    cases s <;> decide
  have hin : ∀ set ∈ s.rulesets, ∃ s', c'.system = some s' ∧ set ∈ s'.rulesets := by
    intro set hset
    have hmem : set ∈ c.rulesets := by
      unfold Config.rulesets
      rw [hs]
      exact List.mem_append_right _ hset
    exact mem_modal_rulesets (h hmem) (hmodal set hset).1 (hmodal set hset).2
  have hk : RuleSet.modalK ∈ s.rulesets := by
    cases s <;> decide
  obtain ⟨s', hs', -⟩ := hin _ hk
  refine ⟨s', hs', fun set hset => ?_⟩
  obtain ⟨s'', hs'', hmem⟩ := hin set hset
  rw [hs'] at hs''
  cases hs''
  exact hmem

namespace WorldTree

variable {s s' : ModalSystem} (h : s.rulesets ⊆ s'.rulesets) {a b : World}
include h

theorem edge_mono (he : edge s a b = true) : edge s' a b = true := by
  unfold edge at he ⊢
  rw [Bool.or_eq_true] at he ⊢
  refine he.imp_right fun hsym => ?_
  rw [Bool.and_eq_true] at hsym ⊢
  exact ⟨(ModalSystem.stronger h).2.2 hsym.1, hsym.2⟩

theorem accessible_mono {t : WorldTree} (hb : b ∈ t.worlds) (hacc : t.accessible s a b = true) :
    t.accessible s' a b = true := by
  unfold accessible at hacc ⊢
  split at hacc
  · rename_i ht
    rw [if_pos ((ModalSystem.stronger h).2.1 ht)]
    rw [List.contains_iff_mem, mem_reachable_iff] at hacc ⊢
    exact hacc.imp_right fun hacc => hacc.mono (fun _ _ => edge_mono h) (fun _ => id) (fun _ => id)
  · split
    · rw [List.contains_iff_mem, mem_reachable_iff]
      exact .inr (.first List.mem_cons_self (edge_mono h hacc) hb)
    · exact edge_mono h hacc

theorem canImport_mono {t : WorldTree} (hb : b ∈ t.worlds) (hcan : t.canImport s a b = true) :
    t.canImport s' a b = true := by
  unfold canImport at hcan ⊢
  split at hcan
  · rename_i e
    rw [if_pos e]
    exact (ModalSystem.stronger h).1 hcan
  · rename_i hne
    rw [if_neg hne]
    exact accessible_mono h hb hcan

end WorldTree

/-! ## One line -/

namespace Pass

/-- The same pass under another configuration. -/
def under (p : Pass) (config : Config) : Pass := { p with config := config }

variable {p : Pass} {c : Config} (h : p.config.rulesets ⊆ c.rulesets)
include h

theorem Resolved.mono (g : p.Grounded) {n : Nat} {transfer : Transfer} {cited : Citation}
    {m : Option Material} (hr : p.Resolved n transfer cited m) :
    (p.under c).Resolved n transfer cited m := by
  cases hr with
  | subproof h1 h2 h3 h4 h5 h6 => exact .subproof h1 h2 h3 h4 h5 h6
  | within h1 h2 h3 h4 h5 h6 => exact .within h1 h2 h3 h4 h5 h6
  | across h1 h2 h3 h4 h5 h6 hs h8 hthere hcan =>
    obtain ⟨s', hs', hle⟩ := Config.stronger_system h hs
    have hmem := g.world_mem hthere
    exact .across h1 h2 h3 h4 h5 h6 hs' h8 hthere (WorldTree.canImport_mono hle hmem hcan)

theorem mayReachOut_mono {label : Text} (hr : p.mayReachOut label = true) :
    (p.under c).mayReachOut label = true := by
  unfold mayReachOut at hr ⊢
  split at hr
  · cases hr
  · rename_i rule hrule
    rw [Bool.or_eq_true] at hr ⊢
    refine hr.imp_right fun hany => ?_
    rw [Catalog.definitionsFor_rulesets] at hany ⊢
    split at hany
    · split at hany
      · rename_i hset
        have hset' := h hset
        rw [if_pos (show _ ∈ (p.under c).config.rulesets from hset')]
        exact hany
      · cases hany
    · cases hany

theorem checkClosure_mono {cs : List Citation} {index : Int}
    (hc : p.checkClosure index cs = .ok ()) : (p.under c).checkClosure index cs = .ok () := by
  rw [checkClosure_iff] at hc ⊢
  intro cited hcited stop s hstop hat hkind n h1 h2
  obtain ⟨l, hl, hstay⟩ := hc cited hcited stop s hstop hat hkind n h1 h2
  exact ⟨l, hl, hstay.imp_left (mayReachOut_mono h)⟩

theorem applyDefinition_mono (g : p.Grounded) {done done' : List Diagnostic}
    (hdone : ∀ k, Sustained done k → Sustained done' k) {n : Nat} {sentence : Sentence}
    {cs : List Citation} {d : RuleDefinition}
    (hd : p.applyDefinition done n sentence cs d = .ok ()) :
    (p.under c).applyDefinition done' n sentence cs d = .ok () := by
  rw [applyDefinition_iff] at hd ⊢
  obtain ⟨materials, hres, hsus, happly, hclosed⟩ := hd
  refine ⟨materials, hres.imp fun _ _ => Resolved.mono h g, ?_, happly, ?_⟩
  · intro cited hcited k h1 h2
    exact hdone k (hsus cited hcited k h1 h2)
  · intro hw
    exact checkClosure_mono h (hclosed hw)

theorem Accepted.mono (g : p.Grounded) {done done' : List Diagnostic}
    (hdone : ∀ k, Sustained done k → Sustained done' k) {n : Nat} {l : Line}
    {found : Option RuleId} (ha : p.Accepted done n l found) : (p.under c).Accepted done' n l found := by
  cases ha with
  | marker h1 h2 => exact .marker h1 h2
  | assumption h1 h2 h3 h4 => exact .assumption h1 h2 h3 h4
  | premise h1 h2 h3 h4 h5 h6 h7 h8 => exact .premise h1 h2 h3 h4 h5 h6 h7 h8
  | placeholder h1 h2 h3 h4 h5 => exact .placeholder h1 h2 h3 h4 h5
  | rule h1 h2 h3 h4 h5 h6 h7 h8 hset happ =>
    exact .rule h1 h2 h3 h4 h5 h6 h7 h8 (h hset) (applyDefinition_mono h g hdone happ)

/-! ## All lines -/

theorem valid_mono (g : p.Grounded) {ds ds' : List Diagnostic} (hds : p.Reached ds)
    (hds' : (p.under c).Reached ds') (hlen : ds.length ≤ ds'.length) {n : Nat}
    {found : Option RuleId} (hv : verdictAt ds n = .ok (.valid found)) :
    verdictAt ds' n = .ok (.valid found) := by
  induction n using Nat.strongRecOn generalizing found with
  | _ n ih =>
    obtain ⟨l, hl, hver⟩ := hds.line_verdict hv
    have hn := (verdictAt_ok.mp hv).1
    have hdone : ∀ k, Sustained (ds.take (n - 1)) k → Sustained (ds'.take (n - 1)) k :=
      fun _ => hds.sustained_before hn fun k hk found => ih k hk
    have hacc := verdict_valid_iff.mpr ((verdict_valid_iff.mp hver).mono h g hdone)
    have hle : n ≤ ds'.length := by
      obtain ⟨d, hd, -⟩ := (verdictAt_ok.mp hv).2
      obtain ⟨hlt, -⟩ := List.getElem?_eq_some_iff.mp hd
      omega
    obtain ⟨v, hv'⟩ := verdictAt_total hn hle
    obtain ⟨l', hl', hver'⟩ := hds'.line_verdict hv'
    have e : l' = l := Option.some.inj (hl'.symm.trans hl)
    rw [e, hacc] at hver'
    rw [hv', Except.ok.inj hver']

end Pass

/-! ## Reports -/

namespace Report.From

variable {r r' : Report} {p : Pass} {c : Config} (f : r.From p) (f' : r'.From (p.under c))
  (h : p.config.rulesets ⊆ c.rulesets)
include f f' h

theorem valid_entry {i : Nat} {d : Diagnostic} (hd : r.diagnostics[i]? = some d)
    (hvalid : d.isValid = true) : r'.diagnostics[i]? = some d := by
  obtain ⟨number, v⟩ := d
  cases v with
  | unchecked => cases hvalid
  | invalid label e => cases hvalid
  | valid found =>
    obtain ⟨rfl, -⟩ := f.reached.entry i _ hd
    have hv : Pass.verdictAt r.diagnostics (i + 1) = .ok (.valid found) :=
      Pass.verdictAt_ok.mpr ⟨Nat.succ_ne_zero i, _, hd, rfl⟩
    have hlen : r.diagnostics.length ≤ r'.diagnostics.length := by
      rw [f.complete, f'.complete]
      exact Nat.le_refl _
    have hv' := Pass.valid_mono h f.grounded f.reached f'.reached hlen hv
    obtain ⟨-, ⟨number', v'⟩, hd', rfl⟩ := Pass.verdictAt_ok.mp hv'
    obtain ⟨rfl, -⟩ := f'.reached.entry i _ hd'
    exact hd'

/-- Where all lines are valid, the diagnostics are the same. -/
theorem diagnostics_eq (hall : r.isValid = true) : r'.diagnostics = r.diagnostics := by
  unfold Report.isValid at hall
  rw [List.all_eq_true] at hall
  apply List.ext_getElem?
  intro i
  cases hd : r.diagnostics[i]? with
  | some d => exact f.valid_entry f' h hd (hall d (List.mem_of_getElem? hd))
  | none =>
    rw [List.getElem?_eq_none_iff, f.complete] at hd
    rw [List.getElem?_eq_none_iff, f'.complete]
    exact hd

end Report.From

/-- A line that is valid under a configuration has the same diagnostic under every configuration
with more rule sets. So a valid proof stays valid, a goal reached stays reached, and a goal proved
stays proved. -/
theorem verdicts_mono {lines : List Line} {goal : Option Goal} {revision : Nat} {o : Outline}
    (hbuild : Outline.build lines goal revision = .ok o) (hopens : ∀ l ∈ lines, l.opens ≠ some .root)
    {c c' : Config} (hsub : c.rulesets ⊆ c'.rulesets) :
    ∃ r r', verify o c = .ok r ∧ verify o c' = .ok r' ∧
      (∀ n d, r.byLine n = .ok d → d.isValid = true → r'.byLine n = .ok d) ∧
      (r.isValid = true → r'.isValid = true) ∧
      (r.reachesGoal = some true → r'.reachesGoal = some true) ∧
      (r.provesGoal = some true → r'.provesGoal = some true) := by
  obtain ⟨hnested, rfl, rfl, -⟩ := Outline.build_cases hbuild
  obtain ⟨tree, r, hverify, htree, f⟩ := verify_total hnested hopens c
  obtain ⟨tree', r', hverify', htree', f'⟩ := verify_total hnested hopens c'
  rw [htree] at htree'
  cases htree'
  have hall : r.reachesGoal = some true → r.isValid = true := by
    intro hr
    rw [f.reaches] at hr
    obtain ⟨g, -, hg⟩ := Option.map_eq_some_iff.mp hr
    rw [Bool.and_eq_true] at hg
    exact hg.1
  have hreaches : r.reachesGoal = some true → r'.reachesGoal = r.reachesGoal := by
    intro hr
    rw [f.reaches, f'.reaches, f.diagnostics_eq f' hsub (hall hr)]
  refine ⟨r, r', hverify, hverify', ?_, ?_, ?_, ?_⟩
  · intro n d hd hvalid
    rw [Report.byLine_ok] at hd ⊢
    exact ⟨hd.1, f.valid_entry f' hsub hd.2 hvalid⟩
  · intro hvalid
    unfold Report.isValid
    rw [f.diagnostics_eq f' hsub hvalid]
    exact hvalid
  · intro hr
    rw [hreaches hr, hr]
  · intro hp
    have hr : r.reachesGoal = some true := by
      unfold Report.provesGoal at hp
      obtain ⟨b, hb, hp⟩ := Option.map_eq_some_iff.mp hp
      rw [Bool.and_eq_true] at hp
      rw [hb, hp.1]
    have hpending : r'.placeholders = r.placeholders := by
      rw [f.pending, f'.pending, f.diagnostics_eq f' hsub (hall hr)]
    rw [← hp]
    unfold Report.provesGoal
    rw [hreaches hr, hpending]

/-- From the necessity of a sentence to its truth, carried over within one world. -/
def necessityLines : List Line := createLines [("□P", "PR", 0, none), ("P", "□E 1", 0, none)]

theorem verdicts_mono_necessity : ∃ o r r',
    Outline.build necessityLines (some (.sentence (.atom "P"))) 0 = .ok o ∧
    verify o ⟨some .t, false⟩ = .ok r ∧ r.provesGoal = some true ∧
    verify o ⟨some .s5, true⟩ = .ok r' ∧ r'.provesGoal = some true := by
  obtain ⟨o, ho, h⟩ := exists_ok
    (x := Outline.build necessityLines (some (.sentence (.atom "P"))) 0)
    (p := fun o => (verify o ⟨some .t, false⟩).toOption.any fun r => r.provesGoal = some true)
    (by decide +kernel)
  obtain ⟨r, hr, hproves⟩ := exists_ok h
  rw [decide_eq_true_iff] at hproves
  have hsub : (Config.mk (some .t) false).rulesets ⊆ (Config.mk (some .s5) true).rulesets := by
    decide
  obtain ⟨r₁, r', hr₁, hr', -, -, -, hgoal⟩ := verdicts_mono ho (by decide +kernel) hsub
  rw [hr] at hr₁
  cases hr₁
  exact ⟨o, r, r', ho, hr, hproves, hr', hgoal hproves⟩

end ModalFitch
