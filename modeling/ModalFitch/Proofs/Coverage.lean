import ModalFitch.Proofs.Totality

/-! A pass decides every line, and every look-up on the way finds what it asks for.

* `Pass.Furnished`: what a check looks up in the outline and among the worlds is there.
* `Pass.Settled`: the check of one line accepts or refuses it. The verdicts that it reads have been
  reached, and a rule is applied to sentences and subproofs that are there.
* `verify_exhaustive`: both hold of every laid out proof, and the report has one decided diagnostic
  for each line. -/

namespace ModalFitch
set_option autoImplicit false

theorem map_eq_range'_iff {α : Type} {f : α → Nat} {xs : List α} {count : Nat} :
    xs.map f = List.range' 1 count ↔
      xs.length = count ∧ ∀ (i : Nat) (x : α), xs[i]? = some x → f x = i + 1 := by
  constructor
  · intro h
    have hlen := congrArg List.length h
    rw [List.length_map, List.length_range'] at hlen
    refine ⟨hlen, fun i x hx => ?_⟩
    obtain ⟨hi, -⟩ := List.getElem?_eq_some_iff.mp hx
    have hat := congrArg (fun ys => ys[i]?) h
    simp only [List.getElem?_map, hx, Option.map_some,
      List.getElem?_range' (show i < count by omega), Option.some.injEq] at hat
    omega
  · rintro ⟨rfl, h⟩
    apply List.ext_getElem?
    intro i
    rw [List.getElem?_map]
    cases hx : xs[i]? with
    | none =>
      rw [List.getElem?_eq_none_iff] at hx
      simp [hx]
    | some x =>
      obtain ⟨hi, -⟩ := List.getElem?_eq_some_iff.mp hx
      rw [Option.map_some, h i x hx, List.getElem?_range' hi]
      simp [Nat.add_comm]

namespace Pass

/-- What a check looks up in the outline and among the worlds is there. -/
structure Furnished (p : Pass) : Prop where
  line : ∀ n, p.outline.hasLine n = true → ∃ l s w, p.outline.line n = .ok l ∧
    p.outline.scopeOf n = .ok s ∧ p.worldOf n = .ok w
  ancestor : ∀ s ∈ p.outline.scopes, ∀ k ∈ s.enclosing, ∃ r, p.outline.scope k = .ok r
  parent : ∀ s ∈ p.outline.subproofs, ∃ r w, p.outline.parent? s = some r ∧
    s.parent? = some r.id ∧ p.worlds.ofScope r.id = .ok w
  outer : ∀ w ∈ p.worlds.worlds, ∀ k, w.parent = some k → ∃ u, p.worlds.worlds[k]? = some u
  shown : ∀ s ∈ p.outline.subproofs, s.items ≠ [] ∧ (∃ m, p.outline.summary s = .ok m) ∧
    ∀ n, .line n ∈ s.items → p.outline.hasLine n = true

/-- The check of a line after the diagnostics before it, and what it comes to. A rule is applied only
once the citations lead somewhere and nothing cited is invalid. -/
structure Settled (p : Pass) (done : List Diagnostic) (number : Nat) (l : Line) (v : Verdict) : Prop where
  judged : (∃ rule, p.judge done number l = .ok rule ∧ v = .valid rule) ∨
    ∃ e, p.judge done number l = .error (.refused e) ∧ v = .invalid l.ruleLabel? e
  decided : ∀ transfer index ms, p.resolveAll number transfer index l.citations = .ok ms →
    ∀ c ∈ l.citations, ∀ k, c.start ≤ k → k ≤ c.last →
      ∃ u, verdictAt done k = .ok u ∧ u ≠ .unchecked
  material : ∀ transfer index ms, p.resolveAll number transfer index l.citations = .ok ms →
    checkDependencies done index l.citations = .ok () → ∃ materials, ms = List.map some materials
  conclusion : l.sentence? = none →
    ∃ e, p.judge done number l = .error (.refused e) ∧ e.reason = .parseError

namespace Grounded

variable {p : Pass} (g : p.Grounded)
include g

theorem furnished : p.Furnished := by
  refine ⟨?_, ?_, ?_, ?_, ?_⟩
  · intro n hn
    obtain ⟨l, hl⟩ := Outline.hasLine_iff.mp hn
    obtain ⟨s, w, hs, -, -, hw⟩ := g.line_home hl
    exact ⟨l, s, w, Outline.line_ok.mpr hl, hs, hw⟩
  · intro s hs k hk
    obtain ⟨r, hr, -⟩ := g.nested.enclosing_suffix (g.nested.hasScope_of_mem hs) hk
    exact ⟨r, by simp [Outline.scope, hr]⟩
  · intro s hs
    obtain ⟨hk, h0⟩ := (g.nested.mem_subproofs g.rootless).mp hs
    obtain ⟨around, -, ha, -, -, hp, -⟩ := g.nested.subproof hk h0
    obtain ⟨w, hw, -⟩ := g.scope_world ha
    refine ⟨around, w, ?_, hp, hw⟩
    rw [Outline.parent?, hp, Option.bind_some]
    exact ha
  · intro w hw k hp
    rcases g.reflects.rooted w hw with rfl | ⟨u, hu, hpu, -, -⟩
    · cases hp
    · obtain ⟨i, hi⟩ := List.mem_iff_getElem?.mp hu
      have hid := g.reflects.numbered i u hi
      rw [hpu, hid] at hp
      cases hp
      exact ⟨u, hi⟩
  · intro s hs
    obtain ⟨hk, h0⟩ := (g.nested.mem_subproofs g.rootless).mp hs
    obtain ⟨-, -, -, -, -, -, -, -, hfirst⟩ := g.nested.subproof hk h0
    refine ⟨List.ne_nil_of_mem (g.nested.item_of_scopeOf hfirst), g.nested.summary_total hk h0, ?_⟩
    intro n hn
    obtain ⟨-, k, hk', -⟩ := g.nested.scopeOf_cases (g.nested.line_item hk hn)
    exact Outline.hasLine_iff.mpr ⟨k, hk'⟩

theorem cited_before {number : Nat} {transfer : Transfer} {index : Int} {cs : List Citation}
    {ms : List (Option Material)} (hms : p.resolveAll number transfer index cs = .ok ms)
    {c : Citation} (hc : c ∈ cs) : 1 ≤ c.start ∧ c.start ≤ c.last ∧ c.last < number := by
  obtain ⟨m, -, hm⟩ := forall₂_exists_left (resolveAll_iff.mp hms).flip hc
  exact g.resolved_before hm

/-- The verdicts that a check reads for its dependencies have been reached, as the citations lead to
earlier lines only. -/
theorem cited_decided {done : List Diagnostic} (hdone : p.Reached done) {transfer : Transfer}
    {index : Int} {cs : List Citation} {ms : List (Option Material)}
    (hms : p.resolveAll (done.length + 1) transfer index cs = .ok ms) {c : Citation} (hc : c ∈ cs)
    {k : Nat} (h1 : c.start ≤ k) (h2 : k ≤ c.last) :
    ∃ u, verdictAt done k = .ok u ∧ u ≠ .unchecked := by
  obtain ⟨hpos, -, hlast⟩ := g.cited_before hms hc
  obtain ⟨u, hu⟩ : ∃ u, verdictAt done k = .ok u := verdictAt_total (by omega) (by omega)
  refine ⟨u, hu, ?_⟩
  rintro rfl
  obtain ⟨l, -, hl⟩ := hdone.line_verdict hu
  exact verdict_not_unchecked hl

theorem settled {done : List Diagnostic} (hdone : p.Reached done) {l : Line} {v : Verdict}
    (hv : p.verdict done (done.length + 1) l = .ok v) : p.Settled done (done.length + 1) l v := by
  refine ⟨?_, ?_, ?_, ?_⟩
  · unfold verdict at hv
    split at hv
    · rename_i rule hj
      exact .inl ⟨rule, hj, (Except.ok.inj hv).symm⟩
    · rename_i e hj
      exact .inr ⟨e, hj, (Except.ok.inj hv).symm⟩
    · cases hv
  · intro transfer index ms hms c hc k h1 h2
    exact g.cited_decided hdone hms hc h1 h2
  · intro transfer index ms hms hdep
    refine materials_present hdone (resolveAll_iff.mp hms) fun c hc => ?_
    exact checkDependencies_iff.mp hdep c hc c.start (Nat.le_refl _) (g.cited_before hms hc).2.1
  · intro hnone
    cases hread : l.reading with
    | ok s => rw [Line.sentence?_eq_some.mpr hread] at hnone; cases hnone
    | error e => exact ⟨⟨.sentence e, none⟩, by simp [judge, hread, Check.refuse], rfl⟩

end Grounded

theorem Reached.take {p : Pass} {done : List Diagnostic} (hdone : p.Reached done) (k : Nat) :
    p.Reached (done.take k) := by
  refine ⟨Nat.le_trans (List.length_take_le' k done) hdone.bound, fun i d hd => ?_⟩
  rw [List.getElem?_take] at hd
  split at hd
  · rename_i hi
    rw [List.take_take, Nat.min_eq_left (Nat.le_of_lt hi)]
    exact hdone.entry i d hd
  · cases hd

theorem Reached.numbers {p : Pass} {done : List Diagnostic} (hdone : p.Reached done) :
    done.map Diagnostic.number = List.range' 1 done.length :=
  map_eq_range'_iff.mpr ⟨rfl, fun i d hd => (hdone.entry i d hd).1⟩

end Pass

theorem verify_numbers {o : Outline} {config : Config} {r : Report} (h : verify o config = .ok r) :
    r.diagnostics.map Diagnostic.number = List.range' 1 o.size := by
  unfold verify at h
  obtain ⟨p, hp, h⟩ := bind_ok.mp h
  obtain ⟨ds, hds, h⟩ := bind_ok.mp h
  cases h
  obtain ⟨tree, -, hp⟩ := bind_ok.mp hp
  cases hp
  obtain ⟨hreached, hlen⟩ := Pass.run_reached hds
  rw [hreached.numbers, hlen]

namespace Report.From

variable {r : Report} {p : Pass} (f : r.From p)
include f

theorem length_before {n : Nat} {l : Line} (hl : p.outline.line? n = some l) :
    (r.diagnostics.take (n - 1)).length + 1 = n := by
  obtain ⟨hn, hle⟩ := Outline.hasLine_bounds.mp (Outline.hasLine_iff.mpr ⟨l, hl⟩)
  have hsize := f.complete
  rw [List.length_take]
  omega

theorem line_decided {n : Nat} {l : Line} (hl : p.outline.line? n = some l) :
    ∃ v, Pass.verdictAt r.diagnostics n = .ok v ∧
      p.verdict (r.diagnostics.take (n - 1)) n l = .ok v := by
  obtain ⟨hn, hle⟩ := Outline.hasLine_bounds.mp (Outline.hasLine_iff.mpr ⟨l, hl⟩)
  have hsize := f.complete
  obtain ⟨v, hv⟩ : ∃ v, Pass.verdictAt r.diagnostics n = .ok v :=
    Pass.verdictAt_total (by omega) (by omega)
  obtain ⟨l', hl', hverdict⟩ := f.reached.line_verdict hv
  rw [hl] at hl'
  cases hl'
  exact ⟨v, hv, hverdict⟩

theorem valid_iff {n : Nat} {l : Line} (hl : p.outline.line? n = some l) {found : Option RuleId} :
    Pass.verdictAt r.diagnostics n = .ok (.valid found) ↔
      p.Accepted (r.diagnostics.take (n - 1)) n l found := by
  obtain ⟨v, hv, hverdict⟩ := f.line_decided hl
  rw [← Pass.verdict_valid_iff, hv, hverdict]

/-- The diagnostic of a line has its number and the verdict on it. -/
theorem byLine_iff {n : Nat} {d : Diagnostic} :
    r.byLine n = .ok d ↔ d.number = n ∧ Pass.verdictAt r.diagnostics n = .ok d.verdict := by
  rw [Report.byLine_ok, Int.toNat_natCast, Pass.verdictAt_ok]
  constructor
  · rintro ⟨hn, hd⟩
    have hnumber := (f.reached.entry _ d hd).1
    exact ⟨by omega, by omega, d, hd, rfl⟩
  · rintro ⟨hnumber, hn, d', hd, hv⟩
    have hnumber' := (f.reached.entry _ d' hd).1
    refine ⟨by omega, hd.trans (congrArg some ?_)⟩
    cases d
    cases d'
    cases hv
    dsimp only at hnumber hnumber'
    rw [Diagnostic.mk.injEq]
    exact ⟨by omega, rfl⟩

/-- A line of a pass is valid exactly if the line with its number and its label is in another pass,
and by the same rule: then its status and its rule are the same. -/
theorem status_eq {p' : Pass} {r' : Report} (f' : r'.From p') {n : Nat} {l l' : Line}
    (hl : p.outline.line? n = some l) (hl' : p'.outline.line? n = some l')
    (hvalid : ∀ found, Pass.verdictAt r'.diagnostics n = .ok (.valid found) ↔
      Pass.verdictAt r.diagnostics n = .ok (.valid found))
    (hlabel : l'.ruleLabel? = l.ruleLabel? := by rfl) :
    ∃ d d', r.byLine n = .ok d ∧ r'.byLine n = .ok d' ∧ d'.status = d.status ∧
      d'.verdict.ruleText = d.verdict.ruleText ∧ (d.isValid = true → d' = d) := by
  obtain ⟨v, hv, hverdict⟩ := f.line_decided hl
  obtain ⟨v', hv', hverdict'⟩ := f'.line_decided hl'
  refine ⟨⟨n, v⟩, ⟨n, v'⟩, f.byLine_iff.mpr ⟨rfl, hv⟩, f'.byLine_iff.mpr ⟨rfl, hv'⟩, ?_⟩
  cases v with
  | unchecked => exact absurd hverdict Pass.verdict_not_unchecked
  | valid found =>
    rw [(hvalid found).mpr hv] at hv'
    cases hv'
    exact ⟨rfl, rfl, fun _ => rfl⟩
  | invalid label e =>
    cases v' with
    | unchecked => exact absurd hverdict' Pass.verdict_not_unchecked
    | valid found =>
      rw [(hvalid found).mp hv'] at hv
      cases hv
    | invalid label' e' =>
      have he := (Pass.verdict_invalid_iff.mp hverdict).1
      have he' := (Pass.verdict_invalid_iff.mp hverdict').1
      refine ⟨rfl, he'.symm.trans (hlabel.trans he), fun h => ?_⟩
      cases h

end Report.From

/-- A check of a proof gives a report with one diagnostic for each line, in order, each of them valid
or invalid for a reason. On the way nothing that is looked up is missing. -/
theorem verify_exhaustive {lines : List Line} {goal : Option Goal} {revision : Nat} {o : Outline}
    (hbuild : Outline.build lines goal revision = .ok o) (hopens : ∀ l ∈ lines, l.opens ≠ some .root)
    (config : Config) :
    ∃ tree report, WorldTree.ofOutline o = .ok tree ∧ verify o config = .ok report ∧
      report.diagnostics.map Diagnostic.number = List.range' 1 lines.length ∧
      (∀ d ∈ report.diagnostics, (d.status = .valid ∧ d.verdict.error? = none) ∨
        (d.status = .invalid ∧ ∃ e, d.verdict.error? = some e)) ∧
      (Pass.mk o config tree).Furnished ∧
      ∀ n l, o.line? n = some l → ∃ v, Pass.verdictAt report.diagnostics n = .ok v ∧
        (Pass.mk o config tree).Settled (report.diagnostics.take (n - 1)) n l v := by
  obtain ⟨hnested, rfl, -, -⟩ := Outline.build_cases hbuild
  obtain ⟨tree, report, hverify, htree, f⟩ := verify_total hnested hopens config
  refine ⟨tree, report, htree, hverify, verify_numbers hverify, ?_, f.grounded.furnished, ?_⟩
  · intro d hd
    obtain ⟨i, hi⟩ := List.mem_iff_getElem?.mp hd
    obtain ⟨-, l, -, hv⟩ := f.reached.entry i d hi
    unfold Diagnostic.status
    cases hverdict : d.verdict with
    | unchecked => exact absurd (hverdict ▸ hv) Pass.verdict_not_unchecked
    | valid rule => exact .inl ⟨rfl, rfl⟩
    | invalid label e => exact .inr ⟨rfl, e, rfl⟩
  · intro n l hl
    obtain ⟨v, hv, hverdict⟩ := f.line_decided hl
    have hnumber := f.length_before hl
    refine ⟨v, hv, ?_⟩
    have hsettled := f.grounded.settled (f.reached.take (n - 1)) (l := l) (v := v)
      (by rw [hnumber]; exact hverdict)
    rwa [hnumber] at hsettled

/-- Lines that cannot be read, or that cite themselves, later lines, no line or a closed subproof. -/
def troubledLines : List Line :=
  createLines [("P ∧", "PR", 0, none), ("P", "∧E 1", 0, none), ("Q", "R 9", 0, none),
    ("Q", "R 0", 0, none), ("Q", "R 5", 0, none), ("□", "", 1, some .modal),
    ("P", "AS", 2, some .ordinary), ("P", "R 7", 2, none), ("P → P", "→I 7-8", 1, none),
    ("□(P → P)", "□I 6-9", 0, none), ("P", "∨E 1, 6-9, 7-8", 0, none)]

theorem verify_exhaustive_troubled : ∃ o tree report l v,
    Outline.build troubledLines none 0 = .ok o ∧ WorldTree.ofOutline o = .ok tree ∧
    verify o ⟨some .k, false⟩ = .ok report ∧
    report.diagnostics.map Diagnostic.number = List.range' 1 11 ∧
    report.diagnostics.map Diagnostic.status = [.invalid, .invalid, .invalid, .invalid, .invalid,
      .valid, .valid, .valid, .valid, .valid, .invalid] ∧
    (Pass.mk o ⟨some .k, false⟩ tree).Furnished ∧ o.line? 11 = some l ∧
    Pass.verdictAt report.diagnostics 11 = .ok v ∧
    (Pass.mk o ⟨some .k, false⟩ tree).Settled (report.diagnostics.take 10) 11 l v := by
  obtain ⟨o, ho, h⟩ := exists_ok (x := Outline.build troubledLines none 0)
    (p := fun o => (o.line? 11).isSome && (verify o ⟨some .k, false⟩).toOption.any fun r =>
      r.diagnostics.map Diagnostic.status = [.invalid, .invalid, .invalid, .invalid, .invalid,
        .valid, .valid, .valid, .valid, .valid, .invalid])
    (by decide +kernel)
  rw [Bool.and_eq_true] at h
  obtain ⟨l, hl⟩ := Option.isSome_iff_exists.mp h.1
  obtain ⟨report, hreport, hstatus⟩ := exists_ok h.2
  rw [decide_eq_true_iff] at hstatus
  obtain ⟨tree, report', htree, hreport', hnumbers, -, hfurnished, hsettled⟩ :=
    verify_exhaustive ho (by decide +kernel) ⟨some .k, false⟩
  rw [hreport] at hreport'
  cases hreport'
  obtain ⟨v, hv, hline⟩ := hsettled 11 l hl
  exact ⟨o, tree, report, l, v, ho, htree, hreport, hnumbers, hstatus, hfurnished, hl, hv, hline⟩

end ModalFitch
