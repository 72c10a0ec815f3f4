import ModalFitch.Proofs.Editing
import ModalFitch.Session.Basic

/-! Whether the verdicts on display are those that a check would give now.

An edit of one line takes back the verdicts on the line and on those that depend on it by citations.
That is enough as long as the edit neither makes the first line of a subproof the lone box, or no
longer the lone box, nor changes whether a premise on display has nothing but premises before it.

* `Session.Current`: every verdict on display is the one that a check gives.
* `Session.Keeps`: what an edit has to leave alone.
* `Session.edit_current`, `Session.justification_current_iff`: one edit.
* `Session.run_cases`, `Session.complete_advances`: a pass, run at once or published later. -/

namespace ModalFitch
set_option autoImplicit false

namespace Session

/-- Every verdict on display is the one that a check of the document gives. -/
def Current (s : Session) : Prop :=
  ∃ r, verify s.document.outline s.config = .ok r ∧
    ∀ (i : Nat) (d : Diagnostic), s.diagnostics[i]? = some d → d.status ≠ .unchecked →
      r.diagnostics[i]? = some d

/-- `Current` as a computation. -/
def isCurrent (s : Session) : Bool :=
  (verify s.document.outline s.config).toOption.any fun r => s.diagnostics.zipIdx.all fun (d, i) =>
    d.status = .unchecked || r.diagnostics[i]? = some d

theorem isCurrent_iff {s : Session} : s.isCurrent = true ↔ s.Current := by
  unfold isCurrent Current
  cases verify s.document.outline s.config with
  | error e => simp [Except.toOption]
  | ok r =>
    simp only [Except.toOption, Option.any_some, List.all_eq_true, Prod.forall,
      List.mem_zipIdx_iff_getElem?, Bool.or_eq_true, decide_eq_true_eq, Except.ok.injEq,
      exists_eq_left']
    constructor
    · intro h i d hd hne
      exact (h d i hd).resolve_left hne
    · intro h d i hd
      exact or_iff_not_imp_left.mpr (h i d hd)

instance (s : Session) : Decidable s.Current := decidable_of_iff _ isCurrent_iff

/-- A verdict on the line is on display. -/
def Shows (s : Session) (m : Nat) : Prop :=
  ∃ v, Pass.verdictAt s.diagnostics m = .ok v ∧ v ≠ .unchecked

/-- There is an entry for each line, and with a verdict on a line those on the lines that it cites
are on display. -/
structure Coherent (s : Session) : Prop where
  nested : s.document.outline.Nested
  proper : ∀ l ∈ s.document.outline.lines, l.Proper
  count : s.diagnostics.length = s.document.outline.size
  numbered : ∀ (i : Nat) (d : Diagnostic), s.diagnostics[i]? = some d → d.number = i + 1
  closed : ∀ m l c k, s.Shows m → s.document.outline.line? m = some l → c ∈ l.citations →
    c.start ≤ k → k ≤ c.last → s.document.outline.hasLine k = true → s.Shows k

/-- The premises of the main proof on display have nothing but premises before them as before. -/
def KeepsPremises (s s' : Session) : Prop :=
  ∀ m l, s'.Shows m → s'.document.outline.line? m = some l → l.IsMainPremise →
    Pass.onlyPremises s'.document.outline (m - 1) = Pass.onlyPremises s.document.outline (m - 1)

/-- What an edit of one line has to leave alone: whether the first line of a subproof is the lone box,
and whether the premises on display have nothing but premises before them. -/
def Keeps (s : Session) : Edit → Prop
  | .sentence number text => ∀ l, s.document.outline.line? number.toNat = some l →
      l.opens.isSome = true → (l.withSentence text).isMarker = l.isMarker
  | .justification number text => ∀ s' change answer,
      s.edit (.justification number text) = .ok (s', change, answer) → s.KeepsPremises s'
  | _ => True

/-! ## Entries -/

theorem allUnchecked_entry {count i : Nat} {d : Diagnostic}
    (h : (allUnchecked count)[i]? = some d) : d = ⟨i + 1, .unchecked⟩ := by
  unfold allUnchecked at h
  rw [List.getElem?_map] at h
  obtain ⟨n, hn, rfl⟩ := Option.map_eq_some_iff.mp h
  obtain ⟨hi, e⟩ := List.getElem?_eq_some_iff.mp hn
  rw [List.getElem_range'] at e
  rw [← e]
  congr 1
  omega

theorem length_allUnchecked (count : Nat) : (allUnchecked count).length = count := by
  unfold allUnchecked
  rw [List.length_map, List.length_range']

theorem allUnchecked_verdict {count m : Nat} {v : Verdict}
    (h : Pass.verdictAt (allUnchecked count) m = .ok v) : v = .unchecked := by
  obtain ⟨-, d, hd, rfl⟩ := Pass.verdictAt_ok.mp h
  rw [allUnchecked_entry hd]

theorem takeBack_entry {numbers : List Nat} {ds : List Diagnostic} {i : Nat} {d : Diagnostic} :
    (takeBack numbers ds)[i]? = some d ↔ ∃ d', ds[i]? = some d' ∧
      (if i + 1 ∈ numbers then ⟨i + 1, .unchecked⟩ else d') = d := by
  unfold takeBack
  rw [List.getElem?_mapIdx, Option.map_eq_some_iff]
  simp only [List.contains_iff_mem]

/-- The verdicts that are left are those on other lines, as before. -/
theorem takeBack_verdict {numbers : List Nat} {ds : List Diagnostic} {m : Nat} {v : Verdict}
    (hv : v ≠ .unchecked) : Pass.verdictAt (takeBack numbers ds) m = .ok v ↔
      m ∉ numbers ∧ Pass.verdictAt ds m = .ok v := by
  rw [Pass.verdictAt_ok, Pass.verdictAt_ok]
  constructor
  · rintro ⟨hm, d, hd, rfl⟩
    obtain ⟨d', hd', e⟩ := takeBack_entry.mp hd
    have hi : m - 1 + 1 = m := by omega
    rw [hi] at e
    split at e
    · rw [← e] at hv
      exact absurd rfl hv
    · rename_i hout
      exact ⟨hout, hm, d', hd', by rw [e]⟩
  · rintro ⟨hout, hm, d, hd, rfl⟩
    have hi : m - 1 + 1 = m := by omega
    refine ⟨hm, d, takeBack_entry.mpr ⟨d, hd, ?_⟩, rfl⟩
    rw [hi, if_neg hout]

theorem verdictAt_bounds {ds : List Diagnostic} {m : Nat} {v : Verdict}
    (h : Pass.verdictAt ds m = .ok v) : 1 ≤ m ∧ m ≤ ds.length := by
  obtain ⟨hm, d, hd, -⟩ := Pass.verdictAt_ok.mp h
  obtain ⟨hlt, -⟩ := List.getElem?_eq_some_iff.mp hd
  omega

theorem status_unchecked {d : Diagnostic} : d.status = .unchecked ↔ d.verdict = .unchecked := by
  unfold Diagnostic.status
  cases d.verdict <;> simp [Verdict.status]

namespace Coherent

variable {s : Session} (h : s.Coherent)
include h

theorem verified : ∃ t r, verify s.document.outline s.config = .ok r ∧
    WorldTree.ofOutline s.document.outline = .ok t ∧ r.From ⟨s.document.outline, s.config, t⟩ :=
  verify_total h.nested (fun l hl => (h.proper l hl).rootless) s.config

/-- As the entries are numbered, it is enough to compare verdicts. -/
theorem current_iff {r : Report} {t : WorldTree}
    (hr : verify s.document.outline s.config = .ok r)
    (f : r.From ⟨s.document.outline, s.config, t⟩) :
    s.Current ↔ ∀ m v, Pass.verdictAt s.diagnostics m = .ok v → v ≠ .unchecked →
      Pass.verdictAt r.diagnostics m = .ok v := by
  constructor
  · rintro ⟨r', hr', hcur⟩ m v hv hne
    rw [hr] at hr'
    cases hr'
    obtain ⟨hm, d, hd, rfl⟩ := Pass.verdictAt_ok.mp hv
    exact Pass.verdictAt_ok.mpr ⟨hm, d, hcur (m - 1) d hd (status_unchecked.not.mpr hne), rfl⟩
  · intro hcur
    refine ⟨r, hr, fun i d hd hne => ?_⟩
    have hv : Pass.verdictAt s.diagnostics (i + 1) = .ok d.verdict :=
      Pass.verdictAt_ok.mpr ⟨Nat.succ_ne_zero i, d, hd, rfl⟩
    obtain ⟨-, d', hd', e⟩ := Pass.verdictAt_ok.mp (hcur (i + 1) _ hv (status_unchecked.not.mp hne))
    have hd' : r.diagnostics[i]? = some d' := hd'
    have hnumber : d'.number = d.number := by
      rw [h.numbered i d hd, (f.reached.entry i d' hd').1]
    have hsame : d' = d := by
      cases d
      cases d'
      cases e
      cases hnumber
      rfl
    rw [hd', hsame]

/-- Where no verdict is on display, nothing is out of date. -/
theorem current_of_blank (hblank : s.diagnostics = allUnchecked s.document.outline.size) :
    s.Current := by
  obtain ⟨-, r, hr, -, -⟩ := h.verified
  refine ⟨r, hr, fun i d hd hne => ?_⟩
  rw [hblank] at hd
  rw [allUnchecked_entry hd] at hne
  exact absurd rfl hne

end Coherent

/-- A session without verdicts on display. -/
theorem coherent_of_blank {s : Session} (hnested : s.document.outline.Nested)
    (hproper : ∀ l ∈ s.document.outline.lines, l.Proper)
    (hblank : s.diagnostics = allUnchecked s.document.outline.size) : s.Coherent := by
  refine ⟨hnested, hproper, ?_, ?_, ?_⟩
  · rw [hblank, length_allUnchecked]
  · intro i d hd
    rw [hblank] at hd
    rw [allUnchecked_entry hd]
  · rintro m l c k ⟨v, hv, hne⟩ _ _ _ _ _
    rw [hblank] at hv
    exact absurd (allUnchecked_verdict hv) hne

/-! ## Edits -/

theorem edit_ok {s s' : Session} {e : Edit} {change : Change} {answer : EditAnswer}
    (h : s.edit e = .ok (s', change, answer)) :
    ∃ d, s.document.edit e = .ok (d, change, answer) ∧
      s' = { s with document := d, diagnostics := displayAfter s.diagnostics d change } := by
  unfold edit at h
  obtain ⟨⟨d, change', answer'⟩, hd, h⟩ := bind_ok.mp h
  cases h
  exact ⟨d, hd, rfl⟩

theorem displayAfter_other {ds : List Diagnostic} {d : Document} {change : Change}
    (h : change.kind ≠ .edit) : displayAfter ds d change = allUnchecked d.size := by
  unfold displayAfter
  split
  · rename_i hkind _
    exact absurd hkind h
  · rfl

theorem displayAfter_edit {ds : List Diagnostic} {d : Document} {change : Change} {n : Nat}
    (hkind : change.kind = .edit) (hnumbers : change.numbers = [n]) (hcount : ds.length = d.size) :
    displayAfter ds d change = takeBack (n :: d.outline.dependents n) ds := by
  unfold displayAfter
  rw [hkind, hnumbers]
  exact if_pos hcount

/-- What an edit does to a session: it takes back all verdicts, or those on a line and on the lines
that depend on it. -/
theorem edit_cases {s s' : Session} (h : s.Coherent) {e : Edit} (he : e.Rootless) {change : Change}
    {answer : EditAnswer} (hedit : s.edit e = .ok (s', change, answer)) :
    s'.config = s.config ∧ s'.document.outline.Nested ∧
      s'.document.revision = s.document.revision + 1 ∧
      (∀ l ∈ s'.document.outline.lines, l.Proper) ∧
      (s'.diagnostics = allUnchecked s'.document.outline.size ∨
       ∃ n l l', s.document.outline.line? n = some l ∧ e.Rewrites n l l' ∧
        Outline.build (s.document.outline.lines.set (n - 1) l') s.document.goal
          (s.document.revision + 1) = .ok s'.document.outline ∧
        s'.diagnostics = takeBack (n :: s'.document.outline.dependents n) s.diagnostics) := by
  obtain ⟨d, hd, rfl⟩ := edit_ok hedit
  obtain ⟨-, lines, hbuild, hcase⟩ := Document.edit_cases hd
  obtain ⟨hnested, hlines, -, hrev⟩ := Outline.build_cases hbuild
  have hproper := (Document.edit_lasting Line.proper_lasting h.proper he hd).2
  refine ⟨rfl, hnested, hrev, hproper, ?_⟩
  dsimp only
  rcases hcase with ⟨hkind, -⟩ | ⟨n, l, l', hkind, hnumbers, hl, rfl, hrw⟩
  · exact .inl (displayAfter_other hkind)
  · obtain ⟨hn, -⟩ := Outline.line?_eq_some.mp hl
    refine .inr ⟨n, l, l', hl, hrw, hbuild, displayAfter_edit hkind hnumbers ?_⟩
    rw [h.count]
    exact (Outline.replace_others hn hbuild).1.symm

theorem shows_takeBack {s s' : Session} {numbers : List Nat}
    (h : s'.diagnostics = takeBack numbers s.diagnostics) {m : Nat} :
    s'.Shows m ↔ m ∉ numbers ∧ s.Shows m := by
  unfold Shows
  rw [h]
  constructor
  · rintro ⟨v, hv, hne⟩
    obtain ⟨hout, hv⟩ := (takeBack_verdict hne).mp hv
    exact ⟨hout, v, hv, hne⟩
  · rintro ⟨hout, v, hv, hne⟩
    exact ⟨v, (takeBack_verdict hne).mpr ⟨hout, hv⟩, hne⟩

theorem edit_coherent {s s' : Session} (h : s.Coherent) {e : Edit} (he : e.Rootless)
    {change : Change} {answer : EditAnswer} (hedit : s.edit e = .ok (s', change, answer)) :
    s'.Coherent := by
  obtain ⟨-, hnested, -, hproper, hcase⟩ := edit_cases h he hedit
  rcases hcase with hblank | ⟨n, l, l', hl, -, hbuild, htake⟩
  · exact coherent_of_blank hnested hproper hblank
  · obtain ⟨hsize, hothers⟩ := Outline.replace_others (Outline.line?_eq_some.mp hl).1 hbuild
    refine ⟨hnested, hproper, ?_, ?_, ?_⟩
    · rw [htake, hsize, ← h.count]
      exact List.length_mapIdx
    · intro i d hd
      rw [htake] at hd
      obtain ⟨d', hd', rfl⟩ := takeBack_entry.mp hd
      split
      · rfl
      · exact h.numbered i d' hd'
    · intro m k c j hm hk hc h1 h2 hj
      obtain ⟨hout, hm⟩ := (shows_takeBack htake).mp hm
      have hmn : m ≠ n := fun e => hout (e ▸ List.mem_cons_self)
      refine (shows_takeBack htake).mpr
        ⟨fun hin => hout (Outline.dependents_closed hk hc h1 h2 hin), ?_⟩
      rw [hothers m hmn] at hk
      refine h.closed m k c j hm hk hc h1 h2 ?_
      rw [Outline.hasLine_bounds] at hj ⊢
      rwa [← hsize]

theorem Shows.hasLine {s : Session} (h : s.Coherent) {m : Nat} (hm : s.Shows m) :
    s.document.outline.hasLine m = true := by
  obtain ⟨v, hv, -⟩ := hm
  rw [Outline.hasLine_bounds, ← h.count]
  exact verdictAt_bounds hv

/-- After a change of one line that leaves the layout alike, the verdicts that stay are those that a
check gives, if the premises keep their place. -/
theorem Coherent.current_of_edited {s s' : Session} (h : s.Coherent) (h' : s'.Coherent)
    (hconfig : s'.config = s.config) {n : Nat}
    (hedited : s.document.outline.Edited s'.document.outline n)
    (htake : s'.diagnostics = takeBack (n :: s'.document.outline.dependents n) s.diagnostics)
    (hprem : s.KeepsPremises s') (hcur : s.Current) : s'.Current := by
  obtain ⟨t, r, hr, ht, f⟩ := h.verified
  obtain ⟨t', r', hr', ht', f'⟩ := h'.verified
  have htree : t' = t := by
    unfold WorldTree.ofOutline at ht ht'
    rw [hedited.alike.scopes, ht] at ht'
    cases ht'
    rfl
  rw [h'.current_iff hr' f']
  rw [h.current_iff hr f] at hcur
  rw [htree, hconfig] at f'
  intro m v hv hne
  have hm : s'.Shows m := ⟨v, hv, hne⟩
  have hn : ¬s'.Shows n := fun hn => ((shows_takeBack htake).mp hn).1 List.mem_cons_self
  rw [hedited.verdict_eq f f' hn (fun k hk => hk.hasLine h') h'.closed hprem hm]
  rw [htake] at hv
  exact hcur m v ((takeBack_verdict hne).mp hv).2 hne

/-- An edit that keeps what a verdict rests on apart from citations leaves no verdict out of date on
display. -/
theorem edit_current {s s' : Session} (h : s.Coherent) {e : Edit} (he : e.Rootless)
    {change : Change} {answer : EditAnswer} (hedit : s.edit e = .ok (s', change, answer))
    (hkeep : s.Keeps e) (hcur : s.Current) : s'.Current := by
  have h' := edit_coherent h he hedit
  obtain ⟨hconfig, -, -, -, hcase⟩ := edit_cases h he hedit
  rcases hcase with hblank | ⟨n, l, l', hl, hrw, hbuild, htake⟩
  · exact h'.current_of_blank hblank
  · cases hrw with
    | sentence number text =>
      have hedited := (Edit.Rewrites.sentence number text l).edited h.nested h.proper hl
        (hkeep l hl) hbuild
      exact h.current_of_edited h' hconfig hedited htake
        (fun m k _ _ _ => Pass.onlyPremises_withSentence hl hbuild (m - 1)) hcur
    | justification number text hj =>
      have hmarker : l'.isMarker = l.isMarker := by
        unfold Line.isMarker
        rw [(Line.withJustification_cases hj).1]
      have hedited := (Edit.Rewrites.justification number text hj).edited h.nested h.proper hl
        (fun _ => hmarker) hbuild
      exact h.current_of_edited h' hconfig hedited htake (hkeep s' change answer hedit) hcur

/-- For an edit of a justification the condition is exact. -/
theorem justification_current_iff {s s' : Session} (h : s.Coherent) (hcur : s.Current)
    {number : Int} {text : Text} {change : Change} {answer : EditAnswer}
    (hedit : s.edit (.justification number text) = .ok (s', change, answer)) :
    s'.Current ↔ s.KeepsPremises s' := by
  have he : (Edit.justification number text).Rootless := trivial
  constructor
  · intro hcur' m l hm hl hprem
    have h' := edit_coherent h he hedit
    obtain ⟨-, -, -, -, hcase⟩ := edit_cases h he hedit
    obtain ⟨v, hv, hne⟩ := hm
    rcases hcase with hblank | ⟨n, k, k', hk, -, hbuild, htake⟩
    · rw [hblank] at hv
      exact absurd (allUnchecked_verdict hv) hne
    · obtain ⟨t, r, hr, -, f⟩ := h.verified
      obtain ⟨t', r', hr', -, f'⟩ := h'.verified
      rw [h'.current_iff hr' f'] at hcur'
      rw [h.current_iff hr f] at hcur
      have hnew := hcur' m v hv hne
      rw [htake] at hv
      obtain ⟨hout, hv⟩ := (takeBack_verdict hne).mp hv
      have hmn : m ≠ n := fun e => hout (e ▸ List.mem_cons_self)
      obtain ⟨-, hothers⟩ := Outline.replace_others (Outline.line?_eq_some.mp hk).1 hbuild
      obtain ⟨l₁, hl₁, hv₁⟩ := f.reached.line_verdict (hcur m v hv hne)
      obtain ⟨l₂, hl₂, hv₂⟩ := f'.reached.line_verdict hnew
      dsimp only at hl₁ hl₂
      rw [← hothers m hmn, hl] at hl₁
      rw [hl] at hl₂
      cases hl₁
      cases hl₂
      exact Pass.onlyPremises_eq hprem hv₁ hv₂
  · intro hkeep
    refine edit_current h he hedit (fun s₁ _ _ h₁ => ?_) hcur
    rw [hedit] at h₁
    cases h₁
    exact hkeep

/-! ## Passes -/

theorem verify_revision {o : Outline} {config : Config} {r : Report}
    (h : verify o config = .ok r) : r.revision = o.revision := by
  unfold verify at h
  obtain ⟨p, -, h⟩ := bind_ok.mp h
  obtain ⟨ds, -, h⟩ := bind_ok.mp h
  cases h
  rfl

/-- A ticket of an earlier revision, or for the current outline. -/
def Issued (s : Session) (t : Ticket) : Prop :=
  t.outline.revision ≤ s.document.revision ∧
    (t.outline.revision = s.document.revision → t.outline = s.document.outline)

theorem Coherent.published {s : Session} (h : s.Coherent) {r : Report}
    (hr : verify s.document.outline s.config = .ok r) :
    Coherent { s with report := some r, diagnostics := r.diagnostics } := by
  obtain ⟨t, r', hr', -, f⟩ := h.verified
  rw [hr] at hr'
  cases hr'
  refine ⟨h.nested, h.proper, f.complete, fun i d hd => (f.reached.entry i d hd).1, ?_⟩
  intro m l c k _ _ _ _ _ hk
  have hbounds : 1 ≤ k ∧ k ≤ s.document.outline.size := Outline.hasLine_bounds.mp hk
  have hlen : r.diagnostics.length = s.document.outline.size := f.complete
  obtain ⟨v, hv⟩ : ∃ v, Pass.verdictAt r.diagnostics k = .ok v :=
    Pass.verdictAt_total (by omega) (by omega)
  refine ⟨v, hv, fun e => ?_⟩
  obtain ⟨l', -, hl'⟩ := f.reached.line_verdict hv
  rw [e] at hl'
  exact Pass.verdict_not_unchecked hl'

/-- A finished pass is published, or it is stale and nothing happens. -/
theorem complete_cases (s : Session) (t : Ticket) (r : Report) :
    (t.number = s.latest ∧ t.config = s.config ∧ r.revision = s.document.revision) ∧
      s.complete t r = ({ s with report := some r, diagnostics := r.diagnostics }, true) ∨
    ¬(t.number = s.latest ∧ t.config = s.config ∧ r.revision = s.document.revision) ∧
      s.complete t r = (s, false) := by
  have hstale : s.isStale t r = true ↔
      ¬(t.number = s.latest ∧ t.config = s.config ∧ r.revision = s.document.revision) := by
    simp only [isStale, Bool.or_eq_true, decide_eq_true_eq]
    tauto
  unfold complete
  by_cases h : s.isStale t r = true
  · exact .inr ⟨hstale.mp h, if_pos h⟩
  · exact .inl ⟨not_not.mp (hstale.not.mp h), if_neg h⟩

/-- What a step of a session keeps: the display is in order, no ticket is ahead of the document, and
under a condition no verdict goes out of date. -/
structure Advances (s s' : Session) (kept : Prop) : Prop where
  coherent : s'.Coherent
  issued : ∀ t, s.Issued t → s'.Issued t
  current : kept → s.Current → s'.Current

theorem Coherent.advances_refl {s : Session} (h : s.Coherent) {kept : Prop} : s.Advances s kept :=
  ⟨h, fun _ ht => ht, fun _ hcur => hcur⟩

theorem edit_advances {s s' : Session} (h : s.Coherent) {e : Edit} (he : e.Rootless)
    {change : Change} {answer : EditAnswer} (hedit : s.edit e = .ok (s', change, answer)) :
    s.Advances s' (s.Keeps e) := by
  refine ⟨edit_coherent h he hedit, fun t ht => ?_, edit_current h he hedit⟩
  obtain ⟨-, -, hrev, -, -⟩ := edit_cases h he hedit
  have hle := ht.1
  exact ⟨by omega, fun e => by omega⟩

theorem setGoal_advances {s : Session} (h : s.Coherent) (goal : Option Goal) {kept : Prop} :
    s.Advances (s.setGoal goal) kept :=
  ⟨⟨h.nested, h.proper, h.count, h.numbered, h.closed⟩, fun _ ht => ht, fun _ hcur => hcur⟩

theorem setConfig_advances {s : Session} (h : s.Coherent) (config : Config) {kept : Prop} :
    s.Advances (s.setConfig config) kept := by
  have h' : (s.setConfig config).Coherent := coherent_of_blank h.nested h.proper rfl
  exact ⟨h', fun _ ht => ht, fun _ _ => h'.current_of_blank rfl⟩

theorem Coherent.begin {s : Session} (h : s.Coherent) : s.begin.1.Coherent :=
  ⟨h.nested, h.proper, h.count, h.numbered, h.closed⟩

theorem begin_issued (s : Session) : s.begin.1.Issued s.begin.2 := ⟨Nat.le_refl _, fun _ => rfl⟩

/-- A pass is published only over the current outline and under the current logic. -/
theorem complete_advances {s : Session} (h : s.Coherent) {t : Ticket} (ht : s.Issued t) {r : Report}
    (hr : t.verify = .ok r) {kept : Prop} : s.Advances (s.complete t r).1 kept := by
  rcases s.complete_cases t r with ⟨⟨-, hconfig, hrev⟩, e⟩ | ⟨-, e⟩
  · rw [e]
    have houtline : t.outline = s.document.outline := ht.2 (by rw [← hrev, verify_revision hr])
    have hnow : verify s.document.outline s.config = .ok r := by
      rw [← houtline, ← hconfig]
      exact hr
    exact ⟨h.published hnow, fun _ hu => hu, fun _ _ => ⟨r, hnow, fun _ _ hd _ => hd⟩⟩
  · rw [e]
    exact h.advances_refl

/-- A pass that runs at once is published. -/
theorem run_cases {s : Session} (h : s.Coherent) :
    ∃ r, verify s.document.outline s.config = .ok r ∧ s.run.1 =
      { s with latest := s.latest + 1, report := some r, diagnostics := r.diagnostics } := by
  obtain ⟨-, r, hr, -, -⟩ := h.verified
  have hrev : r.revision = s.document.outline.revision := verify_revision hr
  refine ⟨r, hr, ?_⟩
  have hverify : s.begin.2.verify = .ok r := hr
  have hfresh : s.begin.1.isStale s.begin.2 r = false := by
    simp [isStale, begin, Document.revision, hrev]
  simp only [run, hverify, complete, hfresh]
  rfl

theorem run_current {s : Session} (h : s.Coherent) : s.run.1.Current := by
  obtain ⟨r, hr, e⟩ := run_cases h
  rw [e]
  exact ⟨r, hr, fun _ _ hd _ => hd⟩

theorem run_advances {s : Session} (h : s.Coherent) {kept : Prop} : s.Advances s.run.1 kept := by
  obtain ⟨r, hr, e⟩ := run_cases h
  refine ⟨?_, ?_, fun _ _ => run_current h⟩
  · rw [e]
    exact h.begin.published hr
  · rw [e]
    exact fun _ ht => ht

end Session

end ModalFitch
