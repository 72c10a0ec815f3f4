import ModalFitch.Proofs.Coverage
import ModalFitch.Proofs.Placement

/-! What another content of one line can change.

* `Line.Recasts`: a line with other texts that stands, opens and is labelled as the line did.
* `Outline.Edited.dependents_eq`: the lines that depend on a line do not depend on its content.
* `edits_reach_dependents_only`: the diagnostics of all the other lines stay. -/

namespace ModalFitch
set_option autoImplicit false

/-- Another sentence and justification of a line at the same place: the line opens what it opened,
with the lone box if it was the lone box, and is labelled as a premise if it was. -/
structure Line.Recasts (l l' : Line) : Prop where
  depth : l'.depth = l.depth
  opens : l'.opens = l.opens
  marker : l'.isMarker = l.isMarker
  premise : l'.isPremise = l.isPremise

namespace Line.Recasts

variable {l l' : Line} (h : l.Recasts l')
include h

theorem bare_eq : l'.bare = l.bare := by
  unfold bare
  rw [h.depth, h.opens]

theorem shape_eq : l'.shape = l.shape := by
  unfold shape
  rw [h.depth, h.opens]

end Line.Recasts

namespace Outline

variable {o o' : Outline} {n : Nat}

theorem Alike.worldTree_eq (a : o.Alike o') : WorldTree.ofOutline o' = WorldTree.ofOutline o := by
  unfold WorldTree.ofOutline
  rw [a.scopes]

theorem Alike.numbers_eq (a : o.Alike o') : o'.numbers = o.numbers := by
  unfold numbers
  rw [a.size]

/-- Citations lead from a line to the same lines, whatever that line itself cites: a path that comes
back to it starts again there. -/
theorem reaches_others (hothers : ∀ k, k ≠ n → o'.line? k = o.line? k) {m : Nat}
    (h : Reaches o.isCitedBy o.numbers [n] m) :
    m = n ∨ Reaches o'.isCitedBy o.numbers [n] m := by
  have hcited : ∀ k m, m ≠ n → o.isCitedBy k m = true → o'.isCitedBy k m = true := by
    intro k m hm hk
    unfold isCitedBy at hk ⊢
    rw [hothers m hm]
    exact hk
  induction h with
  | @first m k hk hkm hm =>
    by_cases hne : m = n
    · exact .inl hne
    · exact .inr (.first hk (hcited k m hne hkm) hm)
  | @next m k _ hkm hm ih =>
    by_cases hne : m = n
    · exact .inl hne
    · have hkm := hcited k m hne hkm
      rcases ih with rfl | ih
      · exact .inr (.first List.mem_cons_self hkm hm)
      · exact .inr (.next ih hkm hm)

/-- The lines that depend on a line are the same for every content of it. -/
theorem Edited.dependents_eq (e : o.Edited o' n) : o'.dependents n = o.dependents n := by
  unfold dependents
  rw [e.alike.numbers_eq]
  apply List.filter_congr
  intro m _
  rw [Bool.eq_iff_iff]
  simp only [Bool.and_eq_true, List.contains_iff_mem, mem_reachable_iff, bne_iff_ne, List.mem_singleton]
  constructor
  · rintro ⟨h, hne⟩
    rw [← e.alike.numbers_eq] at h ⊢
    have hback : ∀ k, k ≠ n → o.line? k = o'.line? k := fun k hk => (e.others k hk).symm
    exact ⟨reaches_others hback (h.resolve_left hne), hne⟩
  · rintro ⟨h, hne⟩
    exact ⟨reaches_others e.others (h.resolve_left hne), hne⟩

/-- The other lines keep their verdicts, if the labels before the premises stay. -/
theorem Edited.verdictAt_eq (e : o.Edited o' n) {config : Config} {t : WorldTree} {r r' : Report}
    (f : r.From ⟨o, config, t⟩) (f' : r'.From ⟨o', config, t⟩)
    (hprem : ∀ count, Pass.onlyPremises o' count = Pass.onlyPremises o count) {m : Nat}
    (hm : o.hasLine m = true) (hindep : m ∉ n :: o.dependents n) :
    Pass.verdictAt r'.diagnostics m = Pass.verdictAt r.diagnostics m := by
  refine e.verdict_eq f f' (S := fun m => o.hasLine m = true ∧ m ∉ n :: o.dependents n)
    (fun h => h.2 List.mem_cons_self) (fun m h => ?_) ?_ (fun m _ _ _ _ => hprem (m - 1))
    ⟨hm, hindep⟩
  · rw [e.alike.hasLine_eq]
    exact h.1
  · -- what an independent line cites is independent too
    intro m l c k hm hl hc h1 h2 hk
    rw [e.alike.hasLine_eq] at hk
    rw [e.others m (fun h => hm.2 (h ▸ List.mem_cons_self))] at hl
    exact ⟨hk, fun hdep => hm.2 (dependents_closed hl hc h1 h2 hdep)⟩

end Outline

/-- Other texts of a line, with its place, its opening and its label as they were, make an outline
again, on which the same lines depend, and every line that is not one of them has the diagnostic
that it had. -/
theorem edits_reach_dependents_only {lines : List Line} {goal : Option Goal} {revision : Nat}
    {o : Outline} (h : Outline.build lines goal revision = .ok o)
    (hroot : ∀ l ∈ lines, l.opens ≠ some .root) {n : Nat} {l l' : Line} (hl : o.line? n = some l)
    (hl' : l.Recasts l') (goal' : Option Goal) (revision' : Nat) (config : Config) :
    ∃ o' r r', Outline.build (lines.set (n - 1) l') goal' revision' = .ok o' ∧
      verify o config = .ok r ∧ verify o' config = .ok r' ∧
      o'.dependents n = o.dependents n ∧
      ∀ m, o.hasLine m = true → m ≠ n → m ∉ o.dependents n →
        ∃ d, r.byLine m = .ok d ∧ r'.byLine m = .ok d := by
  obtain ⟨ho, rfl, -, -⟩ := Outline.build_cases h
  obtain ⟨-, hat⟩ := Outline.line?_eq_some.mp hl
  obtain ⟨o', hbuild⟩ : ∃ o', Outline.build (o.lines.set (n - 1) l') goal' revision' = .ok o' :=
    Outline.build_iff_fits.mpr (set_fits ho.fits hat hl'.shape_eq)
  obtain ⟨ho', hlines, -, -⟩ := Outline.build_cases hbuild
  have e := ho.edited hl hl'.bare_eq (fun _ => hl'.marker) hbuild
  have hprem := Pass.onlyPremises_replaced hl hl'.depth hl'.premise hbuild
  have hroot' : o'.Rootless := by
    intro k hk
    rw [hlines] at hk
    rcases List.mem_or_eq_of_mem_set hk with hk | rfl
    · exact hroot k hk
    · rw [hl'.opens]
      exact hroot l (List.mem_of_getElem? hat)
  obtain ⟨t, r, hr, ht, f⟩ := verify_total ho hroot config
  obtain ⟨t', r', hr', ht', f'⟩ := verify_total ho' hroot' config
  rw [e.alike.worldTree_eq, ht] at ht'
  cases ht'
  refine ⟨o', r, r', hbuild, hr, hr', e.dependents_eq, fun m hm hne hdep => ?_⟩
  have hsame := e.verdictAt_eq f f' hprem hm (by simp [hne, hdep])
  obtain ⟨k, hk⟩ := Outline.hasLine_iff.mp hm
  obtain ⟨v, hv, -⟩ := f.line_decided hk
  exact ⟨⟨m, v⟩, f.byLine_iff.mpr ⟨rfl, hv⟩, f'.byLine_iff.mpr ⟨rfl, hsame ▸ hv⟩⟩

/-- A strict subproof between two lines of which the second cites the first. -/
def besideLines : List Line :=
  createLines [("□P", "PR", 0, none), ("Q", "PR", 0, none), ("P", "□E 1", 0, none),
    ("□", "", 1, some .modal), ("P", "□E 1", 1, none), ("□P", "□I 4-5", 0, none),
    ("P ∧ Q", "∧I 3, 2", 0, none)]

/-- The third line is made to cite the last one, which cites it. -/
theorem edits_reach_dependents_only_cyclic : ∃ o l l' o' r r' d,
    Outline.build besideLines none 0 = .ok o ∧ o.line? 3 = some l ∧
    Line.create "Q" "R 7" 0 none = .ok l' ∧ l.Recasts l' ∧ o.dependents 3 = [7] ∧
    Outline.build (besideLines.set 2 l') none 1 = .ok o' ∧ o'.dependents 3 = [7] ∧
    verify o ⟨some .t, false⟩ = .ok r ∧ verify o' ⟨some .t, false⟩ = .ok r' ∧
    r.byLine 6 = .ok d ∧ r'.byLine 6 = .ok d := by
  obtain ⟨l', hl', hlike⟩ := exists_ok (x := Line.create "Q" "R 7" 0 none)
    (p := fun l' => l'.depth = 0 && l'.opens = none && !l'.isMarker && !l'.isPremise)
    (by decide +kernel)
  obtain ⟨o, ho, h⟩ := exists_ok (x := Outline.build besideLines none 0)
    (p := fun o => (o.line 3).toOption.any (fun l =>
      l.depth = 0 && l.opens = none && !l.isMarker && !l.isPremise) &&
      o.dependents 3 = [7] && o.hasLine 6)
    (by decide +kernel)
  simp only [Bool.and_eq_true, decide_eq_true_eq, Bool.not_eq_true'] at h hlike
  obtain ⟨⟨hline, hdep⟩, hsix⟩ := h
  obtain ⟨l, hl, hplain⟩ := exists_ok hline
  have hl := Outline.line_ok.mp hl
  simp only [Bool.and_eq_true, decide_eq_true_eq, Bool.not_eq_true'] at hplain
  have hrecast : l.Recasts l' :=
    ⟨by rw [hlike.1.1.1, hplain.1.1.1], by rw [hlike.1.1.2, hplain.1.1.2],
      by rw [hlike.1.2, hplain.1.2], by rw [hlike.2, hplain.2]⟩
  obtain ⟨o', r, r', ho', hr, hr', hdep', hsame⟩ := edits_reach_dependents_only ho
    (by decide +kernel) hl hrecast none 1 ⟨some .t, false⟩
  obtain ⟨d, hd, hd'⟩ := hsame 6 hsix (by decide) (by rw [hdep]; decide)
  exact ⟨o, l, l', o', r, r', d, ho, hl, hl', hrecast, hdep, ho', by rw [hdep', hdep], hr, hr',
    hd, hd'⟩

end ModalFitch
