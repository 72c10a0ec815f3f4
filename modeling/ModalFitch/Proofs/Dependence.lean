import Mathlib.Data.List.Nodup
import Mathlib.Data.List.Perm.Subperm
import Mathlib.Logic.Relation
import ModalFitch.Proofs.Cascade
import ModalFitch.Proofs.Locality

/-! The lines that depend on a line, as paths along citations.

Justifications may cite lines that come later, the line itself or no line at all, and may cite each
other in circles. The sweeps that look for dependents end all the same, at the lines from which a
path leads to the given one.

* `Outline.Cites`: a justification reaches a line, ranges in full.
* `Outline.reaches_iff_path`: what the sweeps reach from a line is what paths lead from.
* `dependents_exact`: the dependents of a line, and how many sweeps it takes to find them. -/

namespace ModalFitch
set_option autoImplicit false

namespace Outline

/-- The second number is among the lines that the justification of the first reaches. -/
def Cites (o : Outline) (m k : Nat) : Prop := ∃ ks, o.citedLines m = .ok ks ∧ k ∈ ks

variable {o : Outline} {n m k : Nat}

theorem cites_iff : o.Cites m k ↔ ∃ l, o.line? m = some l ∧ ∃ c ∈ l.citations, c.start ≤ k ∧ k ≤ c.last := by
  constructor
  · rintro ⟨ks, hks, hk⟩
    obtain ⟨l, hl, -⟩ := bind_ok.mp hks
    have hl := line_ok.mp hl
    obtain ⟨ks', hks', hmem⟩ := citedLines_mem hl
    cases hks.symm.trans hks'
    exact ⟨l, hl, (hmem k).mp hk⟩
  · rintro ⟨l, hl, hc⟩
    obtain ⟨ks, hks, hmem⟩ := citedLines_mem hl
    exact ⟨ks, hks, (hmem k).mpr hc⟩

theorem isCitedBy_iff : o.isCitedBy k m = true ↔ o.Cites m k := by
  rw [cites_iff, isCitedBy, Option.any_eq_true]
  simp only [Line.cites, List.any_eq_true, Bool.and_eq_true, decide_eq_true_eq]

theorem Cites.mem_numbers (h : o.Cites m k) : m ∈ o.numbers := by
  obtain ⟨l, hl, -⟩ := cites_iff.mp h
  exact Outline.mem_numbers.mpr (hasLine_iff.mpr ⟨l, hl⟩)

/-- The steps from a line to those that cite it lead where paths along citations come from. -/
theorem reaches_iff_path :
    Reaches o.isCitedBy o.numbers [n] m ↔ Relation.TransGen o.Cites m n := by
  constructor
  · intro h
    induction h with
    | first hy hyx _ =>
      cases List.mem_singleton.mp hy
      exact .single (isCitedBy_iff.mp hyx)
    | next _ hyx _ ih => exact ih.head (isCitedBy_iff.mp hyx)
  · intro h
    induction h using Relation.TransGen.head_induction_on with
    | single hmn => exact .first List.mem_cons_self (isCitedBy_iff.mpr hmn) hmn.mem_numbers
    | head hmk _ ih => exact ih.next (isCitedBy_iff.mpr hmk) hmk.mem_numbers

theorem dependents_rising (o : Outline) (n : Nat) : (o.dependents n).Pairwise (· < ·) :=
  List.Pairwise.filter _ List.pairwise_lt_range'

/-- What is marked when the sweeps end is the line itself with its dependents. -/
theorem reachable_perm (o : Outline) (n : Nat) :
    (reachable o.isCitedBy o.numbers [n]).Perm (n :: o.dependents n) := by
  have hnodup : (n :: o.dependents n).Nodup := by
    refine List.nodup_cons.mpr ⟨fun hn => (mem_dependents.mp hn).1 rfl, ?_⟩
    exact (o.dependents_rising n).imp Nat.ne_of_lt
  rw [List.perm_ext_iff_of_nodup (reachable_nodup (List.nodup_singleton n)) hnodup]
  intro m
  rw [mem_reachable_iff, List.mem_singleton, List.mem_cons, mem_dependents]
  by_cases hne : m = n <;> simp [hne]

end Outline

/-- The dependents of a line, each once and in order, are the other lines from which a path along
citations leads to it. Sweeps find them: no more of these mark a line than there are dependents, and
the next one marks none, with the line itself and its dependents marked. -/
theorem dependents_exact (o : Outline) (n : Nat) :
    (o.dependents n).Pairwise (· < ·) ∧
    (∀ m, m ∈ o.dependents n ↔ o.hasLine m = true ∧ m ≠ n ∧ Relation.TransGen o.Cites m n) ∧
    ∃ k ≤ (o.dependents n).length,
      (markSweep o.isCitedBy o.numbers)^[k + 1] [n] = (markSweep o.isCitedBy o.numbers)^[k] [n] ∧
      ((markSweep o.isCitedBy o.numbers)^[k] [n]).Perm (n :: o.dependents n) := by
  refine ⟨o.dependents_rising n, fun m => ?_, ?_⟩
  · rw [Outline.mem_dependents, Outline.reaches_iff_path]
    constructor
    · rintro ⟨hne, hpath⟩
      exact ⟨Outline.mem_numbers.mp (Outline.reaches_iff_path.mpr hpath).mem_domain, hne, hpath⟩
    · exact fun h => h.2
  · obtain ⟨hfixed, k, hk, hlen⟩ := reachable_iterate o.isCitedBy o.numbers [n]
    have hperm := o.reachable_perm n
    have hcount := hperm.length_eq
    rw [List.length_cons] at hcount
    rw [List.length_singleton] at hlen
    refine ⟨k, by omega, ?_, hk ▸ hperm⟩
    rw [Function.iterate_succ_apply', ← hk, hfixed]

/-- Three lines that cite each other in a circle, and one that cites itself and a range past the end. -/
def circularLines : List Line :=
  createLines [("P", "R 3", 0, none), ("P", "R 1", 0, none), ("P", "R 2", 0, none),
    ("P", "R 4, 3-9", 0, none)]

example : (Outline.build circularLines none 0).toOption.map (fun o =>
    (o.dependents 1, o.dependents 4)) = some ([2, 3, 4], []) := by decide +kernel

end ModalFitch
