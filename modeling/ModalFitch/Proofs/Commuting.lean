import ModalFitch.Proofs.Legibility

/-! Renumbering a justification text and reading it commute.

The text is trimmed, its dashes are joined, it is cut into pieces and written anew with separators of
one kind. What is read from it then is what was read before, with the numbers mapped, or the first
citation that has lost an end.

* `Justification.renumber_total`: a text that can be read can be renumbered, if the new numbers can be
  written.
* `renumbering_commutes`: what is read before and after. -/

namespace ModalFitch
set_option autoImplicit false

namespace Citation

/-- The citation with its ends mapped. -/
def mapEnds (f : Nat → Nat) (c : Citation) : Citation := ⟨f c.start, c.stop.map f⟩

instance (c : Citation) : Decidable c.Short :=
  inferInstanceAs (Decidable (∀ n ∈ c.numbers, (Nat.toDigits 10 n).length ≤ Text.maxDigits))

variable {dest : Nat → Option Nat} {f : Nat → Nat}

theorem moved_of_total {c : Citation} (h : ∀ n ∈ c.numbers, dest n = some (f n)) :
    c.moved dest = some (c.mapEnds f) := by
  obtain ⟨a, b⟩ := c
  have ha := h a List.mem_cons_self
  cases b with
  | none => simp [moved, mapEnds, ha]
  | some b =>
    have hb := h b (by simp [numbers])
    simp [moved, mapEnds, ha, hb]

theorem moved_all {cs cs' : List Citation} (h : ∀ c ∈ cs, ∀ n ∈ c.numbers, dest n = some (f n))
    (hall : List.Forall₂ (fun c c' => c.moved dest = some c') cs cs') : cs' = cs.map (mapEnds f) := by
  induction hall with
  | nil => rfl
  | @cons c c' cs cs' hc _ ih =>
    rw [moved_of_total (h c List.mem_cons_self)] at hc
    rw [List.map_cons, ih fun c hc => h c (List.mem_cons_of_mem _ hc), Option.some.inj hc]

end Citation

namespace Justification

variable {dest : Nat → Option Nat}

theorem renumberPiece_total {index : Int} {x : Text} {c : Citation}
    (hread : readCitation index x = .ok c) (hshort : ∀ c' ∈ c.moved dest, c'.Short) :
    ∃ y, renumberPiece (fun n => (dest n).map Nat.cast) x = .ok y := by
  have hwrite : ∀ c' ∈ c.moved dest, ∀ n ∈ c'.numbers, ∃ s, Text.textOfInt (n : Int) = .ok s := by
    intro c' hc' n hn
    exact ⟨toString n, by rw [Text.textOfInt_natCast, if_pos (hshort c' hc' n hn)]⟩
  obtain ⟨⟨digits, hdigits, hn⟩, -⟩ := readCitation_cases hread
  obtain ⟨a, b⟩ := c
  unfold renumberPiece
  simp only [hdigits]
  cases b with
  | none =>
    cases ha : dest a with
    | none =>
      refine ⟨dangling, bind_ok.mpr ⟨_, hn, ?_⟩⟩
      simp only [ha]
      rfl
    | some a' =>
      obtain ⟨s, hs⟩ := hwrite ⟨a', none⟩ (by simp [Citation.moved, ha]) a' List.mem_cons_self
      refine ⟨s, bind_ok.mpr ⟨_, hn, ?_⟩⟩
      simp only [ha]
      exact bind_ok.mpr ⟨s, hs, rfl⟩
  | some b =>
    cases ha : dest a with
    | none =>
      refine ⟨dangling, bind_ok.mpr ⟨_, hn, ?_⟩⟩
      simp only [ha]
      rfl
    | some a' =>
      cases hb : dest b with
      | none =>
        refine ⟨dangling, bind_ok.mpr ⟨_, hn, ?_⟩⟩
        simp only [ha, hb]
        rfl
      | some b' =>
        have hmoved : (⟨a', some b'⟩ : Citation) ∈ Citation.moved dest ⟨a, some b⟩ := by
          simp [Citation.moved, ha, hb]
        obtain ⟨s, hs⟩ := hwrite _ hmoved a' List.mem_cons_self
        obtain ⟨s', hs'⟩ := hwrite _ hmoved b' (by simp [Citation.numbers])
        refine ⟨Text.ofString (s ++ "-" ++ s'), bind_ok.mpr ⟨_, hn, ?_⟩⟩
        simp only [ha, hb]
        exact bind_ok.mpr ⟨s, hs, bind_ok.mpr ⟨s', hs', rfl⟩⟩

theorem readCitations_mem {index : Int} {xs : List Text} {cs : List Citation}
    (hread : readCitations index xs = .ok cs) {x : Text} (hx : x ∈ xs) :
    ∃ i, ∃ c ∈ cs, readCitation i x = .ok c := by
  induction xs generalizing index cs with
  | nil => cases hx
  | cons y ys ih =>
    rw [readCitations] at hread
    obtain ⟨c, hc, hread⟩ := bind_ok.mp hread
    obtain ⟨cs, hcs, hread⟩ := bind_ok.mp hread
    cases hread
    rcases List.mem_cons.mp hx with rfl | hx
    · exact ⟨index, c, List.mem_cons_self, hc⟩
    · obtain ⟨i, c', hmem, hc'⟩ := ih hcs hx
      exact ⟨i, c', List.mem_cons_of_mem c hmem, hc'⟩

theorem renumber_total {text : Text} {j : Justification} (hread : read text = .ok j)
    (hshort : ∀ c ∈ j.citations, ∀ c' ∈ c.moved dest, c'.Short) :
    ∃ out, renumber (fun n => (dest n).map Nat.cast) text = .ok out := by
  unfold read at hread
  unfold renumber
  cases hpieces : pieces text with
  | nil => exact ⟨none, rfl⟩
  | cons rule rest =>
    simp only [hpieces] at hread
    obtain ⟨cs, hcs, hread⟩ := bind_ok.mp hread
    cases hread
    have hmoves : ∀ x ∈ rest, ∃ y,
        renumberPiece (fun n => (dest n).map Nat.cast) x = .ok y ∧ True := by
      intro x hx
      obtain ⟨i, c, hmem, hc⟩ := readCitations_mem hcs hx
      obtain ⟨y, hy⟩ := renumberPiece_total hc (hshort c hmem)
      exact ⟨y, hy, trivial⟩
    obtain ⟨moved, hmoved, -⟩ := mapM_exists hmoves
    by_cases e : moved = rest
    · exact ⟨none, bind_ok.mpr ⟨moved, hmoved, if_pos e⟩⟩
    · exact ⟨_, bind_ok.mpr ⟨moved, hmoved, if_neg e⟩⟩

end Justification

/-- A text that is read as a label and citations can be renumbered by every partial map that keeps the
order of numbers, if the label does not end in a digit and a dash and the new numbers are not too long
to be written. Where all ends have an image, the new text, or the old one if nothing changes, is read
as the same label with every end mapped. Else the first citation with an end that has none is
refused. -/
theorem renumbering_commutes {shift : Nat → Option Nat} (hshift : Justification.Rising shift)
    {text : Text} {j : Justification} (hread : Justification.read text = .ok j)
    (hrule : Justification.openEnded j.rule = false)
    (hshort : ∀ c ∈ j.citations, ∀ c' ∈ c.moved shift, c'.Short) :
    ∃ out, Justification.renumber (fun n => (shift n).map Nat.cast) text = .ok out ∧
      (∀ f : Nat → Nat, (∀ c ∈ j.citations, ∀ n ∈ c.numbers, shift n = some (f n)) →
        Justification.read (out.getD text) = .ok ⟨j.rule, j.citations.map (Citation.mapEnds f)⟩) ∧
      ∀ i, j.citations.findIdx? (fun c => c.numbers.any fun n => (shift n).isNone) = some i →
        ∃ err, Justification.read (out.getD text) = .error (.malformed err) ∧
          err.kindName = "bad_citation" ∧ err.index = some i := by
  obtain ⟨out, hout⟩ := Justification.renumber_total hread hshort
  obtain ⟨hkept, hlost⟩ := Justification.read_renumbered hshift hread hrule hout
  simp only [Citation.moved_isNone] at hkept hlost
  refine ⟨out, hout, fun f hf => ?_, fun i hi => ⟨_, hlost i hi, rfl, rfl⟩⟩
  have hnone : j.citations.findIdx? (fun c => c.numbers.any fun n => (shift n).isNone) = none := by
    rw [List.findIdx?_eq_none_iff]
    intro c hc
    rw [← Citation.moved_isNone, Citation.moved_of_total (hf c hc)]
    rfl
  obtain ⟨cs', hall, hcs'⟩ := hkept hnone
  rw [hcs', Citation.moved_all hf hall]

/-- Separators and dashes of several kinds, and a digit of another script. -/
def mixedText : Text := "∨E ٣ ;4 – 6,\t7—8"

/-- Two lines are inserted before the fourth one. In another text the seventh line is gone. -/
theorem renumbering_commutes_mixed :
    Justification.read mixedText = .ok ⟨"∨E", [⟨3, none⟩, ⟨4, some 6⟩, ⟨7, some 8⟩]⟩ ∧
    (∃ out, Justification.renumber (fun n => (some (if n < 4 then n else n + 2)).map Nat.cast)
        mixedText = .ok out ∧
      Justification.read (out.getD mixedText) =
        .ok ⟨"∨E", [⟨3, none⟩, ⟨6, some 8⟩, ⟨9, some 10⟩]⟩) ∧
    ∃ out, Justification.renumber (fun n => (if n = 7 then none else some n).map Nat.cast)
        mixedText = .ok out ∧
      ∃ err, Justification.read (out.getD mixedText) = .error (.malformed err) ∧
        err.kindName = "bad_citation" ∧ err.index = some 2 := by
  have hread : Justification.read mixedText =
      .ok ⟨"∨E", [⟨3, none⟩, ⟨4, some 6⟩, ⟨7, some 8⟩]⟩ := by decide +kernel
  have hinsert : Justification.Rising fun n => some (if n < 4 then n else n + 2) := by
    intro a b a' b' hab ha hb
    cases ha
    cases hb
    split <;> split <;> omega
  have hremove : Justification.Rising fun n => if n = 7 then none else some n := by
    intro a b a' b' hab ha hb
    dsimp only at ha hb
    split at ha <;> cases ha
    split at hb <;> cases hb
    exact hab
  obtain ⟨out, hout, hkept, -⟩ := renumbering_commutes hinsert hread (by decide) (by decide)
  obtain ⟨out', hout', -, hlost⟩ := renumbering_commutes hremove hread (by decide) (by decide)
  exact ⟨hread, ⟨out, hout, hkept (fun n => if n < 4 then n else n + 2) fun _ _ _ _ => rfl⟩, out', hout',
    hlost 2 (by decide)⟩

end ModalFitch
