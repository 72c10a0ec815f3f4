import Mathlib.Data.List.Forall2
import ModalFitch.Proofs.Citing
import ModalFitch.Proofs.Pieces
import ModalFitch.Proofs.Spelling

/-! What a renumbered justification says.

* `Citation.written`: the text of a citation, which is read back as the citation.
* `Citation.moved`: the citation of the lines that its ends become.
* `Justification.read_renumbered`: a justification that can be read has, after its citations are
  moved, the same label and the moved citations; where an end has gone, the first citation that has
  lost one cannot be read. -/

namespace ModalFitch
set_option autoImplicit false

namespace Justification

/-! ## Written citations -/

theorem not_separator_of_digit {c : Char} (h : Text.isDigit c = true) :
    (CodePoint.char c).is isSeparator = false := by
  have hblank := Text.isBlank_digit h
  have hother : c ≠ ';' ∧ c ≠ ',' := by
    constructor <;> rintro rfl <;> revert h <;> decide
  simp [CodePoint.is, isSeparator, hother.1, hother.2, hblank]

theorem settled_digits {ds : List Char} (hds : ∀ c ∈ ds, Text.isDigit c = true) {t : Text}
    (ht : Settled t) (hdash : ∀ rest, dashBefore? t = some rest → t = .char '-' :: rest) :
    Settled (Text.ofChars ds ++ t) := by
  induction ds with
  | nil => exact ht
  | cons d ds ih =>
    rw [Text.ofChars_cons, List.cons_append]
    refine settled_cons (ih fun c hc => hds c (List.mem_cons_of_mem d hc)) fun _ rest h => ?_
    cases ds with
    | nil => exact hdash rest h
    | cons d' ds =>
      -- A digit follows, and so no dash.
      have hd' : (CodePoint.char d').is Text.isDigit = true := hds d' (by simp)
      rw [Text.ofChars_cons, List.cons_append, dashBefore?_digit _ hd'] at h
      cases h

theorem openEnded_concat {t : Text} {p : CodePoint} (hp : p.is isDash = false) :
    openEnded (t ++ [p]) = false := by
  unfold openEnded
  rw [List.reverse_append, List.reverse_singleton, List.singleton_append]
  cases t.reverse with
  | nil => rfl
  | cons q t' => simp [hp]

/-- Digits after a text leave no dash open. -/
theorem openEnded_digits (t : Text) {ds : List Char} (hds : ∀ c ∈ ds, Text.isDigit c = true)
    (hne : ds ≠ []) : openEnded (t ++ Text.ofChars ds) = false := by
  obtain ⟨ds, d, rfl⟩ : ∃ ds' d, ds = ds' ++ [d] :=
    ⟨_, _, (List.dropLast_append_getLast hne).symm⟩
  have e : t ++ Text.ofChars (ds ++ [d]) = t ++ Text.ofChars ds ++ [.char d] := by
    simp [Text.ofChars]
  rw [e]
  have hd : (CodePoint.char d).is Text.isDigit = true := hds d (by simp)
  exact openEnded_concat (not_dash_of_digit hd)

/-- A citation's text begins with digits. Another run of digits may follow after a hyphen. -/
theorem isCitationPiece_digits {ds : List Char} (hds : ∀ c ∈ ds, Text.isDigit c = true)
    (hne : ds ≠ []) {tail : Text}
    (htail : tail = [] ∨ ∃ es, tail = .char '-' :: Text.ofChars es ∧ es ≠ [] ∧
      ∀ c ∈ es, Text.isDigit c = true) : IsCitationPiece (Text.ofChars ds ++ tail) := by
  have hclosed : ∀ {cs : List Char}, (∀ c ∈ cs, Text.isDigit c = true) →
      ∀ p ∈ Text.ofChars cs, p.is isSeparator = false := by
    intro cs hcs p hp
    obtain ⟨c, hc, rfl⟩ := List.mem_map.mp hp
    exact not_separator_of_digit (hcs c hc)
  have hhead : ∀ p t, Text.ofChars ds ++ tail = p :: t → p.is isDash = false := by
    intro p t e
    cases ds with
    | nil => exact absurd rfl hne
    | cons d ds =>
      cases e
      exact not_dash_of_digit (hds d List.mem_cons_self)
  have hnonempty : Text.ofChars ds ++ tail ≠ [] := by
    simpa [Text.ofChars] using fun h => absurd h hne
  rcases htail with rfl | ⟨es, rfl, hes, hdigits⟩
  · refine ⟨⟨hnonempty, ?_, settled_digits hds settled_nil (by intro _ h; cases h)⟩, hhead, ?_⟩
    · rw [List.append_nil]
      exact hclosed hds
    · rw [List.append_nil]
      exact openEnded_digits [] hds hne
  · have hsettled : Settled (Text.ofChars es) := by
      simpa using settled_digits hdigits settled_nil (by intro _ h; cases h)
    refine ⟨⟨hnonempty, ?_, settled_digits hds (settled_cons_of_not_digit rfl hsettled) ?_⟩, hhead, ?_⟩
    · intro p hp
      rcases List.mem_append.mp hp with hp | hp
      · exact hclosed hds p hp
      · rcases List.mem_cons.mp hp with rfl | hp
        · rfl
        · exact hclosed hdigits p hp
    · intro rest h
      obtain ⟨e, es, rfl⟩ := List.exists_cons_of_ne_nil hes
      have he : (CodePoint.char e).is Text.isDigit = true := hdigits e List.mem_cons_self
      have hdash : (CodePoint.char '-').is isDash = true := rfl
      rw [Text.ofChars_cons] at h ⊢
      rw [dashBefore?_dash _ hdash rfl (not_blank_of_digit he), if_pos he] at h
      cases h
      rfl
    · rw [← List.singleton_append, ← List.append_assoc]
      exact openEnded_digits _ hdigits hes

theorem isCitationPiece_dangling : IsCitationPiece dangling := by
  refine ⟨⟨by decide, by decide, settled_cons_of_not_digit rfl settled_nil⟩, ?_, by decide⟩
  intro p t e
  cases e
  rfl

theorem IsPiece.dropLineEnd {x : Text} (hx : IsPiece x) : x.dropLineEnd = x := by
  unfold Text.dropLineEnd
  split
  · rename_i h
    exact absurd (hx.closed _ (List.mem_of_getLast? h)) (by decide)
  · rfl

theorem citationDigits?_digits {ds : List Char} (hds : ∀ c ∈ ds, Text.isDigit c = true)
    (hne : ds ≠ []) {tail : Text} {es : Option (List Char)}
    (htail : (tail = [] ∧ es = none) ∨ ∃ es', tail = .char '-' :: Text.ofChars es' ∧ es' ≠ [] ∧
      (∀ c ∈ es', Text.isDigit c = true) ∧ es = some es') :
    citationDigits? (Text.ofChars ds ++ tail) = some (ds, es) := by
  have hpiece : IsCitationPiece (Text.ofChars ds ++ tail) := by
    refine isCitationPiece_digits hds hne ?_
    rcases htail with ⟨h, -⟩ | ⟨es', h, hne', hes, -⟩
    · exact .inl h
    · exact .inr ⟨es', h, hne', hes⟩
  have hstop : Text.leading Text.isDigit tail = [] ∧ tail.dropWhile (·.is Text.isDigit) = tail := by
    rcases htail with ⟨rfl, -⟩ | ⟨es', rfl, -⟩ <;> exact ⟨rfl, rfl⟩
  have hdrop : (Text.ofChars ds ++ tail).dropWhile (·.is Text.isDigit) = tail := by
    rw [List.dropWhile_append_of_pos, hstop.2]
    intro p hp
    obtain ⟨c, hc, rfl⟩ := List.mem_map.mp hp
    exact hds c hc
  unfold citationDigits?
  rw [hpiece.dropLineEnd]
  dsimp only
  rw [leading_append hds, hstop.1, List.append_nil, hdrop, if_neg (by simpa using hne)]
  rcases htail with ⟨rfl, rfl⟩ | ⟨es', rfl, hne', hes, rfl⟩
  · rfl
  · have hall : (Text.ofChars es').all (·.is Text.isDigit) = true := by
      rw [List.all_eq_true]
      intro p hp
      obtain ⟨c, hc, rfl⟩ := List.mem_map.mp hp
      exact hes c hc
    have hnil : (Text.ofChars es').isEmpty = false := by simpa [Text.ofChars] using hne'
    dsimp only
    rw [hall, hnil, if_pos (by simp), Text.chars_ofChars]

end Justification

namespace Citation

/-- The text of a citation. -/
def written (c : Citation) : Text :=
  Text.numeral c.start ++ match c.stop with
    | none => []
    | some b => .char '-' :: Text.numeral b

/-- The numbers of a citation can be read and written. -/
def Short (c : Citation) : Prop := ∀ n ∈ c.numbers, (Nat.toDigits 10 n).length ≤ Text.maxDigits

/-- The citation of what the lines of a citation have become, if both ends are still there. -/
def moved (dest : Nat → Option Nat) (c : Citation) : Option Citation :=
  match c.stop with
  | none => (dest c.start).map (⟨·, none⟩)
  | some b =>
    match dest c.start, dest b with
    | some a', some b' => some ⟨a', some b'⟩
    | _, _ => none

theorem moved_isNone (dest : Nat → Option Nat) (c : Citation) :
    (c.moved dest).isNone = c.numbers.any fun n => (dest n).isNone := by
  unfold moved numbers
  cases c.stop with
  | none => cases h : dest c.start <;> simp [h]
  | some b => cases h : dest c.start <;> cases h' : dest b <;> simp [h, h']

theorem written_isCitationPiece (c : Citation) : Justification.IsCitationPiece c.written := by
  refine Justification.isCitationPiece_digits (fun _ => Text.toDigits_decimal)
    Nat.toDigits_ne_nil ?_
  cases c.stop with
  | none => exact .inl rfl
  | some b => exact .inr ⟨_, rfl, Nat.toDigits_ne_nil, fun _ => Text.toDigits_decimal⟩

theorem citationDigits?_written (c : Citation) :
    Justification.citationDigits? c.written =
      some (Nat.toDigits 10 c.start, c.stop.map (Nat.toDigits 10)) := by
  refine Justification.citationDigits?_digits (fun _ => Text.toDigits_decimal)
    Nat.toDigits_ne_nil ?_
  cases c.stop with
  | none => exact .inl ⟨rfl, rfl⟩
  | some b => exact .inr ⟨_, rfl, Nat.toDigits_ne_nil, fun _ => Text.toDigits_decimal, rfl⟩

/-- A citation is read back from its text. -/
theorem readCitation_written {c : Citation} (hshort : c.Short)
    (horder : ∀ b, c.stop = some b → c.start ≤ b) (index : Int) :
    Justification.readCitation index c.written = .ok c := by
  have hread : ∀ n ∈ c.numbers, Text.natOfDigits (Nat.toDigits 10 n) = .ok n := by
    intro n hn
    rw [Text.natOfDigits, if_pos (hshort n hn), Text.digitsValue_toDigits]
  unfold Justification.readCitation
  rw [citationDigits?_written]
  obtain ⟨a, b⟩ := c
  have ha := hread a List.mem_cons_self
  cases b with
  | none =>
    have hn : Justification.citationNumbers (Nat.toDigits 10 a, none) = .ok (a, none) := by
      unfold Justification.citationNumbers
      rw [ha]
      rfl
    simp only [Option.map_none, hn]
  | some b =>
    have hb := hread b (by simp [numbers])
    have hn : Justification.citationNumbers (Nat.toDigits 10 a, some (Nat.toDigits 10 b)) =
        .ok (a, some b) := by
      unfold Justification.citationNumbers
      rw [ha]
      dsimp only [bind, Except.bind]
      rw [hb]
    simp only [Option.map_some, hn]
    rw [if_neg (Nat.not_lt.mpr (horder b rfl))]

end Citation

/-! ## Moved citations -/

namespace Justification

theorem readCitation_cases {index : Int} {x : Text} {c : Citation}
    (h : readCitation index x = .ok c) :
    (∃ digits, citationDigits? x = some digits ∧ citationNumbers digits = .ok (c.start, c.stop)) ∧
      ∀ b, c.stop = some b → c.start ≤ b := by
  unfold readCitation at h
  split at h
  · cases h
  · rename_i digits hdigits
    split at h
    · cases h
    · rename_i start hn
      cases h
      exact ⟨⟨digits, hdigits, hn⟩, fun b hb => by cases hb⟩
    · rename_i start stop hn
      split at h
      · cases h
      · rename_i hle
        cases h
        refine ⟨⟨digits, hdigits, hn⟩, fun b hb => ?_⟩
        cases hb
        exact Nat.not_lt.mp hle

/-- The text of a moved number, where it can be written. -/
theorem textOfInt_ok {n : Nat} {s : String} (h : Text.textOfInt (n : Int) = .ok s) :
    (Nat.toDigits 10 n).length ≤ Text.maxDigits ∧ Text.ofString s = Text.numeral n := by
  rw [Text.textOfInt_natCast] at h
  split at h
  · rename_i hlen
    cases h
    exact ⟨hlen, Text.ofString_toString n⟩
  · cases h

theorem ofString_append (s t : String) : Text.ofString (s ++ t) = Text.ofString s ++ Text.ofString t := by
  simp [Text.ofString, Text.ofChars]

/-- What becomes of a piece that is a citation: the moved citation, or the mark of a lost one. -/
theorem renumberPiece_cases {dest : Nat → Option Nat} {index : Int} {x y : Text} {c : Citation}
    (hread : readCitation index x = .ok c)
    (h : renumberPiece (fun n => (dest n).map Nat.cast) x = .ok y) :
    (∃ c', c.moved dest = some c' ∧ c'.Short ∧ y = c'.written) ∨
      (c.moved dest = none ∧ y = dangling) := by
  obtain ⟨⟨digits, hdigits, hn⟩, -⟩ := readCitation_cases hread
  obtain ⟨a, b⟩ := c
  unfold renumberPiece at h
  simp only [hdigits] at h
  obtain ⟨⟨a', b'⟩, hn', h⟩ := bind_ok.mp h
  rw [hn] at hn'
  cases hn'
  unfold Citation.moved
  cases b with
  | none =>
    dsimp only at h ⊢
    cases ha : dest a with
    | none =>
      simp only [ha] at h
      cases h
      exact .inr ⟨rfl, rfl⟩
    | some a' =>
      simp only [ha, Option.map_some] at h
      obtain ⟨s, hs, h⟩ := bind_ok.mp h
      cases h
      obtain ⟨hlen, e⟩ := textOfInt_ok hs
      refine .inl ⟨⟨a', none⟩, rfl, ?_, ?_⟩
      · intro n hn
        cases List.mem_singleton.mp hn
        exact hlen
      · rw [e]
        simp [Citation.written]
  | some b =>
    dsimp only at h ⊢
    cases ha : dest a with
    | none =>
      simp only [ha, Option.map_none] at h
      cases h
      exact .inr ⟨rfl, rfl⟩
    | some a' =>
      cases hb : dest b with
      | none =>
        simp only [ha, hb, Option.map_none] at h
        cases h
        exact .inr ⟨rfl, rfl⟩
      | some b' =>
        simp only [ha, hb, Option.map_some] at h
        obtain ⟨s, hs, h⟩ := bind_ok.mp h
        obtain ⟨t, ht, h⟩ := bind_ok.mp h
        cases h
        obtain ⟨hlen, e⟩ := textOfInt_ok hs
        obtain ⟨hlen', e'⟩ := textOfInt_ok ht
        refine .inl ⟨⟨a', some b'⟩, rfl, ?_, ?_⟩
        · intro n hn
          rcases List.mem_cons.mp hn with rfl | hn
          · exact hlen
          · cases List.mem_singleton.mp hn
            exact hlen'
        · rw [ofString_append, ofString_append, e, e', List.append_assoc]
          rfl

/-- Line numbers keep their order where they are kept. -/
def Rising (dest : Nat → Option Nat) : Prop :=
  ∀ a b a' b', a ≤ b → dest a = some a' → dest b = some b' → a' ≤ b'

theorem moved_ordered {dest : Nat → Option Nat} (hdest : Rising dest) {c c' : Citation}
    (hc : ∀ b, c.stop = some b → c.start ≤ b) (h : c.moved dest = some c') :
    ∀ b, c'.stop = some b → c'.start ≤ b := by
  obtain ⟨a, b⟩ := c
  unfold Citation.moved at h
  cases b with
  | none =>
    obtain ⟨a', -, rfl⟩ := Option.map_eq_some_iff.mp h
    intro b hb
    cases hb
  | some b =>
    dsimp only at h
    split at h
    · rename_i a' b' ha hb
      cases h
      intro b₁ hb₁
      cases hb₁
      exact hdest a b a' b' (hc b rfl) ha hb
    · cases h

/-- The citations of the moved pieces, or the first of them that has lost an end. -/
theorem readCitations_moved {dest : Nat → Option Nat} (hdest : Rising dest) {xs ys : List Text}
    {cs : List Citation} {index : Int} (hread : readCitations index xs = .ok cs)
    (h : xs.mapM (renumberPiece fun n => (dest n).map Nat.cast) = .ok ys) :
    (∀ y ∈ ys, IsCitationPiece y) ∧
      ((cs.findIdx? (fun c => (c.moved dest).isNone) = none →
        ∃ cs', List.Forall₂ (fun c c' => c.moved dest = some c') cs cs' ∧
          readCitations index ys = .ok cs') ∧
       ∀ i, cs.findIdx? (fun c => (c.moved dest).isNone) = some i →
        readCitations index ys = .error (.malformed (.notCitation (index + i) dangling))) := by
  induction xs generalizing index cs ys with
  | nil =>
    cases hread
    cases h
    refine ⟨fun y hy => ?_, fun _ => ⟨[], .nil, rfl⟩, fun i hi => ?_⟩
    · cases hy
    · cases hi
  | cons x xs ih =>
    rw [readCitations] at hread
    obtain ⟨c, hc, hread⟩ := bind_ok.mp hread
    obtain ⟨cs, hcs, hread⟩ := bind_ok.mp hread
    cases hread
    rw [List.mapM_cons] at h
    obtain ⟨y, hy, h⟩ := bind_ok.mp h
    obtain ⟨ys, hys, h⟩ := bind_ok.mp h
    cases h
    obtain ⟨hpieces, hkept, hlost⟩ := ih hcs hys
    rw [List.findIdx?_cons]
    rcases renumberPiece_cases hc hy with ⟨c', hc', hshort, rfl⟩ | ⟨hnone, rfl⟩
    · have hread' := Citation.readCitation_written hshort
        (moved_ordered hdest (readCitation_cases hc).2 hc') index
      rw [hc', Option.isNone_some, if_neg Bool.false_ne_true]
      refine ⟨fun z hz => ?_, fun hnone => ?_, fun i hi => ?_⟩
      · rcases List.mem_cons.mp hz with rfl | hz
        · exact c'.written_isCitationPiece
        · exact hpieces z hz
      · obtain ⟨cs', hall, hcs'⟩ := hkept (Option.map_eq_none_iff.mp hnone)
        refine ⟨c' :: cs', .cons hc' hall, ?_⟩
        rw [readCitations, hread', hcs']
        rfl
      · obtain ⟨i, hi', rfl⟩ := Option.map_eq_some_iff.mp hi
        rw [readCitations, hread', hlost i hi']
        have e : index + 1 + (i : Int) = index + ((i + 1 : Nat) : Int) := by push_cast; ring
        rw [e]
        rfl
    · rw [hnone, Option.isNone_none, if_pos rfl]
      refine ⟨fun z hz => ?_, fun hkept => ?_, fun i hi => ?_⟩
      · rcases List.mem_cons.mp hz with rfl | hz
        · exact isCitationPiece_dangling
        · exact hpieces z hz
      · cases hkept
      · cases hi
        rw [readCitations, show readCitation index dangling =
          .error (.malformed (.notCitation index dangling)) from rfl]
        simp [bind, Except.bind]

/-- What a renumbered text says: the same label with the moved citations, or that the first
citation with a lost end cannot be read. -/
theorem read_renumbered {dest : Nat → Option Nat} (hdest : Rising dest) {text : Text}
    {out : Option Text} {j : Justification} (hread : read text = .ok j)
    (hrule : openEnded j.rule = false)
    (h : renumber (fun n => (dest n).map Nat.cast) text = .ok out) :
    (j.citations.findIdx? (fun c => (c.moved dest).isNone) = none →
      ∃ cs', List.Forall₂ (fun c c' => c.moved dest = some c') j.citations cs' ∧
        read (out.getD text) = .ok ⟨j.rule, cs'⟩) ∧
     ∀ i, j.citations.findIdx? (fun c => (c.moved dest).isNone) = some i →
      read (out.getD text) = .error (.malformed (.notCitation i dangling)) := by
  unfold read at hread
  split at hread
  · cases hread
  · rename_i rule rest hpieces
    obtain ⟨cs, hcs, hread⟩ := bind_ok.mp hread
    cases hread
    have hpiece : IsPiece rule := (mem_pieces (by rw [hpieces]; exact List.mem_cons_self)).1
    unfold renumber at h
    simp only [hpieces] at h
    obtain ⟨moved, hmoved, h⟩ := bind_ok.mp h
    obtain ⟨hmem, hkept, hlost⟩ := readCitations_moved hdest hcs hmoved
    -- Changed or not, the new text is cut into the label and the moved pieces.
    have hcut : pieces (out.getD text) = rule :: moved := by
      split at h
      · rename_i e
        cases h
        rw [e]
        exact hpieces
      · rename_i hne
        cases h
        cases moved with
        | nil =>
          cases rest with
          | nil => exact absurd rfl hne
          | cons x xs =>
            rw [List.mapM_cons] at hmoved
            obtain ⟨y, -, hmoved⟩ := bind_ok.mp hmoved
            obtain ⟨ys, -, hmoved⟩ := bind_ok.mp hmoved
            cases hmoved
        | cons x xs =>
          exact pieces_rejoined hpiece hrule (hmem x List.mem_cons_self) fun y hy =>
            hmem y (List.mem_cons_of_mem x hy)
    have hnew : read (out.getD text) =
        readCitations 0 moved >>= fun cs => .ok ⟨rule, cs⟩ := by
      unfold read
      simp only [hcut]
    rw [hnew]
    refine ⟨fun hnone => ?_, fun i hi => ?_⟩
    · obtain ⟨cs', hall, hcs'⟩ := hkept hnone
      exact ⟨cs', hall, by rw [hcs']; rfl⟩
    · rw [hlost i hi, Int.zero_add]
      rfl

end Justification

end ModalFitch
