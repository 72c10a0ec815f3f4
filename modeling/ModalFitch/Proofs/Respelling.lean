import ModalFitch.Proofs.ErrorSpans

/-! Other spellings and other blanks do not change what a text says.

* `Symbol.SpeltBy.chosen`: every spelling is the chosen word where a blank or the end follows it.
* `Written`: a text that writes words in given spellings, with blanks between them.
* `tokens_written`: such a text is cut into those words.
* `respelling_invariant`: a text that writes the words of another one in any of their spellings is cut
  into words with the same symbols and is read as the same sentence, or refused for a reason of the
  same kind. -/

namespace ModalFitch
set_option autoImplicit false

/-! ## Words before a blank -/

/-- A text that is empty or starts with a blank. -/
def Text.Apart (t : Text) : Prop := ∀ p ∈ t.head?, p.is Text.isBlank = true

instance (t : Text) : Decidable t.Apart := inferInstanceAs (Decidable (∀ p ∈ t.head?, _))

theorem isBlank_of_isAtomTail {c : Char} (hc : isAtomTail c = true) : Text.isBlank c = false := by
  simp only [isAtomTail, Bool.or_eq_true, Bool.and_eq_true, decide_eq_true_eq, Char.le_def,
    UInt32.le_iff_toNat_le] at hc
  simp only [Char.reduceVal, UInt32.reduceToNat] at hc
  rcases hc with (hdigit | rfl) | rfl
  · refine isBlank_of_printed ?_
    unfold Char.toNat
    omega
  · decide
  · decide

theorem Text.Apart.separates {t : Text} (h : t.Apart) : Separates t := by
  intro c hc
  have hblank : Text.isBlank c = true := h _ hc
  constructor
  · cases htail : isAtomTail c with
    | false => rfl
    | true => exact absurd (isBlank_of_isAtomTail htail) (by rw [hblank]; decide)
  · rintro rfl
    revert hblank
    decide

/-- Characters that are no blanks and stand at the front of a word and a blank stand in the word. -/
theorem prefix_of_apart {cs word : List Char} {t : Text} (h : t.Apart)
    (hcs : ∀ c ∈ cs, Text.isBlank c = false) (hfits : Text.ofChars cs <+: Text.ofChars word ++ t) :
    cs <+: word := by
  induction cs generalizing word with
  | nil => exact List.nil_prefix
  | cons c cs ih =>
    cases word with
    | nil =>
      have hfits : Text.ofChars (c :: cs) <+: t := hfits
      obtain ⟨rest, rfl⟩ := hfits
      have hblank : Text.isBlank c = true := h (.char c) rfl
      exact absurd (hcs c List.mem_cons_self) (by rw [hblank]; decide)
    | cons d word =>
      obtain ⟨hcd, htail⟩ := List.cons_prefix_cons.mp hfits
      cases hcd
      exact List.cons_prefix_cons.mpr ⟨rfl, ih (fun x hx => hcs x (.tail _ hx)) htail⟩

theorem spelling_no_bracket : ∀ e ∈ spellings, e.1.length = 1 → e.1.head?.bind bracket? = none := by
  decide +kernel

/-- No spelling of an operator fits at a bracket that stands before a blank. -/
theorem operator?_bracket {c : Char} {x : Symbol} (hb : bracket? c = some x) {t : Text} (h : t.Apart) :
    operator? (.char c :: t) = none := by
  refine operator?_eq_none_iff.mpr fun e he hfits => ?_
  obtain ⟨-, hne, -, hblank⟩ := spelling_facts e he
  have hprefix : e.1 <+: [c] := prefix_of_apart h hblank hfits
  rcases List.prefix_cons_iff.mp hprefix with hnil | ⟨cs, hcs, hnil⟩
  · exact hne hnil
  · rw [List.prefix_nil.mp hnil] at hcs
    have hnone := spelling_no_bracket e he (by rw [hcs]; rfl)
    rw [hcs, List.head?_cons, Option.bind_some, hb] at hnone
    cases hnone

/-- Every spelling is the chosen word where a blank or the end of the text follows it. -/
theorem Symbol.SpeltBy.chosen {x : Symbol} {word : List Char} (h : x.SpeltBy word) {t : Text}
    (ht : t.Apart) : Chosen x word (Text.ofChars word ++ t) := by
  cases h with
  | operator hmem =>
    obtain ⟨hoperator, -, -, -⟩ := spelling_facts _ hmem
    refine ⟨.operator hmem, List.prefix_append _ _, fun e he hfits => ⟨hoperator, ?_⟩, ?_⟩
    · exact (prefix_of_apart ht (spelling_facts e he).2.2.2 hfits).length_le
    · rintro name rfl
      cases hoperator
  | opening b =>
    have hb := bracket?_eq_some_iff.mpr ⟨b, .inl ⟨rfl, rfl⟩⟩
    exact lexeme?_eq_some_iff.mp
      (lexeme?_bracket (operator?_bracket hb ht) hb (List.prefix_append _ _))
  | closing b =>
    have hb := bracket?_eq_some_iff.mpr ⟨b, .inr ⟨rfl, rfl⟩⟩
    exact lexeme?_eq_some_iff.mp
      (lexeme?_bracket (operator?_bracket hb ht) hb (List.prefix_append _ _))
  | atom hname => exact lexeme?_eq_some_iff.mp (lexeme?_atom hname ht.separates)

/-! ## Written words -/

def Text.Blank (t : Text) : Prop := ∀ p ∈ t, p.is Text.isBlank = true

instance (t : Text) : Decidable t.Blank := inferInstanceAs (Decidable (∀ p ∈ t, _))

/-- A text that writes words, each a symbol in one of its spellings: blanks, a word, and after it the
end of the text or a blank. -/
inductive Written : List (Symbol × List Char) → Text → Prop where
  | blank {gap : Text} : gap.Blank → Written [] gap
  | word {gap rest : Text} {x : Symbol} {word : List Char} {words : List (Symbol × List Char)} :
      gap.Blank → x.SpeltBy word → rest.Apart → Written words rest →
      Written ((x, word) :: words) (gap ++ (Text.ofChars word ++ rest))

theorem tokensFrom_gap {gap : Text} (h : gap.Blank) (pos : Nat) (t : Text) :
    tokensFrom 0 pos (gap ++ t) = tokensFrom 0 (pos + gap.length) t := by
  induction gap generalizing pos with
  | nil => rfl
  | cons p gap ih =>
    rw [List.cons_append, tokensFrom_blank (h p List.mem_cons_self),
      ih (fun q hq => h q (.tail _ hq)), List.length_cons, Nat.add_right_comm, Nat.add_assoc]

/-- A text that writes words is cut into them. -/
theorem tokensFrom_written {words : List (Symbol × List Char)} {t : Text} (h : Written words t)
    (pos : Nat) : ∃ ts, tokensFrom 0 pos t = .ok ts ∧
      ts.map (fun tok => (tok.symbol, tok.text)) = words := by
  induction h generalizing pos with
  | @blank gap hgap =>
    refine ⟨[], ?_, rfl⟩
    rw [← List.append_nil gap, tokensFrom_gap hgap, tokensFrom]
  | @word gap rest x word words hgap hspelt hapart hrest ih =>
    obtain ⟨c, cs, rfl, hc⟩ := hspelt.starts
    have hlex := lexeme?_eq_some_iff.mpr (hspelt.chosen hapart)
    obtain ⟨ts, hts, hwords⟩ := ih (pos + gap.length + (c :: cs).length)
    refine ⟨⟨x, c :: cs, pos + gap.length, pos + gap.length + (c :: cs).length⟩ :: ts, ?_, ?_⟩
    · rw [tokensFrom_gap hgap, tokensFrom_word hc hlex, hts]
      rfl
    · rw [List.map_cons, hwords]

/-! ## Texts with the same words -/

theorem Grammar.Agree.kind_eq {m n : Nat} {α : Type} {x y : Except ParseError α}
    (h : Grammar.Agree m n Eq x y) : x.mapError ParseError.kind = y.mapError ParseError.kind := by
  cases h with
  | ok hab => rw [hab]
  | error hkind _ _ => exact congrArg Except.error hkind

/-- A text that writes the words of another one, each in any of its spellings and with any blanks
between them, is cut into words with the same symbols. Both are read as the same sentence, or refused
for reasons of one kind. -/
theorem respelling_invariant {t u : Text} {ts : List Token} {words : List (Symbol × List Char)}
    (ht : tokens t = .ok ts) (hwords : words.map Prod.fst = ts.map Token.symbol)
    (hu : Written words u) :
    (∃ us, tokens u = .ok us ∧ us.map Token.symbol = ts.map Token.symbol ∧
      us.map Token.text = words.map Prod.snd) ∧
    (Sentence.read t).mapError ParseError.kind = (Sentence.read u).mapError ParseError.kind ∧
    (Sentence.readPattern t).mapError ParseError.kind =
      (Sentence.readPattern u).mapError ParseError.kind := by
  obtain ⟨us, hus, rfl⟩ := tokensFrom_written hu 0
  have hsymbols : us.map Token.symbol = ts.map Token.symbol := by
    rw [← hwords, List.map_map]
    rfl
  refine ⟨⟨us, hus, hsymbols, ?_⟩, ?_, ?_⟩
  · rw [List.map_map]
    rfl
  · exact (readWith_agrees .atom ht hus hsymbols.symm).kind_eq
  · exact (readWith_agrees .metavar ht hus hsymbols.symm).kind_eq

/-- Brackets that touch a box of brackets, and then other spellings of the box and of the
contradiction that stand apart. -/
theorem respelling_invariant_boxed :
    (∃ us, tokens (Text.ofChars ['[', ' ', '□', '\t', '_', '|', '_', ' ', ']', '\n']) = .ok us ∧
      us.map Token.symbol = [.opening .square, .unary .nec, .bottom, .closing .square] ∧
      us.map Token.text = [['['], ['□'], ['_', '|', '_'], [']']]) ∧
    (Sentence.read (Text.ofChars ['[', '[', ']', 'X', 'X', ']'])).mapError ParseError.kind =
      (Sentence.read (Text.ofChars
        ['[', ' ', '□', '\t', '_', '|', '_', ' ', ']', '\n'])).mapError ParseError.kind ∧
    Sentence.read (Text.ofChars ['[', '[', ']', 'X', 'X', ']']) = .ok (.unary .nec .bottom) := by
  have hread : tokens (Text.ofChars ['[', '[', ']', 'X', 'X', ']']) =
      .ok [⟨.opening .square, ['['], 0, 1⟩, ⟨.unary .nec, ['[', ']'], 1, 3⟩,
        ⟨.bottom, ['X', 'X'], 3, 5⟩, ⟨.closing .square, [']'], 5, 6⟩] := by
    decide +kernel
  have hwritten : Written [(.opening .square, ['[']), (.unary .nec, ['□']),
      (.bottom, ['_', '|', '_']), (.closing .square, [']'])]
      (Text.ofChars ['[', ' ', '□', '\t', '_', '|', '_', ' ', ']', '\n']) :=
    @Written.word [] _ _ _ _ (by decide) (.opening .square) (by decide) <|
    @Written.word (Text.ofChars [' ']) _ _ _ _ (by decide) (.operator (by decide)) (by decide) <|
    @Written.word (Text.ofChars ['\t']) _ _ _ _ (by decide) (.operator (by decide)) (by decide) <|
    @Written.word (Text.ofChars [' ']) _ _ _ _ (by decide) (.closing .square) (by decide) <|
    .blank (by decide)
  have hsame := respelling_invariant hread rfl hwritten
  exact ⟨hsame.1, hsame.2.1, by decide +kernel⟩

end ModalFitch
