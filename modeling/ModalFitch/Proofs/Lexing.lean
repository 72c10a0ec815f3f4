import ModalFitch.Proofs.Spelling

/-! A text is cut into the longest words that fit.

* `Symbol.SpeltBy`, `Chosen`: the spellings of a symbol, and the word that is chosen at the front of a
  text.
* `lexeme?_eq_some_iff`, `lexeme?_eq_none_iff`: the word at the front is the chosen one, and there is
  none only where no spelling fits.
* `Cut`, `Stuck`: a stretch of a text cut into chosen words with blanks between them, and a place where
  the cutting cannot go on.
* `exists_cut`: from every position a text is cut to its end or up to such a place.
* `tokens_ok_iff`, `tokens_error_iff`: the words of a text are its cut, and an unknown symbol is what
  the cutting stops at. -/

namespace ModalFitch
set_option autoImplicit false

/-! ## Words -/

/-- Whether a symbol is spelt by the operator spellings. -/
def Symbol.isOperator : Symbol → Bool
  | .bottom | .unary _ | .binary _ => true
  | .atom _ | .opening _ | .closing _ => false

/-- The ways to spell a symbol. -/
inductive Symbol.SpeltBy : Symbol → List Char → Prop where
  | operator {x : Symbol} {word : List Char} : (word, x) ∈ spellings → SpeltBy x word
  | opening (b : Bracket) : SpeltBy (.opening b) [b.openingChar]
  | closing (b : Bracket) : SpeltBy (.closing b) [b.closingChar]
  | atom {word : List Char} : IsAtomName word → SpeltBy (.atom (String.ofList word)) word

/-- The word at the front of a text, with its meaning: an operator spelling if one fits, and then the
longest that does; else a bracket or an atom, and an atom as far as it goes. -/
structure Chosen (x : Symbol) (word : List Char) (t : Text) : Prop where
  spelt : x.SpeltBy word
  front : Text.ofChars word <+: t
  longest : ∀ e ∈ spellings, Text.ofChars e.1 <+: t → x.isOperator = true ∧ e.1.length ≤ word.length
  whole : ∀ name, x = .atom name →
    ∀ c, (t.drop word.length).head? = some (.char c) → isAtomTail c = false

theorem spelling_facts : ∀ e ∈ spellings, e.2.isOperator = true ∧ e.1 ≠ [] ∧ e.1.length ≤ 3 ∧
    ∀ c ∈ e.1, Text.isBlank c = false := by
  have hall : spellings.all (fun e => e.2.isOperator && !e.1.isEmpty && decide (e.1.length ≤ 3) &&
      e.1.all fun c => !Text.isBlank c) = true := by
    decide +kernel
  intro e he
  simpa [and_assoc] using List.all_eq_true.mp hall e he

theorem spelling_symbol : ∀ e ∈ spellings, ∀ e' ∈ spellings, e.1 = e'.1 → e.2 = e'.2 := by
  decide +kernel

theorem longestFirst_descending : longestFirst.Pairwise fun e e' => e'.1.length ≤ e.1.length := by
  decide +kernel

theorem mem_longestFirst {e : List Char × Symbol} : e ∈ longestFirst ↔ e ∈ spellings := by
  unfold longestFirst spellingsOf
  simp only [List.mem_append, List.mem_filter, decide_eq_true_eq]
  constructor
  · rintro ((h | h) | h) <;> exact h.1
  · intro h
    obtain ⟨-, hne, hlen, -⟩ := spelling_facts e h
    have hpos := List.length_pos_iff.mpr hne
    simp only [h, true_and]
    omega

/-! ## Operators -/

theorem operator?_eq_none_iff {t : Text} :
    operator? t = none ↔ ∀ e ∈ spellings, ¬ Text.ofChars e.1 <+: t := by
  unfold operator?
  rw [Option.map_eq_none_iff, List.find?_eq_none]
  simp only [mem_longestFirst, List.isPrefixOf_iff_prefix]

theorem ofChars_injective {cs ds : List Char} (h : Text.ofChars cs = Text.ofChars ds) : cs = ds := by
  rw [← Text.chars_ofChars cs, h, Text.chars_ofChars]

/-- The longest spelling that fits. -/
theorem operator?_longest {t : Text} {x : Symbol} {word : List Char}
    (h : operator? t = some (x, word)) : (word, x) ∈ spellings ∧ Text.ofChars word <+: t ∧
      ∀ e ∈ spellings, Text.ofChars e.1 <+: t → e.1.length ≤ word.length := by
  unfold operator? at h
  obtain ⟨⟨word', x'⟩, hfind, e⟩ := Option.map_eq_some_iff.mp h
  cases e
  obtain ⟨hfits, before, after, hsplit, hbefore⟩ := List.find?_eq_some_iff_append.mp hfind
  refine ⟨mem_longestFirst.mp (List.mem_of_find?_eq_some hfind), List.isPrefixOf_iff_prefix.mp hfits,
    fun e he hfit => ?_⟩
  -- a spelling that fits does not stand before the one found, and those after it are no longer
  have hdesc := longestFirst_descending
  rw [← mem_longestFirst, hsplit] at he
  rw [hsplit, List.pairwise_append, List.pairwise_cons] at hdesc
  rcases List.mem_append.mp he with he | he
  · have hno := hbefore e he
    rw [Bool.not_eq_true', ← Bool.not_eq_true, List.isPrefixOf_iff_prefix] at hno
    exact absurd hfit hno
  · rcases List.mem_cons.mp he with rfl | he
    · exact Nat.le_refl _
    · exact hdesc.2.1.1 e he

theorem operator?_eq_some_iff {t : Text} {x : Symbol} {word : List Char} :
    operator? t = some (x, word) ↔ (word, x) ∈ spellings ∧ Text.ofChars word <+: t ∧
      ∀ e ∈ spellings, Text.ofChars e.1 <+: t → e.1.length ≤ word.length := by
  refine ⟨operator?_longest, fun ⟨hmem, hfits, hlongest⟩ => ?_⟩
  cases hop : operator? t with
  | none => exact absurd hfits (operator?_eq_none_iff.mp hop _ hmem)
  | some found =>
    obtain ⟨x', word'⟩ := found
    obtain ⟨hmem', hfits', hlongest'⟩ := operator?_longest hop
    have hlen : word.length = word'.length :=
      Nat.le_antisymm (hlongest' _ hmem hfits) (hlongest _ hmem' hfits')
    have hword : word = word' := ofChars_injective
      ((List.prefix_of_prefix_length_le hfits hfits' (by simp [Text.ofChars, hlen])).eq_of_length
        (by simp [Text.ofChars, hlen]))
    subst hword
    have hx : x = x' := spelling_symbol _ hmem _ hmem' rfl
    rw [hx]

/-! ## Atoms -/

theorem ofChars_leading (p : Char → Bool) (t : Text) :
    Text.ofChars (Text.leading p t) = t.takeWhile (·.is p) := by
  unfold Text.leading
  induction t with
  | nil => rfl
  | cons x t ih =>
    rw [List.takeWhile_cons]
    cases x with
    | half i => rfl
    | char c =>
      split
      · exact congrArg (CodePoint.char c :: ·) ih
      · rfl

theorem leading_append_dropWhile (p : Char → Bool) (t : Text) :
    Text.ofChars (Text.leading p t) ++ t.dropWhile (·.is p) = t := by
  rw [ofChars_leading, List.takeWhile_append_dropWhile]

theorem drop_leading (p : Char → Bool) (t : Text) :
    t.drop (Text.leading p t).length = t.dropWhile (·.is p) := by
  calc t.drop (Text.leading p t).length
      = (Text.ofChars (Text.leading p t) ++ t.dropWhile (·.is p)).drop (Text.leading p t).length := by
        rw [leading_append_dropWhile]
    _ = t.dropWhile (·.is p) := List.drop_left' (by simp [Text.ofChars])

theorem atom?_eq_some_iff {t : Text} {word : List Char} : atom? t = some word ↔
    IsAtomName word ∧ Text.ofChars word <+: t ∧
      ∀ c, (t.drop word.length).head? = some (.char c) → isAtomTail c = false := by
  constructor
  · intro h
    unfold atom? at h
    split at h
    · rename_i c t
      split at h
      · rename_i hc
        cases h
        refine ⟨⟨c, _, rfl, hc, fun x hx => leading_all hx⟩, ?_, fun d hd => ?_⟩
        · exact List.cons_prefix_cons.mpr ⟨rfl, _, leading_append_dropWhile isAtomTail t⟩
        · rw [List.length_cons, List.drop_succ_cons, drop_leading] at hd
          have hstop := List.head?_dropWhile_not (·.is isAtomTail) t
          rw [hd] at hstop
          exact hstop
      · cases h
    · cases h
  · rintro ⟨⟨c, tail, rfl, hc, htail⟩, ⟨rest, rfl⟩, hstop⟩
    have hdrop : (Text.ofChars (c :: tail) ++ rest).drop (c :: tail).length = rest := by
      rw [List.drop_left' (by simp [Text.ofChars])]
    rw [hdrop] at hstop
    show atom? (.char c :: (Text.ofChars tail ++ rest)) = _
    rw [atom?, if_pos hc, leading_append htail, leading_eq_nil hstop, List.append_nil]

/-! ## The word at the front -/

theorem lexeme?_bracket {c : Char} {t : Text} {x : Symbol} (hop : operator? t = none)
    (hb : bracket? c = some x) (hfront : Text.ofChars [c] <+: t) : lexeme? t = some (x, [c]) := by
  obtain ⟨rest, rfl⟩ := hfront
  have hop : operator? (.char c :: rest) = none := hop
  show lexeme? (.char c :: rest) = _
  simp [lexeme?, hop, hb, CodePoint.char?]

/-- The word at the front is an operator spelling; where there is none, a bracket or an atom. -/
theorem lexeme?_cases {t : Text} {x : Symbol} {word : List Char} (h : lexeme? t = some (x, word)) :
    operator? t = some (x, word) ∨ operator? t = none ∧
      ((∃ c, bracket? c = some x ∧ word = [c] ∧ Text.ofChars [c] <+: t) ∨
        x = .atom (String.ofList word) ∧ atom? t = some word) := by
  unfold lexeme? at h
  split at h
  · rename_i found hop
    exact .inl (hop.trans h)
  · rename_i hop
    refine .inr ⟨hop, ?_⟩
    split at h
    · cases h
    · rename_i c hc
      split at h
      · rename_i symbol hb
        cases h
        obtain ⟨p, hp, hchar⟩ := Option.bind_eq_some_iff.mp hc
        obtain ⟨rest, rfl⟩ := List.head?_eq_some_iff.mp hp
        cases p with
        | half i => cases hchar
        | char c' =>
          cases hchar
          exact .inl ⟨c, hb, rfl, rest, rfl⟩
      · obtain ⟨word', hatom, e⟩ := Option.map_eq_some_iff.mp h
        cases e
        exact .inr ⟨rfl, hatom⟩

theorem chosen_of_lexeme? {t : Text} {x : Symbol} {word : List Char}
    (h : lexeme? t = some (x, word)) : Chosen x word t := by
  rcases lexeme?_cases h with hop | ⟨hop, hword⟩
  · obtain ⟨hmem, hfits, hlongest⟩ := operator?_longest hop
    have hoperator := (spelling_facts _ hmem).1
    refine ⟨.operator hmem, hfits, fun e he hfit => ⟨hoperator, hlongest e he hfit⟩, ?_⟩
    rintro name rfl
    cases hoperator
  · have hlongest : ∀ e ∈ spellings, Text.ofChars e.1 <+: t →
        x.isOperator = true ∧ e.1.length ≤ word.length :=
      fun e he hfit => absurd hfit (operator?_eq_none_iff.mp hop e he)
    rcases hword with ⟨c, hb, rfl, hfront⟩ | ⟨rfl, hatom⟩
    · obtain ⟨b, ⟨rfl, rfl⟩ | ⟨rfl, rfl⟩⟩ := bracket?_eq_some_iff.mp hb
      · exact ⟨.opening b, hfront, hlongest, fun name e => by cases e⟩
      · exact ⟨.closing b, hfront, hlongest, fun name e => by cases e⟩
    · obtain ⟨hname, hfront, hstop⟩ := atom?_eq_some_iff.mp hatom
      exact ⟨.atom hname, hfront, hlongest, fun _ _ => hstop⟩

theorem Chosen.lexeme?_eq {t : Text} {x : Symbol} {word : List Char} (h : Chosen x word t) :
    lexeme? t = some (x, word) := by
  have hnone : x.isOperator = false → operator? t = none := by
    intro hx
    refine operator?_eq_none_iff.mpr fun e he hfit => ?_
    rw [(h.longest e he hfit).1] at hx
    cases hx
  cases h.spelt with
  | operator hmem =>
    unfold lexeme?
    rw [operator?_eq_some_iff.mpr ⟨hmem, h.front, fun e he hfit => (h.longest e he hfit).2⟩]
  | opening b =>
    exact lexeme?_bracket (hnone rfl) (bracket?_eq_some_iff.mpr ⟨b, .inl ⟨rfl, rfl⟩⟩) h.front
  | closing b =>
    exact lexeme?_bracket (hnone rfl) (bracket?_eq_some_iff.mpr ⟨b, .inr ⟨rfl, rfl⟩⟩) h.front
  | atom hname =>
    have hatom := atom?_eq_some_iff.mpr ⟨hname, h.front, h.whole _ rfl⟩
    obtain ⟨c, tail, rfl, hc, -⟩ := hname
    obtain ⟨rest, rfl⟩ := h.front
    have hread := lexeme?_name (t := Text.ofChars tail ++ rest) (hnone rfl) (bracket?_atomStart hc)
    exact hread.trans (congrArg (Option.map _) hatom)

theorem lexeme?_eq_some_iff {t : Text} {x : Symbol} {word : List Char} :
    lexeme? t = some (x, word) ↔ Chosen x word t :=
  ⟨chosen_of_lexeme?, Chosen.lexeme?_eq⟩

/-- There is no word at the front if and only if no spelling fits. -/
theorem lexeme?_eq_none_iff {t : Text} :
    lexeme? t = none ↔ ∀ (x : Symbol) (word : List Char), x.SpeltBy word → ¬ Text.ofChars word <+: t := by
  constructor
  · intro h x word hspelt hfits
    have hop : operator? t = none := by
      cases hop : operator? t with
      | none => rfl
      | some found =>
        unfold lexeme? at h
        rw [hop] at h
        cases h
    cases hspelt with
    | operator hmem => exact operator?_eq_none_iff.mp hop _ hmem hfits
    | opening b =>
      have hb := bracket?_eq_some_iff.mpr ⟨b, .inl ⟨rfl, rfl⟩⟩
      cases h.symm.trans (lexeme?_bracket hop hb hfits)
    | closing b =>
      have hb := bracket?_eq_some_iff.mpr ⟨b, .inr ⟨rfl, rfl⟩⟩
      cases h.symm.trans (lexeme?_bracket hop hb hfits)
    | atom hname =>
      obtain ⟨c, tail, rfl, hc, -⟩ := hname
      obtain ⟨rest, rfl⟩ := hfits
      have hread := lexeme?_name (t := Text.ofChars tail ++ rest) hop (bracket?_atomStart hc)
      rw [show lexeme? (Text.ofChars (c :: tail) ++ rest) = _ from hread, atom?, if_pos hc] at h
      cases h
  · intro h
    cases hlex : lexeme? t with
    | none => rfl
    | some found =>
      have hchosen := lexeme?_eq_some_iff.mp hlex
      exact absurd hchosen.front (h _ _ hchosen.spelt)

/-! ## Cuts -/

/-- The part of a text between two positions. -/
def Text.slice (t : Text) (start stop : Nat) : Text := (t.take stop).drop start

/-- The text between two positions is cut into words: each is the part of the text between its own
positions, they stand one after the other, only blanks are left over, and each is the word that is
chosen where it starts. -/
structure Cut (t : Text) (start stop : Nat) (ts : List Token) : Prop where
  within : start ≤ stop ∧ stop ≤ t.length
  placed : ∀ tok ∈ ts, start ≤ tok.start ∧ tok.start < tok.stop ∧ tok.stop ≤ stop
  ordered : ts.Pairwise fun a b => a.stop ≤ b.start
  slice : ∀ tok ∈ ts, t.slice tok.start tok.stop = Text.ofChars tok.text
  blank : ∀ (i : Nat) (p : CodePoint), start ≤ i → i < stop → t[i]? = some p →
    (∀ tok ∈ ts, i < tok.start ∨ tok.stop ≤ i) → p.is Text.isBlank = true
  chosen : ∀ tok ∈ ts, Chosen tok.symbol tok.text (t.drop tok.start)

/-- Every way to spell a symbol starts with a character that is no blank. -/
theorem Symbol.SpeltBy.starts {x : Symbol} {word : List Char} (h : x.SpeltBy word) :
    ∃ c cs, word = c :: cs ∧ Text.isBlank c = false := by
  cases h with
  | operator hmem =>
    obtain ⟨-, hne, -, hblank⟩ := spelling_facts _ hmem
    cases word with
    | nil => exact absurd rfl hne
    | cons c cs => exact ⟨c, cs, rfl, hblank c List.mem_cons_self⟩
  | opening b => exact ⟨_, [], rfl, by cases b <;> decide⟩
  | closing b => exact ⟨_, [], rfl, by cases b <;> decide⟩
  | atom hname =>
    obtain ⟨c, tail, rfl, hc, -⟩ := hname
    exact ⟨c, tail, rfl, isBlank_of_isAtomStart hc⟩

theorem Chosen.starts {x : Symbol} {word : List Char} {t : Text} (h : Chosen x word t) :
    ∃ c, t.head? = some (.char c) ∧ Text.isBlank c = false ∧ 0 < word.length := by
  obtain ⟨c, cs, rfl, hc⟩ := h.spelt.starts
  obtain ⟨rest, rfl⟩ := h.front
  exact ⟨c, rfl, hc, Nat.succ_pos _⟩

theorem length_slice {t : Text} {start stop : Nat} (h : stop ≤ t.length) :
    (t.slice start stop).length = stop - start := by
  simp [Text.slice, Nat.min_eq_left h]

theorem Cut.token_length {t : Text} {start stop : Nat} {ts : List Token} (h : Cut t start stop ts)
    {tok : Token} (htok : tok ∈ ts) : tok.stop = tok.start + tok.text.length := by
  have hplaced := h.placed tok htok
  have hlen := congrArg List.length (h.slice tok htok)
  rw [length_slice (Nat.le_trans hplaced.2.2 h.within.2)] at hlen
  simp only [Text.ofChars, List.length_map] at hlen
  omega

theorem cut_nil {t : Text} {start : Nat} (h : start ≤ t.length) : Cut t start start [] :=
  ⟨⟨Nat.le_refl _, h⟩, by simp, .nil, by simp, fun i p h1 h2 => by omega, by simp⟩

theorem Cut.cons_blank {t : Text} {start stop : Nat} {ts : List Token}
    (h : Cut t (start + 1) stop ts) {p : CodePoint} (hp : t[start]? = some p)
    (hblank : p.is Text.isBlank = true) : Cut t start stop ts := by
  have hwithin := h.within
  refine ⟨by omega, fun tok htok => ?_, h.ordered, h.slice, fun i q h1 h2 hq hout => ?_, h.chosen⟩
  · have := h.placed tok htok
    omega
  · by_cases hi : i = start
    · subst hi
      cases hp.symm.trans hq
      exact hblank
    · exact h.blank i q (by omega) h2 hq hout

theorem Cut.cons_word {t : Text} {start stop : Nat} {ts : List Token} {x : Symbol}
    {word : List Char} (hchosen : Chosen x word (t.drop start))
    (h : Cut t (start + word.length) stop ts) :
    Cut t start stop (⟨x, word, start, start + word.length⟩ :: ts) := by
  obtain ⟨-, -, -, hpos⟩ := hchosen.starts
  have hwithin := h.within
  refine ⟨by omega, ?_, ?_, ?_, ?_, ?_⟩
  · rw [List.forall_mem_cons]
    refine ⟨⟨Nat.le_refl _, ?_, ?_⟩, fun tok htok => ?_⟩
    · show start < start + word.length
      omega
    · exact hwithin.1
    · have := h.placed tok htok
      omega
  · exact List.pairwise_cons.mpr ⟨fun tok htok => (h.placed tok htok).1, h.ordered⟩
  · rw [List.forall_mem_cons]
    refine ⟨?_, h.slice⟩
    obtain ⟨rest, hrest⟩ := hchosen.front
    show (t.take (start + word.length)).drop start = _
    rw [List.drop_take, Nat.add_sub_cancel_left, ← hrest]
    exact List.take_left' (by simp [Text.ofChars])
  · intro i p h1 h2 hp hout
    rw [List.forall_mem_cons] at hout
    have hafter : start + word.length ≤ i := hout.1.resolve_left (by show ¬ i < start; omega)
    exact h.blank i p hafter h2 hp hout.2
  · exact List.forall_mem_cons.mpr ⟨hchosen, h.chosen⟩

theorem Cut.skip_blank {t : Text} {start stop : Nat} {ts : List Token} (h : Cut t start stop ts)
    (hlt : start < stop) (hno : ∀ tok ∈ ts, start < tok.start) :
    ∃ p, t[start]? = some p ∧ p.is Text.isBlank = true ∧ Cut t (start + 1) stop ts := by
  have hwithin := h.within
  have hp : t[start]? = some t[start] := List.getElem?_eq_getElem (by omega)
  refine ⟨_, hp, h.blank start _ (Nat.le_refl _) hlt hp fun tok htok => .inl (hno tok htok), ?_⟩
  refine ⟨by omega, fun tok htok => ?_, h.ordered, h.slice, fun i q h1 => h.blank i q (by omega), h.chosen⟩
  have := h.placed tok htok
  exact ⟨hno tok htok, this.2⟩

theorem Cut.tail {t : Text} {start stop : Nat} {tok : Token} {ts : List Token}
    (h : Cut t start stop (tok :: ts)) : Cut t tok.stop stop ts := by
  have hwithin := h.within
  have hplaced := h.placed tok List.mem_cons_self
  obtain ⟨hafter, hordered⟩ := List.pairwise_cons.mp h.ordered
  refine ⟨by omega, fun tok' htok => ?_, hordered, fun tok' htok => h.slice tok' (.tail _ htok),
    fun i p h1 h2 hp hout => ?_, fun tok' htok => h.chosen tok' (.tail _ htok)⟩
  · exact ⟨hafter tok' htok, (h.placed tok' (.tail _ htok)).2⟩
  · exact h.blank i p (by omega) h2 hp (List.forall_mem_cons.mpr ⟨.inr h1, hout⟩)

/-- A cut ends where it starts, starts with a blank, or starts with the word chosen there. -/
theorem Cut.cases {t : Text} {start stop : Nat} {ts : List Token} (h : Cut t start stop ts) :
    (start = stop ∧ ts = []) ∨
    (∃ p, t[start]? = some p ∧ p.is Text.isBlank = true ∧ Cut t (start + 1) stop ts) ∨
    (∃ x word us, Chosen x word (t.drop start) ∧ ts = ⟨x, word, start, start + word.length⟩ :: us ∧
      Cut t (start + word.length) stop us) := by
  have hwithin := h.within
  cases ts with
  | nil =>
    by_cases hend : start = stop
    · exact .inl ⟨hend, rfl⟩
    · exact .inr (.inl (h.skip_blank (by omega) fun tok htok => by cases htok))
  | cons tok us =>
    have hplaced := h.placed tok List.mem_cons_self
    by_cases hstart : tok.start = start
    · have hstop := h.token_length List.mem_cons_self
      have htail := h.tail
      have hchosen := h.chosen tok List.mem_cons_self
      obtain ⟨x, word, a, b⟩ := tok
      dsimp only at hstart hstop htail hchosen
      subst hstart hstop
      exact .inr (.inr ⟨x, word, us, hchosen, rfl, htail⟩)
    · refine .inr (.inl (h.skip_blank (by omega) (List.forall_mem_cons.mpr ⟨by omega, fun tok' htok => ?_⟩)))
      have := (List.pairwise_cons.mp h.ordered).1 tok' htok
      omega

/-! ## The words of a text -/

theorem drop_eq_cons {t : Text} {i : Nat} {p : CodePoint} (h : t[i]? = some p) :
    t.drop i = p :: t.drop (i + 1) := by
  obtain ⟨hi, rfl⟩ := List.getElem?_eq_some_iff.mp h
  exact List.drop_eq_getElem_cons hi

theorem tokensFrom_blank {p : CodePoint} (hp : p.is Text.isBlank = true) (pos : Nat) (t : Text) :
    tokensFrom 0 pos (p :: t) = tokensFrom 0 (pos + 1) t := by
  rw [tokensFrom, if_pos hp]

theorem tokensFrom_chosen {t : Text} {pos : Nat} {x : Symbol} {word : List Char}
    (h : Chosen x word (t.drop pos)) : tokensFrom 0 pos (t.drop pos) =
      (tokensFrom 0 (pos + word.length) (t.drop (pos + word.length))).map
        (⟨x, word, pos, pos + word.length⟩ :: ·) := by
  obtain ⟨c, cs, rfl, hc⟩ := h.spelt.starts
  obtain ⟨rest, hrest⟩ := h.front
  have hdrop : t.drop (pos + (c :: cs).length) = rest := by
    rw [← List.drop_drop, ← hrest]
    exact List.drop_left' (by simp [Text.ofChars])
  rw [hdrop, ← hrest]
  exact tokensFrom_word hc (lexeme?_eq_some_iff.mpr (hrest ▸ h)) pos

/-- Where a part of a text is cut into words, the text after it is cut as if it stood alone. -/
theorem Cut.tokensFrom_eq {t : Text} {start stop : Nat} {ts : List Token} (h : Cut t start stop ts) :
    tokensFrom 0 start (t.drop start) = (tokensFrom 0 stop (t.drop stop)).map (ts ++ ·) := by
  induction hn : stop - start using Nat.strongRecOn generalizing start ts with
  | _ n ih =>
    rcases h.cases with ⟨rfl, rfl⟩ | ⟨p, hp, hblank, hrest⟩ | ⟨x, word, us, hchosen, rfl, hrest⟩
    · cases tokensFrom 0 start (t.drop start) <;> rfl
    · have hwithin := hrest.within
      rw [drop_eq_cons hp, tokensFrom_blank hblank]
      exact ih _ (by omega) hrest rfl
    · have hwithin := hrest.within
      obtain ⟨-, -, -, hpos⟩ := hchosen.starts
      rw [tokensFrom_chosen hchosen, ih _ (by omega) hrest rfl]
      cases tokensFrom 0 stop (t.drop stop) <;> rfl

/-- What stops the cutting of a text at a position: a code point that is no blank and starts no
word. -/
def Stuck (t : Text) (u : UnknownSymbol) : Prop :=
  t[u.position]? = some u.symbol ∧ u.symbol.is Text.isBlank = false ∧
    ∀ (x : Symbol) (word : List Char), x.SpeltBy word → ¬ Text.ofChars word <+: t.drop u.position

theorem Stuck.tokensFrom_eq {t : Text} {u : UnknownSymbol} (h : Stuck t u) :
    tokensFrom 0 u.position (t.drop u.position) = .error u := by
  obtain ⟨hp, hblank, hno⟩ := h
  have hlex := lexeme?_eq_none_iff.mpr hno
  rw [drop_eq_cons hp] at hlex ⊢
  rw [tokensFrom, if_neg (by rw [hblank]; decide), hlex]

/-- From every position the text is cut to its end, or up to where it is stuck. -/
theorem exists_cut {t : Text} {start : Nat} (h : start ≤ t.length) :
    (∃ ts, Cut t start t.length ts) ∨ ∃ u ts, Cut t start u.position ts ∧ Stuck t u := by
  induction hn : t.length - start using Nat.strongRecOn generalizing start with
  | _ n ih =>
    by_cases hend : start = t.length
    · exact .inl ⟨[], hend ▸ cut_nil h⟩
    · have hp : t[start]? = some t[start] := List.getElem?_eq_getElem (by omega)
      cases hblank : t[start].is Text.isBlank with
      | true =>
        have hnext : start + 1 ≤ t.length := by omega
        rcases ih _ (by omega) hnext rfl with ⟨ts, hts⟩ | ⟨u, ts, hts, hu⟩
        · exact .inl ⟨ts, hts.cons_blank hp hblank⟩
        · exact .inr ⟨u, ts, hts.cons_blank hp hblank, hu⟩
      | false =>
        cases hlex : lexeme? (t.drop start) with
        | none => exact .inr ⟨⟨t[start], start⟩, [], cut_nil h, hp, hblank, lexeme?_eq_none_iff.mp hlex⟩
        | some found =>
          obtain ⟨x, word⟩ := found
          have hchosen := lexeme?_eq_some_iff.mp hlex
          obtain ⟨-, -, -, hpos⟩ := hchosen.starts
          have hfront := hchosen.front.length_le
          simp only [Text.ofChars, List.length_map, List.length_drop] at hfront
          have hnext : start + word.length ≤ t.length := by omega
          rcases ih _ (by omega) hnext rfl with ⟨ts, hts⟩ | ⟨u, ts, hts, hu⟩
          · exact .inl ⟨_, .cons_word hchosen hts⟩
          · exact .inr ⟨u, _, .cons_word hchosen hts, hu⟩

theorem tokens_of_cut {t : Text} {ts : List Token} (h : Cut t 0 t.length ts) : tokens t = .ok ts := by
  have heq := h.tokensFrom_eq
  rw [List.drop_length, List.drop_zero] at heq
  rw [tokens, heq, tokensFrom]
  simp [Except.map]

theorem tokens_of_stuck {t : Text} {u : UnknownSymbol} {ts : List Token}
    (h : Cut t 0 u.position ts) (hu : Stuck t u) : tokens t = .error u := by
  have heq := h.tokensFrom_eq
  rw [hu.tokensFrom_eq, List.drop_zero] at heq
  rw [tokens, heq]
  rfl

theorem tokens_ok_iff {t : Text} {ts : List Token} : tokens t = .ok ts ↔ Cut t 0 t.length ts := by
  refine ⟨fun h => ?_, tokens_of_cut⟩
  rcases exists_cut (t := t) (Nat.zero_le _) with ⟨us, hus⟩ | ⟨u, us, hus, hu⟩
  · cases h.symm.trans (tokens_of_cut hus)
    exact hus
  · cases h.symm.trans (tokens_of_stuck hus hu)

theorem tokens_error_iff {t : Text} {u : UnknownSymbol} :
    tokens t = .error u ↔ Stuck t u ∧ ∃ ts, Cut t 0 u.position ts := by
  refine ⟨fun h => ?_, fun ⟨hu, ts, hts⟩ => tokens_of_stuck hts hu⟩
  rcases exists_cut (t := t) (Nat.zero_le _) with ⟨us, hus⟩ | ⟨u', us, hus, hu⟩
  · cases h.symm.trans (tokens_of_cut hus)
  · cases h.symm.trans (tokens_of_stuck hus hu)
    exact ⟨hu, us, hus⟩

/-- The atoms among the words of a text have names that a text can spell. -/
theorem tokens_names {t : Text} {ts : List Token} (h : tokens t = .ok ts) {tok : Token}
    (htok : tok ∈ ts) {name : String} (hname : tok.symbol = .atom name) : IsAtomName name.toList := by
  have hspelt := ((tokens_ok_iff.mp h).chosen tok htok).spelt
  rw [hname] at hspelt
  cases hspelt with
  | operator hmem => cases (spelling_facts _ hmem).1
  | atom hword => rwa [String.toList_ofList]

end ModalFitch
