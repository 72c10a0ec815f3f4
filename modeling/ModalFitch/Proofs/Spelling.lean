import ModalFitch.Sentence.Reading

/-! The words of a rendered sentence.

* `Sentence.Spellable`: the leaves are atoms with names that a text can spell, and the contradiction.
* `Sentence.symbols`: what the words of the rendered text mean.
* `Spells`: characters in front of a text are cut into words that mean the given symbols, and the text
  is cut as if they were not there.
* `tokens_render`: the rendered text is cut into the words that it was made of. -/

namespace ModalFitch
set_option autoImplicit false

/-! ## Names -/

/-- The characters are a letter that starts an atom, and digits, underscores and primes. -/
def IsAtomName (cs : List Char) : Prop :=
  ∃ c tail, cs = c :: tail ∧ isAtomStart c = true ∧ ∀ x ∈ tail, isAtomTail x = true

namespace Sentence

/-- The sentence can be read from a text: there are no metavariables and no lone box in it, and its
atoms have names that a text can spell. -/
def Spellable : Sentence → Prop
  | .atom name => IsAtomName name.toList
  | .metavar _ => False
  | .bottom => True
  | .marker => False
  | .unary _ s => s.Spellable
  | .binary _ l r => l.Spellable ∧ r.Spellable

/-- What the words of the rendered text mean. -/
def symbols (nested : Bool) : Sentence → List Symbol
  | .atom name => [.atom name]
  | .metavar name => [.atom name]
  | .bottom => [.bottom]
  | .marker => [.unary .nec]
  | .unary op s => .unary op :: s.symbols true
  | .binary op l r =>
    let body := l.symbols true ++ .binary op :: r.symbols true
    if nested then .opening .round :: body ++ [.closing .round] else body

end Sentence

theorem leading_append {p : Char → Bool} {cs : List Char} (hcs : ∀ c ∈ cs, p c = true) (t : Text) :
    Text.leading p (Text.ofChars cs ++ t) = cs ++ Text.leading p t := by
  induction cs with
  | nil => rfl
  | cons c cs ih =>
    have hc : (CodePoint.char c).is p = true := hcs c List.mem_cons_self
    have ih := ih fun x hx => hcs x (List.mem_cons_of_mem c hx)
    unfold Text.leading Text.chars Text.ofChars at ih ⊢
    rw [List.map_cons, List.cons_append, List.takeWhile_cons_of_pos hc]
    simpa [CodePoint.char?] using ih

theorem leading_eq_nil {p : Char → Bool} {t : Text}
    (h : ∀ c, t.head? = some (.char c) → p c = false) : Text.leading p t = [] := by
  cases t with
  | nil => rfl
  | cons x t =>
    cases x with
    | half i => rfl
    | char c =>
      unfold Text.leading
      rw [List.takeWhile_cons_of_neg (by simp [CodePoint.is, h c rfl])]
      rfl

theorem leading_all {p : Char → Bool} {t : Text} {c : Char} (h : c ∈ Text.leading p t) : p c = true := by
  unfold Text.leading Text.chars at h
  obtain ⟨x, hx, hc⟩ := List.mem_filterMap.mp h
  have hp := List.all_eq_true.mp List.all_takeWhile x hx
  cases x with
  | half i => cases hc
  | char c' =>
    cases hc
    exact hp

/-- A spelling of an operator does not start as a name does, but for the one that is two of its
letters. -/
theorem spelling_start : ∀ x ∈ longestFirst,
    x.1 = ['X', 'X'] ∨ ∃ c cs, x.1 = c :: cs ∧ isAtomStart c = false := by
  have h : longestFirst.all (fun x =>
      x.1 == ['X', 'X'] || x.1.head?.any fun c => !isAtomStart c) = true := by
    decide +kernel
  rintro ⟨spelling, symbol⟩ hx
  have hx := List.all_eq_true.mp h _ hx
  dsimp only at hx ⊢
  rw [Bool.or_eq_true] at hx
  refine hx.imp (fun e => by simpa using e) fun hc => ?_
  cases spelling with
  | nil => cases hc
  | cons c cs => exact ⟨c, cs, rfl, by simpa using hc⟩

theorem bracket?_eq_some_iff {c : Char} {x : Symbol} : bracket? c = some x ↔
    ∃ b : Bracket, (x = .opening b ∧ c = b.openingChar) ∨ (x = .closing b ∧ c = b.closingChar) := by
  constructor
  · intro h
    unfold bracket? at h
    repeat' split at h
    all_goals cases h
    · exact ⟨.round, .inl ⟨rfl, ‹_›⟩⟩
    · exact ⟨.square, .inl ⟨rfl, ‹_›⟩⟩
    · exact ⟨.curly, .inl ⟨rfl, ‹_›⟩⟩
    · exact ⟨.round, .inr ⟨rfl, ‹_›⟩⟩
    · exact ⟨.square, .inr ⟨rfl, ‹_›⟩⟩
    · exact ⟨.curly, .inr ⟨rfl, ‹_›⟩⟩
  · rintro ⟨b, ⟨rfl, rfl⟩ | ⟨rfl, rfl⟩⟩ <;> cases b <;> rfl

theorem bracket?_atomStart {c : Char} (hc : isAtomStart c = true) : bracket? c = none := by
  cases hb : bracket? c with
  | none => rfl
  | some x =>
    have hno : ∀ b : Bracket, isAtomStart b.openingChar = false ∧ isAtomStart b.closingChar = false := by
      intro b
      cases b <;> decide
    obtain ⟨b, ⟨-, rfl⟩ | ⟨-, rfl⟩⟩ := bracket?_eq_some_iff.mp hb
    · rw [(hno b).1] at hc
      cases hc
    · rw [(hno b).2] at hc
      cases hc

/-! ## Words at the front of a text -/

/-- A text that does not continue the atom before it. -/
def Separates (t : Text) : Prop :=
  ∀ c, t.head? = some (.char c) → isAtomTail c = false ∧ c ≠ 'X'

theorem separates_nil : Separates [] := fun _ h => by cases h

theorem separates_char {c : Char} (hc : isAtomTail c = false) (hx : c ≠ 'X') (t : Text) :
    Separates (.char c :: t) := by
  intro x h
  cases h
  exact ⟨hc, hx⟩

theorem lexeme?_unary (op : UnaryOp) (t : Text) :
    lexeme? (.char op.symbol :: t) = some (.unary op, [op.symbol]) := by
  cases op <;> rfl

theorem lexeme?_binary (op : BinaryOp) (t : Text) :
    lexeme? (.char op.symbol :: t) = some (.binary op, [op.symbol]) := by
  cases op <;> rfl

theorem lexeme?_bottom (t : Text) : lexeme? (.char '⊥' :: t) = some (.bottom, ['⊥']) := rfl

theorem lexeme?_opening (t : Text) : lexeme? (.char '(' :: t) = some (.opening .round, ['(']) := rfl

theorem lexeme?_closing (t : Text) : lexeme? (.char ')' :: t) = some (.closing .round, [')']) := rfl

/-- No spelling of an operator stands at the front of a name. -/
theorem operator?_atom {c : Char} (hc : isAtomStart c = true) {t : Text}
    (ht : t.head? ≠ some (.char 'X')) : operator? (.char c :: t) = none := by
  unfold operator?
  rw [Option.map_eq_none_iff, List.find?_eq_none]
  rintro ⟨spelling, symbol⟩ hmem hp
  have hp : Text.ofChars spelling <+: .char c :: t := List.isPrefixOf_iff_prefix.mp hp
  rcases spelling_start _ hmem with e | ⟨x, xs, e, hx⟩
  · have e : spelling = ['X', 'X'] := e
    rw [e] at hp
    obtain ⟨rest, hrest⟩ := (List.cons_prefix_cons.mp hp).2
    exact ht (by rw [← hrest]; rfl)
  · have e : spelling = x :: xs := e
    rw [e] at hp
    have hxc := (List.cons_prefix_cons.mp hp).1
    cases hxc
    rw [hc] at hx
    cases hx

theorem lexeme?_name {c : Char} {t : Text} (hop : operator? (.char c :: t) = none)
    (hb : bracket? c = none) : lexeme? (.char c :: t) =
      (atom? (.char c :: t)).map fun name => (.atom (String.ofList name), name) := by
  simp [lexeme?, hop, hb, CodePoint.char?]

theorem lexeme?_atom {cs : List Char} (hcs : IsAtomName cs) {t : Text} (ht : Separates t) :
    lexeme? (Text.ofChars cs ++ t) = some (.atom (String.ofList cs), cs) := by
  obtain ⟨c, tail, rfl, hc, htail⟩ := hcs
  have hhead : (Text.ofChars tail ++ t).head? ≠ some (.char 'X') := by
    intro h
    cases tail with
    | nil => exact (ht 'X' h).2 rfl
    | cons x xs =>
      cases h
      have hx := htail 'X' List.mem_cons_self
      revert hx
      decide
  have hstop : Text.leading isAtomTail t = [] := leading_eq_nil fun x hx => (ht x hx).1
  have hatom : atom? (.char c :: (Text.ofChars tail ++ t)) = some (c :: tail) := by
    rw [atom?, if_pos hc, leading_append htail, hstop, List.append_nil]
  show lexeme? (.char c :: (Text.ofChars tail ++ t)) = _
  rw [lexeme?_name (operator?_atom hc hhead) (bracket?_atomStart hc), hatom]
  rfl

/-- Characters that ASCII prints are no blanks. -/
theorem isBlank_of_printed {c : Char} (hc : 33 ≤ c.toNat ∧ c.toNat ≤ 126) : Text.isBlank c = false := by
  simp only [Text.isBlank, Bool.or_eq_false_iff, Bool.and_eq_false_iff, decide_eq_false_iff_not,
    beq_eq_false_iff_ne]
  omega

theorem isBlank_of_isAtomStart {c : Char} (hc : isAtomStart c = true) : Text.isBlank c = false := by
  simp only [isAtomStart, Bool.or_eq_true, Bool.and_eq_true, decide_eq_true_eq, Char.le_def,
    UInt32.le_iff_toNat_le] at hc
  simp only [Char.reduceVal, UInt32.reduceToNat] at hc
  refine isBlank_of_printed ?_
  unfold Char.toNat
  omega

/-! ## Rendered text -/

/-- The characters in front of the text are words that mean the symbols, and blanks; the text after
them is cut as if they were not there. -/
def Spells (cs : List Char) (syms : List Symbol) (t : Text) : Prop :=
  ∀ pos, ∃ front : List Token, front.map Token.symbol = syms ∧
    tokensFrom 0 pos (Text.ofChars cs ++ t) = (tokensFrom 0 (pos + cs.length) t).map (front ++ ·)

theorem spells_append {as bs : List Char} {xs ys : List Symbol} {t : Text}
    (has : Spells as xs (Text.ofChars bs ++ t)) (hbs : Spells bs ys t) :
    Spells (as ++ bs) (xs ++ ys) t := by
  intro pos
  obtain ⟨front, hfront, hcut⟩ := has pos
  obtain ⟨front', hfront', hcut'⟩ := hbs (pos + as.length)
  refine ⟨front ++ front', by rw [List.map_append, hfront, hfront'], ?_⟩
  have happend : Text.ofChars (as ++ bs) ++ t = Text.ofChars as ++ (Text.ofChars bs ++ t) := by
    simp [Text.ofChars]
  rw [happend, hcut, hcut', List.length_append, Nat.add_assoc]
  cases tokensFrom 0 (pos + (as.length + bs.length)) t with
  | error e => rfl
  | ok ts => simp [Except.map]

theorem spells_blank (t : Text) : Spells [' '] [] t := by
  intro pos
  refine ⟨[], rfl, ?_⟩
  have hcut : tokensFrom 0 pos (.char ' ' :: t) = tokensFrom 0 (pos + 1) t := by
    simp [tokensFrom, CodePoint.is, show Text.isBlank ' ' = true from rfl]
  show tokensFrom 0 pos (.char ' ' :: t) = _
  rw [hcut, List.length_singleton]
  cases tokensFrom 0 (pos + 1) t <;> rfl

theorem tokensFrom_skip (cs : List Char) (pos : Nat) (t : Text) :
    tokensFrom cs.length pos (Text.ofChars cs ++ t) = tokensFrom 0 (pos + cs.length) t := by
  induction cs generalizing pos with
  | nil => rfl
  | cons c cs ih =>
    show tokensFrom (cs.length + 1) pos (.char c :: (Text.ofChars cs ++ t)) = _
    rw [tokensFrom, ih, List.length_cons]
    congr 1
    omega

/-- A word at the front is cut off, and the text after it is cut as if it stood alone. -/
theorem tokensFrom_word {c : Char} {cs : List Char} {x : Symbol} {t : Text}
    (hc : Text.isBlank c = false)
    (hlex : lexeme? (Text.ofChars (c :: cs) ++ t) = some (x, c :: cs)) (pos : Nat) :
    tokensFrom 0 pos (Text.ofChars (c :: cs) ++ t) =
      (tokensFrom 0 (pos + (c :: cs).length) t).map
        (⟨x, c :: cs, pos, pos + (c :: cs).length⟩ :: ·) := by
  have hskip := tokensFrom_skip cs (pos + 1) t
  have hlen : pos + 1 + cs.length = pos + (c :: cs).length := by
    rw [List.length_cons]
    omega
  have hlex : lexeme? (.char c :: (Text.ofChars cs ++ t)) = some (x, c :: cs) := hlex
  show tokensFrom 0 pos (.char c :: (Text.ofChars cs ++ t)) = _
  rw [tokensFrom, if_neg (by simpa [CodePoint.is] using hc), hlex]
  simp only [List.length_cons, Nat.add_sub_cancel]
  rw [hskip, hlen]
  cases tokensFrom 0 (pos + (c :: cs).length) t <;> rfl

theorem spells_word {c : Char} {cs : List Char} {x : Symbol} {t : Text} (hc : Text.isBlank c = false)
    (hlex : lexeme? (Text.ofChars (c :: cs) ++ t) = some (x, c :: cs)) : Spells (c :: cs) [x] t :=
  fun pos => ⟨[⟨x, c :: cs, pos, pos + (c :: cs).length⟩], rfl, tokensFrom_word hc hlex pos⟩

theorem spells_unary (op : UnaryOp) (t : Text) : Spells [op.symbol] [.unary op] t :=
  spells_word (by cases op <;> rfl) (lexeme?_unary op t)

theorem spells_binary (op : BinaryOp) (t : Text) :
    Spells [' ', op.symbol, ' '] [.binary op] t := by
  have hop : Spells [op.symbol] [.binary op] (Text.ofChars [' '] ++ t) :=
    spells_word (by cases op <;> rfl) (lexeme?_binary op _)
  exact spells_append (spells_blank _) (spells_append hop (spells_blank t))

/-- A rendered sentence is cut into the words that it was made of, whatever separator follows. -/
theorem chars_spells {s : Sentence} (hs : s.Spellable) (nested : Bool) {t : Text} (ht : Separates t) :
    Spells (s.chars nested) (s.symbols nested) t := by
  induction s generalizing nested t with
  | atom name =>
    obtain ⟨c, tail, hname, hc, htail⟩ := hs
    have hlex := lexeme?_atom ⟨c, tail, hname, hc, htail⟩ ht
    rw [String.ofList_toList] at hlex
    unfold Sentence.chars Sentence.symbols
    rw [hname] at hlex ⊢
    exact spells_word (isBlank_of_isAtomStart hc) hlex
  | metavar name => cases hs
  | bottom => exact spells_word rfl (lexeme?_bottom t)
  | marker => cases hs
  | unary op s ih => exact spells_append (spells_unary op _) (ih hs true ht)
  | binary op l r ihl ihr =>
    have hbody : ∀ u, Separates u → Spells (l.chars true ++ ' ' :: op.symbol :: ' ' :: r.chars true)
        (l.symbols true ++ .binary op :: r.symbols true) u := by
      intro u hu
      refine spells_append (ihl hs.1 true (separates_char rfl (by decide) _)) ?_
      exact spells_append (spells_binary op _) (ihr hs.2 true hu)
    unfold Sentence.chars Sentence.symbols
    cases nested with
    | false => exact hbody t ht
    | true =>
      have hopen : ∀ u, Spells ['('] [.opening .round] u := fun u => spells_word rfl (lexeme?_opening u)
      have hclose : Spells [')'] [.closing .round] t := spells_word rfl (lexeme?_closing t)
      exact spells_append (spells_append (hopen _) (hbody _ (separates_char rfl (by decide) _))) hclose

theorem tokens_render {s : Sentence} (hs : s.Spellable) :
    ∃ ts, tokens s.render = .ok ts ∧ ts.map Token.symbol = s.symbols false := by
  obtain ⟨front, hfront, hcut⟩ := chars_spells hs false separates_nil 0
  refine ⟨front, ?_, hfront⟩
  unfold tokens Sentence.render Text.ofString
  rw [String.toList_ofList, ← List.append_nil (Text.ofChars _), hcut]
  simp [tokensFrom, Except.map]

end ModalFitch
