import ModalFitch.Proofs.Lexing
import ModalFitch.Proofs.Reading

/-! Where the errors of a text lie, and that reading goes by the symbols of the words alone.

* `Grammar.Parallel`: two word lists with the same symbols, each with its words in order in a text of
  its own.
* `Grammar.Agree`: two results that are both there and related, or two errors of one kind, each with a
  span inside its own text.
* `Grammar.primary_agrees`, `unary_agrees`, `chain_agrees`, `rightward_agrees`: one reader on parallel
  word lists, given the readers that it calls.
* `Grammar.sentence_agrees`: parallel word lists are read alike.
* `lexing_exact`: which words a text is cut into, where the cutting fails, and where the errors of a
  text lie. -/

namespace ModalFitch
set_option autoImplicit false

/-- An error about words of a text of the given size. -/
structure ParseError.Inside (size : Nat) (e : ParseError) : Prop where
  within : e.start ≤ e.stop ∧ e.stop ≤ size
  words : e.kind != .unknownOperator

namespace Grammar

/-! ## Word lists -/

/-- Words of a text of the given size, one after the other. -/
structure WordsIn (size : Nat) (ts : List Token) : Prop where
  placed : ∀ t ∈ ts, t.start ≤ t.stop ∧ t.stop ≤ size
  ordered : ts.Pairwise fun a b => a.stop ≤ b.start

theorem WordsIn.sublist {size : Nat} {ts us : List Token} (h : WordsIn size us)
    (hsub : ts.Sublist us) : WordsIn size ts :=
  ⟨fun t ht => h.placed t (hsub.subset ht), h.ordered.sublist hsub⟩

/-- Two word lists with the same symbols, in texts of the given sizes. -/
structure Parallel (m n : Nat) (ts us : List Token) : Prop where
  symbols : ts.map Token.symbol = us.map Token.symbol
  left : WordsIn m ts
  right : WordsIn n us

variable {m n : Nat} {ts us : List Token} {t u : Token}

theorem Parallel.cases (h : Parallel m n ts us) : (ts = [] ∧ us = []) ∨
    ∃ t ts' u us', ts = t :: ts' ∧ us = u :: us' ∧ u.symbol = t.symbol := by
  have hsymbols := h.symbols
  cases ts with
  | nil => exact .inl ⟨rfl, List.map_eq_nil_iff.mp hsymbols.symm⟩
  | cons t ts =>
    obtain ⟨u, us, rfl, hu, -⟩ := List.map_eq_cons_iff.mp hsymbols.symm
    exact .inr ⟨t, ts, u, us, rfl, rfl, hu⟩

theorem Parallel.tail (h : Parallel m n (t :: ts) (u :: us)) : Parallel m n ts us :=
  ⟨(List.cons.inj h.symbols).2, h.left.sublist (List.sublist_cons_self t ts),
    h.right.sublist (List.sublist_cons_self u us)⟩

/-- Two word lists with the same symbols are what is left of two others. -/
structure Left (ts us rest rest' : List Token) : Prop where
  symbols : rest.map Token.symbol = rest'.map Token.symbol
  left : rest <:+ ts
  right : rest' <:+ us

theorem Left.parallel {rest rest' : List Token} (hrest : Left ts us rest rest')
    (h : Parallel m n ts us) : Parallel m n rest rest' :=
  ⟨hrest.symbols, h.left.sublist hrest.left.sublist, h.right.sublist hrest.right.sublist⟩

theorem Left.cons {rest rest' : List Token} (hrest : Left ts us rest rest')
    (h : Parallel m n (t :: ts) (u :: us)) : Parallel m n (t :: rest) (u :: rest') where
  symbols := by rw [List.map_cons, List.map_cons, hrest.symbols, (List.cons.inj h.symbols).1]
  left := h.left.sublist (hrest.left.sublist.cons_cons t)
  right := h.right.sublist (hrest.right.sublist.cons_cons u)

theorem Left.trans {rest rest' more more' : List Token} (hrest : Left ts us rest rest')
    (hmore : Left rest rest' more more') : Left ts us more more' :=
  ⟨hmore.symbols, hmore.left.trans hrest.left, hmore.right.trans hrest.right⟩

theorem Left.skip {rest rest' : List Token} (hrest : Left ts us rest rest') :
    Left (t :: ts) (u :: us) rest rest' :=
  ⟨hrest.symbols, hrest.left.trans (List.suffix_cons t ts), hrest.right.trans (List.suffix_cons u us)⟩

theorem Parallel.all (h : Parallel m n ts us) : Left ts us ts us :=
  ⟨h.symbols, List.suffix_refl ts, List.suffix_refl us⟩

/-! ## Results -/

/-- Two results that are there and related, or two errors of one kind, each inside its own text. -/
inductive Agree (m n : Nat) {α : Type} (R : α → α → Prop) :
    Except ParseError α → Except ParseError α → Prop where
  | ok {a b : α} : R a b → Agree m n R (.ok a) (.ok b)
  | error {e f : ParseError} : e.kind = f.kind → e.Inside m → f.Inside n →
      Agree m n R (.error e) (.error f)

theorem Agree.bind {α β : Type} {R : α → α → Prop} {S : β → β → Prop} {x y : Except ParseError α}
    {f g : α → Except ParseError β} (h : Agree m n R x y)
    (hnext : ∀ a b, R a b → Agree m n S (f a) (g b)) : Agree m n S (x >>= f) (y >>= g) := by
  cases h with
  | ok hab => exact hnext _ _ hab
  | error hkind he hf => exact .error hkind he hf

theorem Agree.imp {α : Type} {R S : α → α → Prop} {x y : Except ParseError α} (h : Agree m n R x y)
    (himp : ∀ a b, R a b → S a b) : Agree m n S x y := by
  cases h with
  | ok hab => exact .ok (himp _ _ hab)
  | error hkind he hf => exact .error hkind he hf

/-- Errors at the first words. -/
theorem Parallel.error_at (h : Parallel m n (t :: ts) (u :: us)) {α : Type} {R : α → α → Prop}
    {cause cause' : ParseCause}
    (hkind : (ParseError.atToken cause t).kind = (ParseError.atToken cause' u).kind)
    (hwords : (ParseError.atToken cause t).kind != .unknownOperator) :
    Agree m n R (.error (.atToken cause t)) (.error (.atToken cause' u)) :=
  .error hkind ⟨h.left.placed t List.mem_cons_self, hwords⟩
    ⟨h.right.placed u List.mem_cons_self, hkind ▸ hwords⟩

/-- Errors that reach to the ends of the texts. -/
theorem agree_to_end {α : Type} {R : α → α → Prop} {cause : ParseCause} {i j : Nat} (hi : i ≤ m)
    (hj : j ≤ n) (hwords : ∀ start stop, ParseError.kind ⟨cause, start, stop⟩ != .unknownOperator) :
    Agree m n R (.error ⟨cause, i, m⟩) (.error ⟨cause, j, n⟩) :=
  .error rfl ⟨⟨hi, Nat.le_refl m⟩, hwords i m⟩ ⟨⟨hj, Nat.le_refl n⟩, hwords j n⟩

/-- Two readings of one sentence that leave words with the same symbols. -/
structure SameReading (ts us : List Token) (a b : Sentence × List Token) : Prop where
  sentence : a.1 = b.1
  rest : Left ts us a.2 b.2

/-- Two readers read parallel word lists alike. -/
def ReadAlike (m n : Nat) (reader reader' : Reader) : Prop :=
  ∀ ts us, Parallel m n ts us → Agree m n (SameReading ts us) (reader ts) (reader' us)

/-- The readers of two levels read alike. -/
structure LevelsAlike (m n : Nat) (level level' : Level) : Prop where
  biconditional : ReadAlike m n level.biconditional level'.biconditional
  conditional : ReadAlike m n level.conditional level'.conditional
  unary : ReadAlike m n level.unary level'.unary

/-- What stands below two levels. -/
inductive BelowAlike (m n : Nat) : Option Level → Option Level → Prop where
  | none : BelowAlike m n none none
  | some {level level' : Level} : LevelsAlike m n level level' →
      BelowAlike m n (some level) (some level')

/-! ## Readers -/

variable {below below' : Option Level}

theorem descend_agrees (hbelow : BelowAlike m n below below')
    (h : Parallel m n (t :: ts) (u :: us)) :
    Agree m n (LevelsAlike m n) (descend below t) (descend below' u) := by
  cases hbelow with
  | none => exact h.error_at rfl rfl
  | some hlevel => exact .ok hlevel

theorem close_agrees (b : Bracket) (h : Parallel m n (t :: ts) (u :: us)) :
    Agree m n (Left ts us) (close t b ts) (close u b us) := by
  have hopen : Agree m n (Left ts us) (.error (.atToken (.neverClosed t.text) t))
      (.error (.atToken (.neverClosed u.text) u)) := h.error_at rfl rfl
  rcases h.tail.cases with ⟨rfl, rfl⟩ | ⟨t', ts', u', us', rfl, rfl, hsymbol⟩
  · exact hopen
  · simp only [close, hsymbol]
    cases t'.symbol with
    | closing b' =>
      dsimp only
      split
      · exact .ok h.tail.tail.all.skip
      · -- the span goes from the opening bracket to the end of the closing one
        have hspan : ∀ {size : Nat} {a b : Token} {rest : List Token}, WordsIn size (a :: b :: rest) →
            a.start ≤ b.stop ∧ b.stop ≤ size := by
          intro size a b rest hwords
          have ha := hwords.placed a List.mem_cons_self
          have hb := hwords.placed b (.tail _ List.mem_cons_self)
          have hab := List.rel_of_pairwise_cons hwords.ordered List.mem_cons_self
          omega
        exact .error rfl ⟨hspan h.left, rfl⟩ ⟨hspan h.right, rfl⟩
    | _ => exact hopen

variable {env env' : Setting}

theorem primary_agrees (hbelow : BelowAlike env.size env'.size below below')
    (hleaf : env.leaf = env'.leaf) :
    ReadAlike env.size env'.size (primary env below) (primary env' below') := by
  intro ts us h
  rcases h.cases with ⟨rfl, rfl⟩ | ⟨t, ts, u, us, rfl, rfl, hsymbol⟩
  · exact agree_to_end (Nat.le_refl _) (Nat.le_refl _) fun _ _ => rfl
  · simp only [primary, hsymbol]
    cases t.symbol with
    | atom name => exact .ok ⟨by rw [hleaf], h.tail.all.skip⟩
    | bottom => exact .ok ⟨rfl, h.tail.all.skip⟩
    | opening b =>
      refine (descend_agrees hbelow h).bind fun level level' hlevel => ?_
      refine (hlevel.biconditional ts us h.tail).bind fun read read' hread => ?_
      refine (close_agrees b (hread.rest.cons h)).bind fun rest rest' hrest => ?_
      exact .ok ⟨hread.sentence, (hread.rest.trans hrest).skip⟩
    | closing b => exact h.error_at rfl rfl
    | unary op => exact h.error_at rfl rfl
    | binary op => exact h.error_at rfl rfl

theorem unary_agrees (hbelow : BelowAlike env.size env'.size below below')
    (hleaf : env.leaf = env'.leaf) :
    ReadAlike env.size env'.size (unary env below) (unary env' below') := by
  intro ts us h
  have hprimary := primary_agrees hbelow hleaf ts us h
  rcases h.cases with ⟨rfl, rfl⟩ | ⟨t, ts, u, us, rfl, rfl, hsymbol⟩
  · exact hprimary
  · simp only [unary, hsymbol]
    cases t.symbol with
    | unary op =>
      refine (descend_agrees hbelow h).bind fun level level' hlevel => ?_
      refine (hlevel.unary ts us h.tail).bind fun read read' hread => ?_
      exact .ok ⟨congrArg (Sentence.unary op) hread.sentence, hread.rest.skip⟩
    | _ => exact hprimary

/-- An operand, and what the rest of the words adds to it. -/
theorem joined_agrees {operand operand' : Reader} (hoperand : ReadAlike m n operand operand')
    {more more' : Sentence → Reader} (hmore : ∀ left, ReadAlike m n (more left) (more' left)) :
    ReadAlike m n (fun ts => operand ts >>= fun p => more p.1 p.2)
      (fun us => operand' us >>= fun p => more' p.1 p.2) := by
  intro ts us h
  refine (hoperand ts us h).bind fun first first' hfirst => ?_
  rw [← hfirst.sentence]
  exact (hmore first.1 _ _ (hfirst.rest.parallel h)).imp fun read read' hread =>
    ⟨hread.sentence, hfirst.rest.trans hread.rest⟩

theorem chainFrom_agrees {operand operand' : Reader} (hoperand : ReadAlike m n operand operand')
    (op : BinaryOp) (bound : Nat) (left : Sentence) :
    ReadAlike m n (chainFrom operand op bound left) (chainFrom operand' op bound left) := by
  induction bound generalizing left with
  | zero => exact fun ts us h => .ok ⟨rfl, h.all⟩
  | succ bound ih =>
    intro ts us h
    rcases h.cases with ⟨rfl, rfl⟩ | ⟨t, ts, u, us, rfl, rfl, hsymbol⟩
    · exact .ok ⟨rfl, h.all⟩
    · simp only [chainFrom, hsymbol]
      split
      · have hmore := joined_agrees hoperand (fun right => ih (.binary op left right)) ts us h.tail
        exact hmore.imp fun read read' hread => ⟨hread.sentence, hread.rest.skip⟩
      · exact .ok ⟨rfl, h.all⟩

theorem chain_agrees {operand operand' : Reader} (hoperand : ReadAlike m n operand operand')
    (op : BinaryOp) : ReadAlike m n (chain operand op) (chain operand' op) := by
  have hmore : ∀ left, ReadAlike m n (fun ts => chainFrom operand op ts.length left ts)
      (fun us => chainFrom operand' op us.length left us) := by
    intro left ts us h
    have hlength : us.length = ts.length := by
      simpa only [List.length_map] using congrArg List.length h.symbols.symm
    dsimp only
    rw [hlength]
    exact chainFrom_agrees hoperand op ts.length left ts us h
  exact joined_agrees hoperand hmore

theorem rightward_agrees {operand operand' : Reader} (hoperand : ReadAlike m n operand operand')
    (op : BinaryOp) (hbelow : BelowAlike m n below below') {right : Level → Reader}
    (hright : ∀ level level', LevelsAlike m n level level' → ReadAlike m n (right level) (right level')) :
    ReadAlike m n (rightward operand op below right) (rightward operand' op below' right) := by
  rw [rightward_eq, rightward_eq]
  refine joined_agrees hoperand fun left ts us h => ?_
  rcases h.cases with ⟨rfl, rfl⟩ | ⟨t, ts, u, us, rfl, rfl, hsymbol⟩
  · exact .ok ⟨rfl, h.all⟩
  · simp only [rightFrom, hsymbol]
    split
    · refine (descend_agrees hbelow h).bind fun level level' hlevel => ?_
      refine (hright level level' hlevel ts us h.tail).bind fun read read' hread => ?_
      exact .ok ⟨congrArg (Sentence.binary op left) hread.sentence, hread.rest.skip⟩
    · exact .ok ⟨rfl, h.all⟩

/-! ## Levels and sentences -/

theorem above_alike (hbelow : BelowAlike env.size env'.size below below')
    (hleaf : env.leaf = env'.leaf) :
    LevelsAlike env.size env'.size (above env below) (above env' below') := by
  have hunary := unary_agrees hbelow hleaf
  have hdisjunction := chain_agrees (chain_agrees hunary .con) .dis
  have hconditional := rightward_agrees hdisjunction .imp hbelow
    fun _ _ hlevel => hlevel.conditional
  exact ⟨rightward_agrees hconditional .bic hbelow fun _ _ hlevel => hlevel.biconditional,
    hconditional, hunary⟩

theorem levels_alike (hleaf : env.leaf = env'.leaf) (k : Nat) :
    LevelsAlike env.size env'.size (levels env k) (levels env' k) := by
  induction k with
  | zero => exact above_alike .none hleaf
  | succ k ih => exact above_alike (.some ih) hleaf

theorem whole_agrees (hleaf : env.leaf = env'.leaf) (h : Parallel env.size env'.size ts us) :
    Agree env.size env'.size Eq (whole env ts) (whole env' us) := by
  refine ((levels_alike hleaf maxNesting).biconditional ts us h).bind ?_
  rintro ⟨s, rest⟩ ⟨s', rest'⟩ ⟨rfl, hrest⟩
  have hparallel := hrest.parallel h
  rcases hparallel.cases with ⟨rfl, rfl⟩ | ⟨t, rest, u, rest', rfl, rfl, hsymbol⟩
  · dsimp only
    split
    · exact agree_to_end (Nat.zero_le _) (Nat.zero_le _) fun _ _ => rfl
    · exact .ok rfl
  · dsimp only
    rw [hsymbol]
    cases t.symbol <;> exact hparallel.error_at rfl rfl

/-- Parallel word lists are read as one sentence, or refused for reasons of one kind. -/
theorem sentence_agrees (hleaf : env.leaf = env'.leaf) (h : Parallel env.size env'.size ts us) :
    Agree env.size env'.size Eq (sentence env ts) (sentence env' us) := by
  have hwhole := whole_agrees hleaf h
  rcases h.cases with ⟨rfl, rfl⟩ | ⟨t, ts, u, us, rfl, rfl, hsymbol⟩
  · exact agree_to_end (Nat.zero_le _) (Nat.zero_le _) fun _ _ => rfl
  · rcases h.tail.cases with ⟨rfl, rfl⟩ | ⟨t', ts, u', us, rfl, rfl, -⟩
    · simp only [sentence, hsymbol]
      split
      · exact .ok rfl
      · exact hwhole
    · exact hwhole

end Grammar

/-! ## Texts -/

open Grammar

theorem Cut.wordsIn {t : Text} {ts : List Token} (h : Cut t 0 t.length ts) : WordsIn t.length ts where
  placed := fun tok htok => by
    have hplaced := h.placed tok htok
    omega
  ordered := h.ordered

/-- Texts whose words have the same symbols are read alike. -/
theorem readWith_agrees (leaf : String → Sentence) {t u : Text} {ts us : List Token}
    (ht : tokens t = .ok ts) (hu : tokens u = .ok us)
    (hsymbols : ts.map Token.symbol = us.map Token.symbol) :
    Agree t.length u.length Eq (Sentence.readWith leaf t) (Sentence.readWith leaf u) := by
  have hparallel : Parallel t.length u.length ts us :=
    ⟨hsymbols, (tokens_ok_iff.mp ht).wordsIn, (tokens_ok_iff.mp hu).wordsIn⟩
  have hleaf : (Setting.mk t.length leaf).leaf = (Setting.mk u.length leaf).leaf := rfl
  rw [Sentence.readWith, Sentence.readWith, ht, hu]
  exact sentence_agrees hleaf hparallel

/-- An error of a text that is cut into words. -/
theorem readWith_inside {leaf : String → Sentence} {t : Text} {ts : List Token} {e : ParseError}
    (h : tokens t = .ok ts) (he : Sentence.readWith leaf t = .error e) : e.Inside t.length := by
  have hagree := readWith_agrees leaf h h rfl
  rw [he] at hagree
  cases hagree with
  | error _ hinside _ => exact hinside

/-- A text that is not cut into words has the error that stops the cutting. -/
theorem readWith_stuck (leaf : String → Sentence) {t : Text} {u : UnknownSymbol}
    (h : tokens t = .error u) : Sentence.readWith leaf t =
      .error ⟨.unknownSymbol u.symbol, u.position, u.position + 1⟩ := by
  rw [Sentence.readWith, h]

theorem readWith_unknown_iff {leaf : String → Sentence} {t : Text} {e : ParseError} :
    (Sentence.readWith leaf t = .error e ∧ e.kind = .unknownOperator) ↔ ∃ u, tokens t = .error u ∧
      e = ⟨.unknownSymbol u.symbol, u.position, u.position + 1⟩ := by
  constructor
  · rintro ⟨he, hkind⟩
    cases ht : tokens t with
    | ok ts => exact absurd hkind (bne_iff_ne.mp (readWith_inside ht he).words)
    | error u =>
      rw [readWith_stuck leaf ht] at he
      exact ⟨u, rfl, (Except.error.inj he).symm⟩
  · rintro ⟨u, ht, rfl⟩
    exact ⟨readWith_stuck leaf ht, rfl⟩

theorem readWith_span {leaf : String → Sentence} {t : Text} {e : ParseError}
    (he : Sentence.readWith leaf t = .error e) : e.start ≤ e.stop ∧ e.stop ≤ t.length := by
  cases ht : tokens t with
  | ok ts => exact (readWith_inside ht he).within
  | error u =>
    rw [readWith_stuck leaf ht] at he
    cases he
    obtain ⟨hposition, -⟩ := List.getElem?_eq_some_iff.mp (tokens_error_iff.mp ht).1.1
    exact ⟨Nat.le_succ _, hposition⟩

/-- The words of a text are the one way to cut it, blanks apart, into the words chosen where they
start. The cutting fails exactly where it reaches a code point that is no blank and starts no word; the
errors of unknown operators, in sentences and in patterns, are those failures, each with the span of
that code point. The span of every error lies in the text. -/
theorem lexing_exact (t : Text) :
    (∀ ts, tokens t = .ok ts ↔ Cut t 0 t.length ts) ∧
    (∀ u, tokens t = .error u ↔ Stuck t u ∧ ∃ ts, Cut t 0 u.position ts) ∧
    (∀ e, (Sentence.read t = .error e ∧ e.kind = .unknownOperator ↔ ∃ u, tokens t = .error u ∧
        e = ⟨.unknownSymbol u.symbol, u.position, u.position + 1⟩) ∧
      (Sentence.readPattern t = .error e ∧ e.kind = .unknownOperator ↔ ∃ u, tokens t = .error u ∧
        e = ⟨.unknownSymbol u.symbol, u.position, u.position + 1⟩)) ∧
    (∀ e, Sentence.read t = .error e ∨ Sentence.readPattern t = .error e →
      e.start ≤ e.stop ∧ e.stop ≤ t.length) := by
  refine ⟨fun ts => tokens_ok_iff, fun u => tokens_error_iff,
    fun e => ⟨readWith_unknown_iff, readWith_unknown_iff⟩, ?_⟩
  rintro e (he | he)
  · exact readWith_span he
  · exact readWith_span he

/-- Spellings that overlap, a symbol that is none, and a bracket closed by another one. -/
theorem lexing_exact_overlapping :
    Cut (Text.ofChars ['-', 'X', '<', '-', '>', 'X', 'X', '|', '_', '|', '_']) 0 11
      [⟨.unary .neg, ['-'], 0, 1⟩, ⟨.atom "X", ['X'], 1, 2⟩, ⟨.binary .bic, ['<', '-', '>'], 2, 5⟩,
        ⟨.bottom, ['X', 'X'], 5, 7⟩, ⟨.binary .dis, ['|'], 7, 8⟩, ⟨.bottom, ['_', '|', '_'], 8, 11⟩] ∧
    Stuck (Text.ofChars ['P', ' ', '%']) ⟨.char '%', 2⟩ ∧
    ∃ e, Sentence.read (Text.ofChars ['(', 'P', ']']) = .error e ∧ e.kind = .unmatchedGroup ∧
      e.start ≤ e.stop ∧ e.stop ≤ 3 := by
  have hread : Sentence.read (Text.ofChars ['(', 'P', ']']) =
      .error ⟨.closedBy ['('] [']'], 0, 3⟩ := by
    decide +kernel
  have hspan := (lexing_exact _).2.2.2 _ (.inl hread)
  refine ⟨((lexing_exact _).1 _).mp ?_, (((lexing_exact _).2.1 _).mp ?_).1, _, hread, rfl, hspan⟩
  · decide +kernel
  · decide +kernel

end ModalFitch
