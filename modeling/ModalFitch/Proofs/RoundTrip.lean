import ModalFitch.Proofs.Lexing
import ModalFitch.Proofs.Reading

/-! A rendered sentence read back.

The rendered text has brackets around every binary sentence inside another one, so it may be nested
deeper than the text that the sentence was read from.

* `Grammar.Refuses`: a reader refuses the derivations that go deeper than a number of levels, and says
  that they are too deep.
* `Sentence.renderedNesting`: how deep the rendered text is nested.
* `Sentence.exists_derivation`: the derivation of the rendered text.
* `read_render`: reading the rendered text gives the sentence back, or finds it too deep. -/

namespace ModalFitch
set_option autoImplicit false

/-- There is no result for the one reason that the words are nested too deep. -/
def TooDeep {α : Type} (x : Except ParseError α) : Prop := ∃ e, x = .error e ∧ e.kind = .tooDeep

theorem TooDeep.bind {α β : Type} {x : Except ParseError α} (h : TooDeep x)
    (f : α → Except ParseError β) : TooDeep (x >>= f) := by
  obtain ⟨e, rfl, he⟩ := h
  exact ⟨e, rfl, he⟩

theorem TooDeep.after {α β : Type} {x : Except ParseError α} {a : α} (hx : x = .ok a)
    {f : α → Except ParseError β} (h : TooDeep (f a)) : TooDeep (x >>= f) := by
  subst hx
  exact h

namespace Grammar

/-! ## Readers out of levels -/

/-- A reader refuses each derivation of a category that goes deeper than a number of levels, as too
deep. -/
def Refuses (c : Category) (n : Nat) (reader : Reader) : Prop :=
  ∀ (d : Derivation c) ts rest, Front d.yield ts rest → Stops c (rest.map Token.symbol) →
    n < d.nesting → TooDeep (reader ts)

/-- The readers of a level with so many levels below it: they read what they should and refuse what
goes deeper. -/
structure Limited (leaf : String → Sentence) (n : Nat) (level : Level) : Prop where
  conforms : Conforms leaf n level
  biconditional : Refuses (.binary .bic) n level.biconditional
  conditional : Refuses (.binary .imp) n level.conditional
  unary : Refuses .unary n level.unary

/-- What stands below a level with so many levels below it. -/
def Beneath (leaf : String → Sentence) : Nat → Option Level → Prop
  | 0, below => below = none
  | n + 1, below => ∃ level, below = some level ∧ Limited leaf n level

theorem Beneath.lower {leaf : String → Sentence} {n : Nat} {below : Option Level}
    (h : Beneath leaf n below) : Lower leaf n below := by
  cases n with
  | zero => exact h
  | succ n =>
    obtain ⟨level, hlevel, hlimited⟩ := h
    exact ⟨level, hlevel, hlimited.conforms⟩

/-- Going down a level is refused, or what is done there is. -/
theorem Beneath.descend {leaf : String → Sentence} {n k : Nat} {below : Option Level}
    (h : Beneath leaf n below) (hk : n < k + 1) (t : Token) {β : Type}
    {f : Level → Except ParseError β}
    (hf : ∀ m level, Limited leaf m level → m < k → TooDeep (f level)) :
    TooDeep (descend below t >>= f) := by
  cases n with
  | zero =>
    have hbelow : below = none := h
    subst hbelow
    exact ⟨_, rfl, rfl⟩
  | succ m =>
    obtain ⟨level, rfl, hlimited⟩ := h
    exact hf m level hlimited (by omega)

theorem primary_refuses {env : Setting} {n : Nat} {below : Option Level}
    (h : Beneath env.leaf n below) : Refuses .primary n (primary env below) := by
  intro d ts rest hfront _ hn
  cases d with
  | atom name => exact absurd hn (Nat.not_lt_zero n)
  | bottom => exact absurd hn (Nat.not_lt_zero n)
  | bracketed b inner =>
    obtain ⟨t, us, rfl, ht, hrest⟩ := front_cons.mp hfront
    obtain ⟨mid, hinner, hclose⟩ := front_append.mp hrest
    have hstop : Stops (.binary .bic) (mid.map Token.symbol) := by
      rw [hclose.symbols]
      exact stops_closing _ b _
    unfold primary
    simp only [ht]
    refine h.descend hn t fun m level hlevel hm => ?_
    exact (hlevel.biconditional inner us mid hinner hstop hm).bind _

theorem unary_refuses {env : Setting} {n : Nat} {below : Option Level}
    (h : Beneath env.leaf n below) : Refuses .unary n (unary env below) := by
  intro d ts rest hfront hstop hn
  cases d with
  | prefixed op x =>
    obtain ⟨t, us, rfl, ht, hx⟩ := front_cons.mp hfront
    unfold unary
    simp only [ht]
    refine h.descend hn t fun m level hlevel hm => ?_
    exact (hlevel.unary x us rest hx hstop hm).bind _
  | bare x =>
    have hdeep := primary_refuses h x ts rest hfront (stops_primary _) hn
    cases ts with
    | nil => exact hdeep
    | cons t us =>
      unfold unary
      dsimp only
      split
      · -- a primary sentence does not start with a prefix operator
        rename_i op ht
        have hhead := congrArg List.head? hfront.symbols
        rw [List.map_cons, List.head?_cons, ht] at hhead
        exact absurd hhead.symm (x.primary_head op _)
      · exact hdeep

theorem joined_refuses {leaf : String → Sentence} {op : BinaryOp} {n : Nat} {operand : Reader}
    (hreads : Reads leaf op.operand n operand) (hdeep : Refuses op.operand n operand)
    (reader : Sentence → List Token → Except ParseError (Sentence × List Token))
    (hmore : ∀ left (more : Rest op) ts rest, Front more.yield ts rest →
      Stops (.binary op) (rest.map Token.symbol) → n < more.nesting → TooDeep (reader left ts)) :
    Refuses (.binary op) n fun ts => operand ts >>= fun p => reader p.1 p.2 := by
  intro d ts rest hfront hstop hn
  cases d with
  | joined first more =>
    obtain ⟨mid, hfirst, hfront⟩ := front_append.mp hfront
    have hmid := hfront.stops hstop
    by_cases hle : first.nesting ≤ n
    · have hread := (hreads ts _ mid).mpr ⟨first, hfirst, rfl, hle, hmid⟩
      have hlt : n < more.nesting := by
        have hn : n < max first.nesting more.nesting := hn
        omega
      exact TooDeep.after hread (hmore _ more mid rest hfront hstop hlt)
    · exact (hdeep first ts mid hfirst hmid (by omega)).bind _

theorem chainFrom_refuses {leaf : String → Sentence} {op : BinaryOp} (hop : op.leansRight = false)
    {n : Nat} {operand : Reader} (hreads : Reads leaf op.operand n operand)
    (hdeep : Refuses op.operand n operand) {bound : Nat} (left : Sentence) (more : Rest op)
    {ts rest : List Token} (hbound : ts.length ≤ bound) (hfront : Front more.yield ts rest)
    (hstop : Stops (.binary op) (rest.map Token.symbol)) (hn : n < more.nesting) :
    TooDeep (chainFrom operand op bound left ts) := by
  induction bound generalizing left more ts with
  | zero =>
    have hnil := List.length_eq_zero_iff.mp (Nat.le_zero.mp hbound)
    subst hnil
    cases more with
    | none => exact absurd hn (Nat.not_lt_zero n)
    | right hop' x => exact absurd (hop.symm.trans hop') (by decide)
    | left _ x more =>
      obtain ⟨t, us, htail, -⟩ := front_cons.mp hfront
      cases htail
  | succ bound ih =>
    cases more with
    | none => exact absurd hn (Nat.not_lt_zero n)
    | right hop' x => exact absurd (hop.symm.trans hop') (by decide)
    | left _ x more =>
      obtain ⟨t, us, rfl, ht, hrest⟩ := front_cons.mp hfront
      obtain ⟨mid, hx, hmore⟩ := front_append.mp hrest
      have hmid := hmore.stops hstop
      rw [chainFrom, if_pos ht]
      by_cases hle : x.nesting ≤ n
      · have hread := (hreads us _ mid).mpr ⟨x, hx, rfl, hle, hmid⟩
        have hlt : n < more.nesting := by
          have hn : n < max x.nesting more.nesting := hn
          omega
        have hlen := hx.length_le
        have hus : us.length < bound + 1 := hbound
        exact TooDeep.after hread (ih _ more (by omega) hmore hlt)
      · exact (hdeep x us mid hx hmid (by omega)).bind _

theorem chain_refuses {leaf : String → Sentence} {op : BinaryOp} (hop : op.leansRight = false)
    {n : Nat} {operand : Reader} (hreads : Reads leaf op.operand n operand)
    (hdeep : Refuses op.operand n operand) : Refuses (.binary op) n (chain operand op) :=
  joined_refuses hreads hdeep (fun left ts => chainFrom operand op ts.length left ts)
    fun left more _ _ hfront hstop hn =>
      chainFrom_refuses hop hreads hdeep left more (Nat.le_refl _) hfront hstop hn

theorem rightward_refuses {leaf : String → Sentence} {op : BinaryOp} (hop : op.leansRight = true)
    {n : Nat} {operand : Reader} (hreads : Reads leaf op.operand n operand)
    (hdeep : Refuses op.operand n operand) {below : Option Level} (hbelow : Beneath leaf n below)
    {right : Level → Reader}
    (hright : ∀ m level, Limited leaf m level → Refuses (.binary op) m (right level)) :
    Refuses (.binary op) n (rightward operand op below right) := by
  rw [rightward_eq]
  refine joined_refuses hreads hdeep _ fun left more ts rest hfront hstop hn => ?_
  cases more with
  | none => exact absurd hn (Nat.not_lt_zero n)
  | left hop' x more => exact absurd (hop.symm.trans hop') (by decide)
  | right _ x =>
    obtain ⟨t, us, rfl, ht, hx⟩ := front_cons.mp hfront
    rw [rightFrom, if_pos ht]
    refine hbelow.descend hn t fun m level hlevel hm => ?_
    exact (hright m level hlevel x us rest hx hstop hm).bind _

theorem above_limited {env : Setting} {n : Nat} {below : Option Level}
    (h : Beneath env.leaf n below) : Limited env.leaf n (above env below) := by
  have runary : Reads env.leaf (BinaryOp.operand .con) n (unary env below) := unary_reads h.lower
  have rcon : Reads env.leaf (BinaryOp.operand .dis) n _ := chain_reads rfl runary
  have rdis : Reads env.leaf (BinaryOp.operand .imp) n _ := chain_reads rfl rcon
  have rimp : Reads env.leaf (BinaryOp.operand .bic) n _ :=
    rightward_reads rfl rdis h.lower fun _ _ hlevel => hlevel.conditional
  have dunary : Refuses (BinaryOp.operand .con) n (unary env below) := unary_refuses h
  have dcon : Refuses (BinaryOp.operand .dis) n _ := chain_refuses rfl runary dunary
  have ddis : Refuses (BinaryOp.operand .imp) n _ := chain_refuses rfl rcon dcon
  have dimp : Refuses (BinaryOp.operand .bic) n _ :=
    rightward_refuses rfl rdis ddis h fun _ _ hlevel => hlevel.conditional
  exact ⟨above_conforms h.lower,
    rightward_refuses rfl rimp dimp h fun _ _ hlevel => hlevel.biconditional, dimp, dunary⟩

theorem levels_limited (env : Setting) (n : Nat) : Limited env.leaf n (levels env n) := by
  induction n with
  | zero => exact above_limited (n := 0) rfl
  | succ n ih => exact above_limited (n := n + 1) ⟨levels env n, rfl, ih⟩

/-- Words with a derivation are not the lone box. -/
theorem sentence_eq_whole {env : Setting} {ts : List Token} {d : Derivation (.binary .bic)}
    (hd : d.yield = ts.map Token.symbol) : sentence env ts = whole env ts := by
  obtain ⟨front, x, hend, hx⟩ := d.yield_ends
  rw [hend] at hd
  unfold sentence
  split
  · simp at hd
  · rename_i t
    have ht : t.symbol = x := by
      have hlast := congrArg List.getLast? hd
      simpa using hlast.symm
    rw [if_neg]
    rw [ht]
    rintro rfl
    cases hx
  · rfl

theorem whole_tooDeep {env : Setting} {ts : List Token} {d : Derivation (.binary .bic)}
    (hd : d.yield = ts.map Token.symbol) (hn : maxNesting < d.nesting) : TooDeep (whole env ts) := by
  have hfront : Front d.yield ts [] := ⟨ts, by simp, hd.symm⟩
  exact ((levels_limited env maxNesting).biconditional d ts [] hfront (stops_nil _) hn).bind _

/-! ## Derivations of another category -/

namespace Derivation

/-- Two derivations, maybe of different categories, of one sentence with the same words. -/
structure Alike {c c' : Category} (d : Derivation c) (e : Derivation c') : Prop where
  yield : e.yield = d.yield
  nesting : e.nesting = d.nesting
  sentence : ∀ leaf, e.sentence leaf = d.sentence leaf

theorem Alike.trans {c c' c'' : Category} {d : Derivation c} {e : Derivation c'} {f : Derivation c''}
    (h : d.Alike e) (h' : e.Alike f) : d.Alike f :=
  ⟨h'.yield.trans h.yield, h'.nesting.trans h.nesting, fun leaf => (h'.sentence leaf).trans (h.sentence leaf)⟩

theorem alike_alone (op : BinaryOp) (d : Derivation op.operand) : d.Alike (Derivation.joined d .none) := by
  refine ⟨?_, ?_, fun leaf => ?_⟩
  · simp [Derivation.yield, Rest.yield]
  · simp [Derivation.nesting, Rest.nesting]
  · simp [Derivation.sentence, Rest.onto]

theorem exists_operand (d : Derivation .unary) (op : BinaryOp) : ∃ e : Derivation op.operand, d.Alike e := by
  have hcon := alike_alone .con d
  have hdis := hcon.trans (alike_alone .dis _)
  have himp := hdis.trans (alike_alone .imp _)
  cases op with
  | con => exact ⟨d, rfl, rfl, fun _ => rfl⟩
  | dis => exact ⟨_, hcon⟩
  | imp => exact ⟨_, hdis⟩
  | bic => exact ⟨_, himp⟩

theorem exists_loosest {op : BinaryOp} (d : Derivation (.binary op)) :
    ∃ e : Derivation (.binary .bic), d.Alike e := by
  cases op with
  | bic => exact ⟨d, rfl, rfl, fun _ => rfl⟩
  | imp => exact ⟨_, alike_alone .bic d⟩
  | dis => exact ⟨_, (alike_alone .imp d).trans (alike_alone .bic _)⟩
  | con =>
    exact ⟨_, ((alike_alone .dis d).trans (alike_alone .imp _)).trans
      (alike_alone .bic _)⟩

theorem exists_joined (op : BinaryOp) (a b : Derivation .unary) :
    ∃ e : Derivation (.binary .bic), e.yield = a.yield ++ .binary op :: b.yield ∧
      e.nesting = max a.nesting (b.nesting + if op.leansRight then 1 else 0) ∧
      ∀ leaf, e.sentence leaf = .binary op (a.sentence leaf) (b.sentence leaf) := by
  obtain ⟨x, hx⟩ := a.exists_operand op
  obtain ⟨y, hy⟩ := b.exists_operand op
  cases hop : op.leansRight with
  | true =>
    obtain ⟨e, he⟩ := exists_loosest (.joined x (.right hop (.joined y .none)))
    refine ⟨e, ?_, ?_, fun leaf => ?_⟩
    · simp [he.yield, Derivation.yield, Rest.yield, hx.yield, hy.yield]
    · simp [he.nesting, Derivation.nesting, Rest.nesting, hx.nesting, hy.nesting]
    · simp [he.sentence, Derivation.sentence, Rest.onto, hx.sentence, hy.sentence]
  | false =>
    obtain ⟨e, he⟩ := exists_loosest (.joined x (.left hop y .none))
    refine ⟨e, ?_, ?_, fun leaf => ?_⟩
    · simp [he.yield, Derivation.yield, Rest.yield, hx.yield, hy.yield]
    · simp [he.nesting, Derivation.nesting, Rest.nesting, hx.nesting, hy.nesting]
    · simp [he.sentence, Derivation.sentence, Rest.onto, hx.sentence, hy.sentence]

end Derivation

mutual

theorem Derivation.sentence_spellable {c : Category} (d : Derivation c)
    (h : ∀ name, .atom name ∈ d.yield → IsAtomName name.toList) : (d.sentence .atom).Spellable := by
  match d with
  | .joined first rest =>
    exact rest.onto_spellable (fun name hname => h name (List.mem_append_right _ hname))
      (first.sentence_spellable fun name hname => h name (List.mem_append_left _ hname))
  | .prefixed op x => exact x.sentence_spellable fun name hname => h name (List.mem_cons_of_mem _ hname)
  | .bare x => exact x.sentence_spellable h
  | .atom name => exact h name List.mem_cons_self
  | .bottom => exact trivial
  | .bracketed b inner =>
    exact inner.sentence_spellable fun name hname =>
      h name (List.mem_cons_of_mem _ (List.mem_append_left _ hname))

theorem Rest.onto_spellable {op : BinaryOp} (rest : Rest op)
    (h : ∀ name, .atom name ∈ rest.yield → IsAtomName name.toList) {s : Sentence} (hs : s.Spellable) :
    (rest.onto .atom s).Spellable := by
  match rest with
  | .none => exact hs
  | .right _ x =>
    exact ⟨hs, x.sentence_spellable fun name hname => h name (List.mem_cons_of_mem _ hname)⟩
  | .left _ x more =>
    have hx := x.sentence_spellable fun name hname =>
      h name (List.mem_cons_of_mem _ (List.mem_append_left _ hname))
    exact more.onto_spellable
      (fun name hname => h name (List.mem_cons_of_mem _ (List.mem_append_right _ hname))) ⟨hs, hx⟩

end

end Grammar

/-! ## The rendered text -/

namespace Sentence

def brackets : Sentence → Nat
  | .binary _ _ _ => 1
  | _ => 0

/-- How deep the rendered text is nested: a prefix operator, brackets and the right side of `→` and
`↔` take a level each. -/
def renderedNesting : Sentence → Nat
  | .unary _ s => 1 + (s.brackets + s.renderedNesting)
  | .binary op l r =>
    max (l.brackets + l.renderedNesting)
      ((if op.leansRight then 1 else 0) + (r.brackets + r.renderedNesting))
  | _ => 0

open Grammar in
/-- The derivation of a sentence as it stands inside another one. -/
theorem exists_derivation {s : Sentence} (hs : s.Spellable) :
    ∃ d : Derivation .unary, d.yield = s.symbols true ∧ d.sentence .atom = s ∧
      d.nesting = s.brackets + s.renderedNesting := by
  induction s with
  | atom name => exact ⟨.bare (.atom name), rfl, rfl, rfl⟩
  | metavar name => cases hs
  | bottom => exact ⟨.bare .bottom, rfl, rfl, rfl⟩
  | marker => cases hs
  | unary op s ih =>
    obtain ⟨d, hyield, hsentence, hnesting⟩ := ih hs
    refine ⟨.prefixed op d, ?_, ?_, ?_⟩
    · simp [Derivation.yield, symbols, hyield]
    · simp [Derivation.sentence, hsentence]
    · simp only [Derivation.nesting, hnesting, brackets, renderedNesting]
      omega
  | binary op l r ihl ihr =>
    obtain ⟨a, ha, hla, hna⟩ := ihl hs.1
    obtain ⟨b, hb, hrb, hnb⟩ := ihr hs.2
    obtain ⟨e, hyield, hnesting, hsentence⟩ := Derivation.exists_joined op a b
    refine ⟨.bare (.bracketed .round e), ?_, ?_, ?_⟩
    · simp [Derivation.yield, symbols, hyield, ha, hb]
    · simp [Derivation.sentence, hsentence, hla, hrb]
    · simp only [Derivation.nesting, hnesting, hna, hnb, brackets, renderedNesting]
      omega

open Grammar in
theorem exists_derivation_alone {s : Sentence} (hs : s.Spellable) :
    ∃ d : Derivation (.binary .bic), d.yield = s.symbols false ∧ d.sentence .atom = s ∧
      d.nesting = s.renderedNesting := by
  obtain ⟨d, hyield, hsentence, hnesting⟩ := exists_derivation hs
  have hplain : s.brackets = 0 → s.symbols true = s.symbols false →
      ∃ d : Derivation (.binary .bic), d.yield = s.symbols false ∧ d.sentence .atom = s ∧
        d.nesting = s.renderedNesting := by
    intro hzero hsame
    obtain ⟨x, hx⟩ := d.exists_operand .bic
    obtain ⟨e, he⟩ := x.exists_loosest
    have hde := hx.trans he
    exact ⟨e, by rw [hde.yield, hyield, hsame], by rw [hde.sentence, hsentence],
      by rw [hde.nesting, hnesting, hzero, Nat.zero_add]⟩
  cases s with
  | binary op l r =>
    obtain ⟨a, ha, hla, hna⟩ := exists_derivation hs.1
    obtain ⟨b, hb, hrb, hnb⟩ := exists_derivation hs.2
    obtain ⟨e, hyield, hnesting, hsentence⟩ := Derivation.exists_joined op a b
    refine ⟨e, ?_, ?_, ?_⟩
    · simp [symbols, hyield, ha, hb]
    · simp [hsentence, hla, hrb]
    · simp only [hnesting, hna, hnb, renderedNesting]
      omega
  | atom name => exact hplain rfl rfl
  | metavar name => cases hs
  | bottom => exact hplain rfl rfl
  | marker => cases hs
  | unary op s => exact hplain rfl rfl

theorem read_tokens {t : Text} {ts : List Token} (h : tokens t = .ok ts) :
    read t = Grammar.sentence ⟨t.length, .atom⟩ ts := by
  simp [read, readWith, h]

/-- A sentence that was read can be spelled and is not too high. -/
theorem read_spellable {t : Text} {s : Sentence} (h : read t = .ok s) (hs : s ≠ .marker) :
    s.Spellable ∧ s.height ≤ maxNesting := by
  cases hts : tokens t with
  | error unknown => simp [read, readWith, hts] at h
  | ok ts =>
    rw [read_tokens hts] at h
    rcases Grammar.sentence_iff.mp h with ⟨e, -⟩ | h
    · exact absurd e hs
    · obtain ⟨d, hd, rfl, -, hheight⟩ := Grammar.whole_iff.mp h
      refine ⟨d.sentence_spellable fun name hname => ?_, hheight⟩
      rw [hd] at hname
      obtain ⟨tok, htok, hsymbol⟩ := List.mem_map.mp hname
      exact tokens_names hts htok hsymbol

theorem read_render_whole {s : Sentence} (hs : s.Spellable) :
    ∃ ts, ∃ d : Grammar.Derivation (.binary .bic), d.yield = ts.map Token.symbol ∧
      d.sentence .atom = s ∧ d.nesting = s.renderedNesting ∧
      read s.render = Grammar.whole ⟨(Text.ofString s.render).length, .atom⟩ ts := by
  obtain ⟨ts, hts, hsymbols⟩ := tokens_render hs
  obtain ⟨d, hd, hsentence, hnesting⟩ := exists_derivation_alone hs
  have hyield : d.yield = ts.map Token.symbol := hd.trans hsymbols.symm
  exact ⟨ts, d, hyield, hsentence, hnesting, (read_tokens hts).trans (Grammar.sentence_eq_whole hyield)⟩

end Sentence

/-- Reading the rendered text of a sentence that was read gives the sentence back as long as the
rendered text is nested no deeper than a text may be. Otherwise it is refused as too deep. -/
theorem read_render {t : Text} {s : Sentence} (h : Sentence.read t = .ok s) :
    (s.renderedNesting ≤ 64 → Sentence.read s.render = .ok s) ∧
    (64 < s.renderedNesting → ∃ e, Sentence.read s.render = .error e ∧ e.kind = .tooDeep) := by
  by_cases hs : s = .marker
  · subst hs
    refine ⟨fun _ => by decide +kernel, fun hn => ?_⟩
    exact absurd hn (Nat.not_lt_zero _)
  · obtain ⟨hspell, hheight⟩ := Sentence.read_spellable h hs
    obtain ⟨ts, d, hyield, hsentence, hnesting, hread⟩ := Sentence.read_render_whole hspell
    rw [hread, ← hnesting]
    refine ⟨fun hn => ?_, fun hn => Grammar.whole_tooDeep hyield hn⟩
    exact Grammar.whole_iff.mpr ⟨d, hyield, hsentence, hn, hheight⟩

def bracketedChain (before : List Char) (arrows : Nat) (after : List Char) : Text :=
  Text.ofChars (before ++ '[' :: (List.replicate arrows ['P', '-', '>']).flatten ++ 'P' :: ']' :: after)

/-- Two texts about the limit: both are read, and rendering nests them 64 and 65 deep. -/
theorem read_render_limit :
    (∃ s, Sentence.read (bracketedChain [] 32 ['&', 'Q']) = .ok s ∧ s.renderedNesting = 64 ∧
      Sentence.read s.render = .ok s) ∧
    (∃ s e, Sentence.read (bracketedChain ['~'] 32 []) = .ok s ∧ s.renderedNesting = 65 ∧
      Sentence.read s.render = .error e ∧ e.kind = .tooDeep) := by
  constructor
  · obtain ⟨s, hs, hn⟩ := exists_ok (x := Sentence.read (bracketedChain [] 32 ['&', 'Q']))
      (p := fun s => s.renderedNesting = 64) (by decide +kernel)
    have hn : s.renderedNesting = 64 := of_decide_eq_true hn
    exact ⟨s, hs, hn, (read_render hs).1 (by omega)⟩
  · obtain ⟨s, hs, hn⟩ := exists_ok (x := Sentence.read (bracketedChain ['~'] 32 []))
      (p := fun s => s.renderedNesting = 65) (by decide +kernel)
    have hn : s.renderedNesting = 65 := of_decide_eq_true hn
    obtain ⟨e, he, hkind⟩ := (read_render hs).2 (by omega)
    exact ⟨s, e, hs, hn, he, hkind⟩

end ModalFitch
