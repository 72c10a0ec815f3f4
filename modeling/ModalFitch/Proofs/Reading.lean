import ModalFitch.Proofs.Citing
import ModalFitch.Proofs.Grammar

/-! Sentence text is read as the grammar says.

* `Grammar.Reads`: a reader reads exactly the derivations of a category that go no deeper than a number
  of levels, up to a word that does not continue them.
* `Grammar.primary_reads`, `unary_reads`, `chain_reads`, `rightward_reads`: one reader, given those that
  it calls.
* `Grammar.levels_conforms`: the readers of every level.
* `read_iff_derivation`: which texts are sentences, which sentence each one is, and which are the
  marker. -/

namespace ModalFitch
set_option autoImplicit false

namespace Grammar

/-! ## Words and symbols -/

/-- The words of a list down to its rest mean the given symbols. -/
def Front (syms : List Symbol) (ts rest : List Token) : Prop :=
  ∃ front, ts = front ++ rest ∧ front.map Token.symbol = syms

theorem front_nil {ts rest : List Token} : Front [] ts rest ↔ ts = rest := by
  unfold Front
  constructor
  · rintro ⟨front, rfl, hnil⟩
    rw [List.map_eq_nil_iff.mp hnil]
    rfl
  · rintro rfl
    exact ⟨[], rfl, rfl⟩

theorem front_cons {x : Symbol} {syms : List Symbol} {ts rest : List Token} :
    Front (x :: syms) ts rest ↔ ∃ t us, ts = t :: us ∧ t.symbol = x ∧ Front syms us rest := by
  unfold Front
  constructor
  · rintro ⟨front, rfl, hmap⟩
    obtain ⟨t, front, rfl, rfl, htail⟩ := List.map_eq_cons_iff.mp hmap
    exact ⟨t, front ++ rest, rfl, rfl, front, rfl, htail⟩
  · rintro ⟨t, -, rfl, rfl, front, rfl, rfl⟩
    exact ⟨t :: front, rfl, rfl⟩

theorem front_append {xs ys : List Symbol} {ts rest : List Token} :
    Front (xs ++ ys) ts rest ↔ ∃ mid, Front xs ts mid ∧ Front ys mid rest := by
  unfold Front
  constructor
  · rintro ⟨front, rfl, hmap⟩
    obtain ⟨as, bs, rfl, has, hbs⟩ := List.map_eq_append_iff.mp hmap
    exact ⟨bs ++ rest, ⟨as, List.append_assoc as bs rest, has⟩, bs, rfl, hbs⟩
  · rintro ⟨-, ⟨as, rfl, rfl⟩, bs, rfl, rfl⟩
    exact ⟨as ++ bs, (List.append_assoc as bs rest).symm, List.map_append⟩

theorem Front.symbols {syms : List Symbol} {ts rest : List Token} (h : Front syms ts rest) :
    ts.map Token.symbol = syms ++ rest.map Token.symbol := by
  obtain ⟨front, rfl, rfl⟩ := h
  exact List.map_append

theorem Front.length_le {syms : List Symbol} {ts rest : List Token} (h : Front syms ts rest) :
    rest.length ≤ ts.length := by
  obtain ⟨front, rfl, -⟩ := h
  simp

/-! ## Readers -/

/-- A reader reads exactly the derivations of a category that go no deeper than a number of levels, up
to a word that does not continue them. -/
def Reads (leaf : String → Sentence) (c : Category) (n : Nat) (reader : Reader) : Prop :=
  ∀ ts s rest, reader ts = .ok (s, rest) ↔ ∃ d : Derivation c, Front d.yield ts rest ∧
    d.sentence leaf = s ∧ d.nesting ≤ n ∧ Stops c (rest.map Token.symbol)

/-- The readers of a level with so many levels below it. -/
structure Conforms (leaf : String → Sentence) (n : Nat) (level : Level) : Prop where
  biconditional : Reads leaf (.binary .bic) n level.biconditional
  conditional : Reads leaf (.binary .imp) n level.conditional
  unary : Reads leaf .unary n level.unary

/-- What stands below a level with so many levels below it. -/
def Lower (leaf : String → Sentence) : Nat → Option Level → Prop
  | 0, below => below = none
  | n + 1, below => ∃ level, below = some level ∧ Conforms leaf n level

theorem descend_ok {below : Option Level} {t : Token} {level : Level} :
    descend below t = .ok level ↔ below = some level := by
  cases below <;> simp [descend]

theorem close_ok {opening : Token} {b : Bracket} {ts rest : List Token} :
    close opening b ts = .ok rest ↔ Front [.closing b] ts rest := by
  rw [front_cons]
  simp only [front_nil]
  cases ts with
  | nil => simp [close]
  | cons t ts =>
    unfold close
    cases ht : t.symbol with
    | closing b' =>
      by_cases hb : b = b'
      · simp [ht, hb]
      · simp [ht, hb, Ne.symm hb]
    | _ => simp [ht]

theorem Lower.descends {leaf : String → Sentence} {n : Nat} {below : Option Level}
    (h : Lower leaf n below) {level : Level} (hlevel : below = some level) :
    ∃ m, n = m + 1 ∧ Conforms leaf m level := by
  cases n with
  | zero =>
    rw [show below = none from h] at hlevel
    cases hlevel
  | succ m =>
    obtain ⟨level', rfl, hconf⟩ := h
    cases hlevel
    exact ⟨m, rfl, hconf⟩

theorem Lower.reaches {leaf : String → Sentence} {n m : Nat} {below : Option Level}
    (h : Lower leaf n below) (hm : m + 1 ≤ n) :
    ∃ k level, below = some level ∧ Conforms leaf k level ∧ m ≤ k := by
  cases n with
  | zero => omega
  | succ k =>
    obtain ⟨level, hlevel, hconf⟩ := h
    exact ⟨k, level, hlevel, hconf, by omega⟩

theorem primary_reads {env : Setting} {n : Nat} {below : Option Level}
    (h : Lower env.leaf n below) : Reads env.leaf .primary n (primary env below) := by
  intro ts s rest
  constructor
  · intro hread
    cases ts with
    | nil => cases hread
    | cons t ts =>
      cases ht : t.symbol with
      | atom name =>
        simp only [primary, ht] at hread
        cases hread
        exact ⟨.atom name, front_cons.mpr ⟨t, rest, rfl, ht, front_nil.mpr rfl⟩, rfl, Nat.zero_le n,
          stops_primary _⟩
      | bottom =>
        simp only [primary, ht] at hread
        cases hread
        exact ⟨.bottom, front_cons.mpr ⟨t, rest, rfl, ht, front_nil.mpr rfl⟩, rfl, Nat.zero_le n,
          stops_primary _⟩
      | opening b =>
        simp only [primary, ht] at hread
        obtain ⟨level, hlevel, hread⟩ := bind_ok.mp hread
        obtain ⟨⟨inner, mid⟩, hinner, hread⟩ := bind_ok.mp hread
        obtain ⟨after, hclose, hread⟩ := bind_ok.mp hread
        cases hread
        obtain ⟨m, rfl, hconf⟩ := h.descends (descend_ok.mp hlevel)
        obtain ⟨d, hd, rfl, hm, -⟩ := (hconf.biconditional ts inner mid).mp hinner
        refine ⟨.bracketed b d, front_cons.mpr ⟨t, ts, rfl, ht, ?_⟩, rfl, Nat.succ_le_succ hm,
          stops_primary _⟩
        exact front_append.mpr ⟨mid, hd, close_ok.mp hclose⟩
      | closing b => simp [primary, ht] at hread
      | unary op => simp [primary, ht] at hread
      | binary op => simp [primary, ht] at hread
  · rintro ⟨d, hfront, rfl, hn, -⟩
    cases d with
    | atom name =>
      obtain ⟨t, ts, rfl, ht, hrest⟩ := front_cons.mp hfront
      rw [front_nil.mp hrest]
      simp [primary, ht, Derivation.sentence]
    | bottom =>
      obtain ⟨t, ts, rfl, ht, hrest⟩ := front_cons.mp hfront
      rw [front_nil.mp hrest]
      simp [primary, ht, Derivation.sentence]
    | bracketed b inner =>
      obtain ⟨t, ts, rfl, ht, hrest⟩ := front_cons.mp hfront
      obtain ⟨mid, hinner, hclose⟩ := front_append.mp hrest
      obtain ⟨m, level, hlevel, hconf, hm⟩ := h.reaches hn
      have hstop : Stops (.binary .bic) (mid.map Token.symbol) := by
        rw [hclose.symbols]
        exact stops_closing _ b _
      have hread := (hconf.biconditional ts _ mid).mpr ⟨inner, hinner, rfl, hm, hstop⟩
      unfold primary
      simp only [ht]
      exact bind_ok.mpr ⟨level, descend_ok.mpr hlevel, bind_ok.mpr ⟨_, hread,
        bind_ok.mpr ⟨_, close_ok.mpr hclose, rfl⟩⟩⟩

theorem unary_reads {env : Setting} {n : Nat} {below : Option Level}
    (h : Lower env.leaf n below) : Reads env.leaf .unary n (unary env below) := by
  have hprimary := primary_reads h
  intro ts s rest
  constructor
  · intro hread
    unfold unary at hread
    split at hread
    · cases hread
    · rename_i t ts
      split at hread
      · rename_i op ht
        obtain ⟨level, hlevel, hread⟩ := bind_ok.mp hread
        obtain ⟨⟨inner, mid⟩, hinner, hread⟩ := bind_ok.mp hread
        cases hread
        obtain ⟨m, rfl, hconf⟩ := h.descends (descend_ok.mp hlevel)
        obtain ⟨d, hd, rfl, hm, hstop⟩ := (hconf.unary ts inner rest).mp hinner
        exact ⟨.prefixed op d, front_cons.mpr ⟨t, ts, rfl, ht, hd⟩, rfl, Nat.succ_le_succ hm, hstop⟩
      · obtain ⟨d, hd, hs, hn, -⟩ := (hprimary _ s rest).mp hread
        exact ⟨.bare d, hd, hs, hn, stops_unary _⟩
  · rintro ⟨d, hfront, rfl, hn, hstop⟩
    cases d with
    | prefixed op x =>
      obtain ⟨t, ts, rfl, ht, hx⟩ := front_cons.mp hfront
      obtain ⟨m, level, hlevel, hconf, hm⟩ := h.reaches hn
      have hread := (hconf.unary ts _ rest).mpr ⟨x, hx, rfl, hm, hstop⟩
      unfold unary
      simp only [ht]
      exact bind_ok.mpr ⟨level, descend_ok.mpr hlevel, bind_ok.mpr ⟨_, hread, rfl⟩⟩
    | bare x =>
      have hread := (hprimary ts _ rest).mpr ⟨x, hfront, rfl, hn, stops_primary _⟩
      cases ts with
      | nil => exact hread
      | cons t ts =>
        unfold unary
        dsimp only
        split
        · -- a primary sentence does not start with a prefix operator
          rename_i op ht
          have hhead := congrArg List.head? hfront.symbols
          rw [List.map_cons, List.head?_cons, ht] at hhead
          exact absurd hhead.symm (x.primary_head op _)
        · exact hread

/-! ## Operands and connectives -/

/-- What a reader does after the first operand of a connective: it reads exactly what can follow it. -/
def Continues (leaf : String → Sentence) (op : BinaryOp) (n : Nat)
    (reader : Sentence → List Token → Except ParseError (Sentence × List Token)) : Prop :=
  ∀ left ts s rest, Stops op.operand (ts.map Token.symbol) → (reader left ts = .ok (s, rest) ↔
    ∃ more : Rest op, Front more.yield ts rest ∧ more.onto leaf left = s ∧ more.nesting ≤ n ∧
      Stops (.binary op) (rest.map Token.symbol))

theorem Front.stops {op : BinaryOp} {more : Rest op} {ts rest : List Token}
    (h : Front more.yield ts rest) (hend : Stops (.binary op) (rest.map Token.symbol)) :
    Stops op.operand (ts.map Token.symbol) := by
  rw [h.symbols]
  exact more.stops hend

theorem joined_reads {leaf : String → Sentence} {op : BinaryOp} {n : Nat} {operand : Reader}
    (h : Reads leaf op.operand n operand)
    (reader : Sentence → List Token → Except ParseError (Sentence × List Token))
    (hmore : Continues leaf op n reader) :
    Reads leaf (.binary op) n fun ts => operand ts >>= fun p => reader p.1 p.2 := by
  intro ts s rest
  constructor
  · intro hread
    obtain ⟨⟨left, mid⟩, hleft, hread⟩ := bind_ok.mp hread
    obtain ⟨d, hd, rfl, hn, hmid⟩ := (h ts left mid).mp hleft
    obtain ⟨more, hfront, rfl, hn', hstop⟩ := (hmore _ mid s rest hmid).mp hread
    exact ⟨.joined d more, front_append.mpr ⟨mid, hd, hfront⟩, rfl, Nat.max_le.mpr ⟨hn, hn'⟩, hstop⟩
  · rintro ⟨d, hfront, rfl, hn, hstop⟩
    cases d with
    | joined first more =>
      obtain ⟨mid, hfirst, hfront⟩ := front_append.mp hfront
      obtain ⟨hn, hn'⟩ := Nat.max_le.mp hn
      have hmid := hfront.stops hstop
      exact bind_ok.mpr ⟨(first.sentence leaf, mid), (h ts _ mid).mpr ⟨first, hfirst, rfl, hn, hmid⟩,
        (hmore _ mid _ rest hmid).mpr ⟨more, hfront, rfl, hn', hstop⟩⟩

/-- Nothing can follow where the next word is not the connective. -/
theorem rest_iff {leaf : String → Sentence} {op : BinaryOp} {n : Nat} {left s : Sentence}
    {ts rest : List Token} (hstop : Stops op.operand (ts.map Token.symbol))
    (hne : (ts.map Token.symbol).head? ≠ some (.binary op)) :
    (left, ts) = (s, rest) ↔ ∃ more : Rest op, Front more.yield ts rest ∧ more.onto leaf left = s ∧
      more.nesting ≤ n ∧ Stops (.binary op) (rest.map Token.symbol) := by
  constructor
  · rintro ⟨rfl, rfl⟩
    exact ⟨.none, front_nil.mpr rfl, rfl, Nat.zero_le n, stops_binary_iff.mpr ⟨hstop, hne⟩⟩
  · rintro ⟨more, hfront, rfl, -, -⟩
    rw [hfront.symbols] at hne
    cases more with
    | none =>
      rw [front_nil.mp hfront]
      rfl
    | right _ x => exact absurd rfl hne
    | left _ x more => exact absurd rfl hne

theorem chainFrom_continues {leaf : String → Sentence} {op : BinaryOp} (hop : op.leansRight = false)
    {n : Nat} {operand : Reader} (h : Reads leaf op.operand n operand) {bound : Nat}
    {left s : Sentence} {ts rest : List Token} (hbound : ts.length ≤ bound)
    (hstop : Stops op.operand (ts.map Token.symbol)) :
    chainFrom operand op bound left ts = .ok (s, rest) ↔ ∃ more : Rest op,
      Front more.yield ts rest ∧ more.onto leaf left = s ∧ more.nesting ≤ n ∧
        Stops (.binary op) (rest.map Token.symbol) := by
  induction bound generalizing left ts with
  | zero =>
    rw [List.length_eq_zero_iff.mp (Nat.le_zero.mp hbound)] at hstop ⊢
    rw [← rest_iff hstop (by simp), chainFrom, Except.ok.injEq]
  | succ bound ih =>
    cases ts with
    | nil => rw [← rest_iff hstop (by simp), chainFrom, Except.ok.injEq]
    | cons t ts =>
      rw [chainFrom]
      split
      · rename_i ht
        constructor
        · intro hread
          obtain ⟨⟨right, mid⟩, hright, hread⟩ := bind_ok.mp hread
          obtain ⟨d, hd, rfl, hn, hmid⟩ := (h ts right mid).mp hright
          have hlen := hd.length_le
          have hlt : ts.length < bound + 1 := hbound
          obtain ⟨more, hfront, rfl, hn', hend⟩ := (ih (by omega) hmid).mp hread
          exact ⟨.left hop d more, front_cons.mpr ⟨t, ts, rfl, ht, front_append.mpr ⟨mid, hd, hfront⟩⟩,
            rfl, Nat.max_le.mpr ⟨hn, hn'⟩, hend⟩
        · rintro ⟨more, hfront, rfl, hn, hend⟩
          cases more with
          | none =>
            rw [← front_nil.mp hfront] at hend
            exact absurd (by simp [ht]) (stops_binary_iff.mp hend).2
          | right hop' x => exact absurd (hop.symm.trans hop') (by decide)
          | left _ x more =>
            obtain ⟨t', us, htail, -, hfront⟩ := front_cons.mp hfront
            cases htail
            obtain ⟨mid, hx, hfront⟩ := front_append.mp hfront
            obtain ⟨hn, hn'⟩ := Nat.max_le.mp hn
            have hmid := hfront.stops hend
            have hlen := hx.length_le
            have hlt : ts.length < bound + 1 := hbound
            exact bind_ok.mpr ⟨_, (h ts _ mid).mpr ⟨x, hx, rfl, hn, hmid⟩,
              (ih (by omega) hmid).mpr ⟨more, hfront, rfl, hn', hend⟩⟩
      · rename_i ht
        rw [← rest_iff hstop (by simpa using ht), Except.ok.injEq]

theorem chain_reads {leaf : String → Sentence} {op : BinaryOp} (hop : op.leansRight = false)
    {n : Nat} {operand : Reader} (h : Reads leaf op.operand n operand) :
    Reads leaf (.binary op) n (chain operand op) :=
  joined_reads h (fun left ts => chainFrom operand op ts.length left ts)
    fun _ _ _ _ hstop => chainFrom_continues hop h (Nat.le_refl _) hstop

/-- What `rightward` does after its left operand. -/
def rightFrom (op : BinaryOp) (below : Option Level) (right : Level → Reader) (left : Sentence) :
    Reader
  | [] => .ok (left, [])
  | t :: ts =>
    if t.symbol = .binary op then do
      let level ← descend below t
      let (r, rest) ← right level ts
      .ok (.binary op left r, rest)
    else .ok (left, t :: ts)

theorem rightward_eq (operand : Reader) (op : BinaryOp) (below : Option Level)
    (right : Level → Reader) : rightward operand op below right =
      fun ts => operand ts >>= fun p => rightFrom op below right p.1 p.2 := by
  funext ts
  unfold rightward
  congr 1
  funext ⟨left, rest⟩
  cases rest <;> rfl

theorem rightFrom_continues {leaf : String → Sentence} {op : BinaryOp} (hop : op.leansRight = true)
    {n : Nat} {below : Option Level} (h : Lower leaf n below) {right : Level → Reader}
    (hright : ∀ m level, Conforms leaf m level → Reads leaf (.binary op) m (right level)) :
    Continues leaf op n (rightFrom op below right) := by
  intro left ts s rest hstop
  cases ts with
  | nil => rw [← rest_iff hstop (by simp), rightFrom, Except.ok.injEq]
  | cons t ts =>
    rw [rightFrom]
    split
    · rename_i ht
      constructor
      · intro hread
        obtain ⟨level, hlevel, hread⟩ := bind_ok.mp hread
        obtain ⟨⟨r, mid⟩, hr, hread⟩ := bind_ok.mp hread
        cases hread
        obtain ⟨m, rfl, hconf⟩ := h.descends (descend_ok.mp hlevel)
        obtain ⟨d, hd, rfl, hm, hend⟩ := (hright m level hconf ts r rest).mp hr
        exact ⟨.right hop d, front_cons.mpr ⟨t, ts, rfl, ht, hd⟩, rfl, Nat.succ_le_succ hm, hend⟩
      · rintro ⟨more, hfront, rfl, hn, hend⟩
        cases more with
        | none =>
          rw [← front_nil.mp hfront] at hend
          exact absurd (by simp [ht]) (stops_binary_iff.mp hend).2
        | left hop' x more => exact absurd (hop.symm.trans hop') (by decide)
        | right _ x =>
          obtain ⟨t', us, htail, -, hx⟩ := front_cons.mp hfront
          cases htail
          obtain ⟨m, level, hlevel, hconf, hm⟩ := h.reaches hn
          exact bind_ok.mpr ⟨level, descend_ok.mpr hlevel, bind_ok.mpr ⟨_,
            (hright m level hconf ts _ rest).mpr ⟨x, hx, rfl, hm, hend⟩, rfl⟩⟩
    · rename_i ht
      rw [← rest_iff hstop (by simpa using ht), Except.ok.injEq]

theorem rightward_reads {leaf : String → Sentence} {op : BinaryOp} (hop : op.leansRight = true)
    {n : Nat} {operand : Reader} (h : Reads leaf op.operand n operand) {below : Option Level}
    (hbelow : Lower leaf n below) {right : Level → Reader}
    (hright : ∀ m level, Conforms leaf m level → Reads leaf (.binary op) m (right level)) :
    Reads leaf (.binary op) n (rightward operand op below right) := by
  rw [rightward_eq]
  exact joined_reads h _ (rightFrom_continues hop hbelow hright)

/-! ## Levels -/

theorem above_conforms {env : Setting} {n : Nat} {below : Option Level}
    (h : Lower env.leaf n below) : Conforms env.leaf n (above env below) := by
  have hunary : Reads env.leaf (BinaryOp.operand .con) n (unary env below) := unary_reads h
  have hcon : Reads env.leaf (BinaryOp.operand .dis) n _ := chain_reads rfl hunary
  have hdis : Reads env.leaf (BinaryOp.operand .imp) n _ := chain_reads rfl hcon
  have himp : Reads env.leaf (BinaryOp.operand .bic) n _ :=
    rightward_reads rfl hdis h fun _ _ hlevel => hlevel.conditional
  exact ⟨rightward_reads rfl himp h fun _ _ hlevel => hlevel.biconditional, himp, hunary⟩

theorem levels_conforms (env : Setting) (n : Nat) : Conforms env.leaf n (levels env n) := by
  induction n with
  | zero => exact above_conforms (n := 0) rfl
  | succ n ih => exact above_conforms (n := n + 1) ⟨levels env n, rfl, ih⟩

theorem whole_iff {env : Setting} {ts : List Token} {s : Sentence} :
    whole env ts = .ok s ↔ ∃ d : Derivation (.binary .bic), d.yield = ts.map Token.symbol ∧
      d.sentence env.leaf = s ∧ d.nesting ≤ maxNesting ∧ s.height ≤ maxNesting := by
  have hreads := (levels_conforms env maxNesting).biconditional
  constructor
  · intro hread
    obtain ⟨⟨s', rest⟩, hs, hread⟩ := bind_ok.mp hread
    obtain ⟨d, hd, rfl, hn, -⟩ := (hreads ts s' rest).mp hs
    cases rest with
    | cons t rest =>
      dsimp only at hread
      split at hread
      · cases hread
      · cases hread
    | nil =>
      dsimp only at hread
      split at hread
      · cases hread
      · rename_i hheight
        cases hread
        exact ⟨d, by simpa using hd.symbols.symm, rfl, hn, Nat.le_of_not_lt hheight⟩
  · rintro ⟨d, hd, rfl, hn, hheight⟩
    have hfront : Front d.yield ts [] := ⟨ts, by simp, hd.symm⟩
    have hread := (hreads ts _ []).mpr ⟨d, hfront, rfl, hn, stops_nil _⟩
    exact bind_ok.mpr ⟨_, hread, if_neg (Nat.not_lt.mpr hheight)⟩

/-- No derivation writes nothing, or a lone prefix operator. -/
theorem whole_words {env : Setting} {ts : List Token} {s : Sentence} (h : whole env ts = .ok s) :
    ts ≠ [] ∧ ∀ t op, ts = [t] → t.symbol ≠ .unary op := by
  obtain ⟨d, hd, -⟩ := whole_iff.mp h
  obtain ⟨front, x, hyield, hx⟩ := d.yield_ends
  rw [hyield] at hd
  refine ⟨?_, ?_⟩
  · rintro rfl
    simp at hd
  · rintro t op rfl ht
    have hlast := congrArg List.getLast? hd
    simp only [List.getLast?_concat, List.map_cons, List.map_nil, List.getLast?_singleton, ht,
      Option.some.injEq] at hlast
    rw [hlast] at hx
    cases hx

theorem sentence_iff {env : Setting} {ts : List Token} {s : Sentence} :
    sentence env ts = .ok s ↔
      (s = .marker ∧ ∃ t, ts = [t] ∧ t.symbol = .unary .nec) ∨ whole env ts = .ok s := by
  unfold sentence
  split
  · constructor
    · intro h
      cases h
    · rintro (⟨-, t, ht, -⟩ | h)
      · cases ht
      · exact absurd rfl (whole_words h).1
  · rename_i t
    split
    · rename_i ht
      constructor
      · intro h
        cases h
        exact .inl ⟨rfl, t, rfl, ht⟩
      · rintro (⟨rfl, -⟩ | h)
        · rfl
        · exact absurd ht ((whole_words h).2 t .nec rfl)
    · rename_i ht
      refine ⟨.inr, ?_⟩
      rintro (⟨-, t', ht', hbox⟩ | h)
      · cases ht'
        exact absurd hbox ht
      · exact h
  · rename_i hone
    refine ⟨.inr, ?_⟩
    rintro (⟨-, t, rfl, -⟩ | h)
    · exact absurd rfl (hone t)
    · exact h

end Grammar

/-- Which texts are sentences. A text is read as a sentence other than the marker exactly if its words
have a derivation of that sentence that stays within the limits on nesting and height, and there is no
other derivation of them. It is read as the marker exactly if its one word is a box. -/
theorem read_iff_derivation (text : Text) :
    (∀ s, s ≠ .marker → (Sentence.read text = .ok s ↔ ∃ ts, tokens text = .ok ts ∧
      ∃ d : Grammar.Derivation (.binary .bic), d.yield = ts.map Token.symbol ∧
        d.sentence .atom = s ∧ d.nesting ≤ 64 ∧ s.height ≤ 64 ∧
        ∀ d' : Grammar.Derivation (.binary .bic), d'.yield = ts.map Token.symbol → d' = d)) ∧
    (Sentence.read text = .ok .marker ↔
      ∃ t, tokens text = .ok [t] ∧ t.symbol = .unary .nec) := by
  have hread : ∀ s, Sentence.read text = .ok s ↔ ∃ ts, tokens text = .ok ts ∧
      Grammar.sentence ⟨text.length, .atom⟩ ts = .ok s := by
    intro s
    unfold Sentence.read Sentence.readWith
    cases tokens text with
    | error unknown => simp
    | ok ts => simp
  constructor
  · intro s hs
    rw [hread]
    refine exists_congr fun ts => and_congr_right fun _ => ?_
    rw [Grammar.sentence_iff, or_iff_right fun h => hs h.1, Grammar.whole_iff]
    refine exists_congr fun d => ⟨?_, ?_⟩
    · rintro ⟨hd, hsentence, hn, hheight⟩
      refine ⟨hd, hsentence, hn, hheight, fun d' hd' => ?_⟩
      exact Grammar.Derivation.yield_injective (hd'.trans hd.symm)
    · rintro ⟨hd, hsentence, hn, hheight, -⟩
      exact ⟨hd, hsentence, hn, hheight⟩
  · rw [hread]
    constructor
    · rintro ⟨ts, hts, h⟩
      rcases Grammar.sentence_iff.mp h with ⟨-, t, rfl, ht⟩ | h
      · exact ⟨t, hts, ht⟩
      · -- no derivation stands for the marker
        obtain ⟨d, -, hd, -⟩ := Grammar.whole_iff.mp h
        exact absurd hd (d.sentence_ne_marker fun name e => by cases e)
    · rintro ⟨t, hts, ht⟩
      exact ⟨[t], hts, Grammar.sentence_iff.mpr (.inl ⟨rfl, t, rfl, ht⟩)⟩

example : Sentence.read "P → Q ∨ ¬R ∨ P → ⊥" = .ok (.imp (.atom "P")
    (.imp (.dis (.dis (.atom "Q") (.neg (.atom "R"))) (.atom "P")) .bottom)) := by decide +kernel

end ModalFitch
