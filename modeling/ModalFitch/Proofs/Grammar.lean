import ModalFitch.Sentence.Reading

/-! The grammar of sentences as derivation trees, and that it is unambiguous.

    bic     := imp ( ↔ bic )?
    imp     := dis ( → imp )?
    dis     := con ( ∨ con )*
    con     := unary ( ∧ unary )*
    unary   := ( ¬ | □ | ◇ ) unary | primary
    primary := atom | ⊥ | ( bic )

* `Derivation`: the derivation trees of a category, with the symbols that they write (`yield`), the
  sentence that they stand for (`sentence`) and how deep they go (`nesting`).
* `Stops`: symbols that do not continue a sentence of a category.
* `Derivation.unique`: among symbols that go on in such a way, a derivation and its end are fixed. -/

namespace ModalFitch
set_option autoImplicit false

namespace Grammar

/-- The categories: one for each connective, the unary sentences and the primary ones. -/
inductive Category where
  | binary (op : BinaryOp)
  | unary
  | primary
deriving DecidableEq, Repr

end Grammar

open Grammar

/-- The category of the next tighter sentences, which a connective joins. -/
def BinaryOp.operand : BinaryOp → Category
  | .bic => .binary .imp
  | .imp => .binary .dis
  | .dis => .binary .con
  | .con => .unary

def BinaryOp.leansRight : BinaryOp → Bool
  | .bic | .imp => true
  | .dis | .con => false

namespace Grammar

mutual

/-- The derivations of a category. -/
inductive Derivation : Category → Type where
  | joined {op : BinaryOp} (first : Derivation op.operand) (rest : Rest op) : Derivation (.binary op)
  | prefixed (op : UnaryOp) (x : Derivation .unary) : Derivation .unary
  | bare (x : Derivation .primary) : Derivation .unary
  | atom (name : String) : Derivation .primary
  | bottom : Derivation .primary
  | bracketed (b : Bracket) (inner : Derivation (.binary .bic)) : Derivation .primary

/-- What follows the first operand of a connective: nothing; one sentence of the same category, where
the connective leans to the right; or further operands, where it leans to the left. -/
inductive Rest : BinaryOp → Type where
  | none {op : BinaryOp} : Rest op
  | right {op : BinaryOp} (h : op.leansRight = true) (x : Derivation (.binary op)) : Rest op
  | left {op : BinaryOp} (h : op.leansRight = false) (x : Derivation op.operand) (more : Rest op) :
      Rest op

end

mutual

/-- The symbols that a derivation writes. -/
def Derivation.yield : {c : Category} → Derivation c → List Symbol
  | _, .joined first rest => first.yield ++ rest.yield
  | _, .prefixed op x => .unary op :: x.yield
  | _, .bare x => x.yield
  | _, .atom name => [.atom name]
  | _, .bottom => [.bottom]
  | _, .bracketed b inner => .opening b :: (inner.yield ++ [.closing b])

def Rest.yield : {op : BinaryOp} → Rest op → List Symbol
  | _, .none => []
  | op, .right _ x => .binary op :: x.yield
  | op, .left _ x more => .binary op :: (x.yield ++ more.yield)

end

mutual

/-- The sentence that a derivation stands for. -/
def Derivation.sentence (leaf : String → Sentence) : {c : Category} → Derivation c → Sentence
  | _, .joined first rest => rest.onto leaf (first.sentence leaf)
  | _, .prefixed op x => .unary op (x.sentence leaf)
  | _, .bare x => x.sentence leaf
  | _, .atom name => leaf name
  | _, .bottom => .bottom
  | _, .bracketed _ inner => inner.sentence leaf

/-- What follows joined to the sentence on its left. -/
def Rest.onto (leaf : String → Sentence) : {op : BinaryOp} → Rest op → Sentence → Sentence
  | _, .none, s => s
  | op, .right _ x, s => .binary op s (x.sentence leaf)
  | op, .left _ x more, s => more.onto leaf (.binary op s (x.sentence leaf))

end

mutual

/-- The greatest number of prefix operators, right sides of `→` and `↔`, and brackets that some point
of a derivation lies under. -/
def Derivation.nesting : {c : Category} → Derivation c → Nat
  | _, .joined first rest => max first.nesting rest.nesting
  | _, .prefixed _ x => x.nesting + 1
  | _, .bare x => x.nesting
  | _, .atom _ => 0
  | _, .bottom => 0
  | _, .bracketed _ inner => inner.nesting + 1

def Rest.nesting : {op : BinaryOp} → Rest op → Nat
  | _, .none => 0
  | _, .right _ x => x.nesting + 1
  | _, .left _ x more => max x.nesting more.nesting

end

/-! ## Where a sentence stops -/

/-- The connectives from the loosest to the tightest. -/
def rank : BinaryOp → Nat
  | .bic => 0
  | .imp => 1
  | .dis => 2
  | .con => 3

/-- A connective continues a sentence of a category: it is the category's own or a tighter one. -/
def Category.continues : Category → BinaryOp → Bool
  | .binary op, op' => rank op ≤ rank op'
  | .unary, _ => false
  | .primary, _ => false

/-- Symbols that do not continue a sentence of a category. -/
def Stops (c : Category) (syms : List Symbol) : Prop :=
  ∀ op, syms.head? = some (.binary op) → c.continues op = false

theorem continues_binary (op op' : BinaryOp) :
    (Category.binary op).continues op' = false ↔ op.operand.continues op' = false ∧ op' ≠ op := by
  cases op <;> cases op' <;> decide

theorem stops_binary_iff {op : BinaryOp} {syms : List Symbol} :
    Stops (.binary op) syms ↔ Stops op.operand syms ∧ syms.head? ≠ some (.binary op) := by
  unfold Stops
  constructor
  · intro h
    refine ⟨fun op' e => ((continues_binary op op').mp (h op' e)).1, fun e => ?_⟩
    exact ((continues_binary op op).mp (h op e)).2 rfl
  · rintro ⟨hop, hne⟩ op' e
    refine (continues_binary op op').mpr ⟨hop op' e, ?_⟩
    rintro rfl
    exact hne e

theorem stops_nil (c : Category) : Stops c [] := by
  intro op h
  cases h

/-- An operand ends before the connective that joins it. -/
theorem stops_own (op : BinaryOp) (syms : List Symbol) : Stops op.operand (.binary op :: syms) := by
  intro op' h
  cases h
  cases op <;> rfl

theorem stops_closing (c : Category) (b : Bracket) (syms : List Symbol) :
    Stops c (.closing b :: syms) := by
  intro op h
  cases h

theorem stops_unary (syms : List Symbol) : Stops .unary syms := fun _ _ => rfl

theorem stops_primary (syms : List Symbol) : Stops .primary syms := fun _ _ => rfl

/-- An operand ends before what follows it. -/
theorem Rest.stops {op : BinaryOp} (rest : Rest op) {syms : List Symbol}
    (h : Stops (.binary op) syms) : Stops op.operand (rest.yield ++ syms) := by
  cases rest with
  | none => exact (stops_binary_iff.mp h).1
  | right _ x => exact stops_own op _
  | left _ x more => exact stops_own op _

/-! ## Unambiguity -/

theorem Derivation.primary_head (d : Derivation .primary) (op : UnaryOp) (syms : List Symbol) :
    (d.yield ++ syms).head? ≠ some (.unary op) := by
  cases d <;> simp [Derivation.yield]

theorem Rest.eq_none_of_stops {op : BinaryOp} {rest : Rest op} {r r' : List Symbol}
    (h : rest.yield ++ r = r') (hr' : Stops (.binary op) r') : rest = .none := by
  have hne := (stops_binary_iff.mp hr').2
  rw [← h] at hne
  cases rest with
  | none => rfl
  | right _ x => exact absurd rfl hne
  | left _ x more => exact absurd rfl hne

mutual

/-- Among symbols that go on without continuing the category, a derivation and its end are fixed. -/
theorem Derivation.unique {c : Category} (d d' : Derivation c) {r r' : List Symbol}
    (h : d.yield ++ r = d'.yield ++ r') (hr : Stops c r) (hr' : Stops c r') : d = d' ∧ r = r' := by
  match d, d' with
  | .joined first rest, .joined first' rest' =>
    simp only [Derivation.yield, List.append_assoc] at h
    obtain ⟨rfl, hrest⟩ := first.unique first' h (rest.stops hr) (rest'.stops hr')
    obtain ⟨rfl, rfl⟩ := rest.unique rest' hrest hr hr'
    exact ⟨rfl, rfl⟩
  | .prefixed op x, .prefixed op' x' =>
    simp only [Derivation.yield, List.cons_append, List.cons.injEq, Symbol.unary.injEq] at h
    obtain ⟨rfl, h⟩ := h
    obtain ⟨rfl, rfl⟩ := x.unique x' h hr hr'
    exact ⟨rfl, rfl⟩
  | .prefixed op x, .bare x' => exact absurd (congrArg List.head? h).symm (x'.primary_head op r')
  | .bare x, .prefixed op x' => exact absurd (congrArg List.head? h) (x.primary_head op r)
  | .bare x, .bare x' =>
    obtain ⟨rfl, rfl⟩ := x.unique x' h (stops_primary r) (stops_primary r')
    exact ⟨rfl, rfl⟩
  | .atom name, d' => cases d' <;> simp_all [Derivation.yield]
  | .bottom, d' => cases d' <;> simp_all [Derivation.yield]
  | .bracketed b inner, .bracketed b' inner' =>
    simp only [Derivation.yield, List.cons_append, List.append_assoc, List.nil_append,
      List.cons.injEq, Symbol.opening.injEq] at h
    obtain ⟨rfl, h⟩ := h
    obtain ⟨rfl, hrest⟩ := inner.unique inner' h (stops_closing _ b r) (stops_closing _ b r')
    exact ⟨rfl, List.tail_eq_of_cons_eq hrest⟩
  | .bracketed b inner, .atom name => simp [Derivation.yield] at h
  | .bracketed b inner, .bottom => simp [Derivation.yield] at h

theorem Rest.unique {op : BinaryOp} (rest rest' : Rest op) {r r' : List Symbol}
    (h : rest.yield ++ r = rest'.yield ++ r') (hr : Stops (.binary op) r)
    (hr' : Stops (.binary op) r') : rest = rest' ∧ r = r' := by
  match rest, rest' with
  | .none, rest' =>
    obtain rfl := Rest.eq_none_of_stops h.symm hr
    exact ⟨rfl, h⟩
  | rest, .none =>
    obtain rfl := Rest.eq_none_of_stops h hr'
    exact ⟨rfl, h⟩
  | .right _ x, .right _ x' =>
    obtain ⟨rfl, rfl⟩ := x.unique x' (List.tail_eq_of_cons_eq h) hr hr'
    exact ⟨rfl, rfl⟩
  | .left _ x more, .left _ x' more' =>
    simp only [Rest.yield, List.cons_append, List.append_assoc, List.cons.injEq, true_and] at h
    obtain ⟨rfl, hmore⟩ := x.unique x' h (more.stops hr) (more'.stops hr')
    obtain ⟨rfl, rfl⟩ := more.unique more' hmore hr hr'
    exact ⟨rfl, rfl⟩
  | .right hop _, .left hop' _ _ => exact absurd (hop.symm.trans hop') (by decide)
  | .left hop' _ _, .right hop _ => exact absurd (hop.symm.trans hop') (by decide)

end

theorem Derivation.yield_injective {c : Category} {d d' : Derivation c} (h : d.yield = d'.yield) :
    d = d' :=
  (d.unique d' (congrArg (· ++ []) h) (stops_nil c) (stops_nil c)).1

/-! ## Ends and sentences -/

/-- A symbol that a sentence can end with. -/
def ending : Symbol → Bool
  | .atom _ | .bottom | .closing _ => true
  | .unary _ | .binary _ | .opening _ => false

mutual

theorem Derivation.yield_ends {c : Category} (d : Derivation c) :
    ∃ front x, d.yield = front ++ [x] ∧ ending x = true := by
  match d with
  | .joined first rest =>
    obtain ⟨front, x, hfirst, hx⟩ := first.yield_ends
    rcases rest.yield_ends with hrest | ⟨front', x', hrest, hx'⟩
    · exact ⟨front, x, by simp [Derivation.yield, hrest, hfirst], hx⟩
    · exact ⟨first.yield ++ front', x', by simp [Derivation.yield, hrest], hx'⟩
  | .prefixed op y =>
    obtain ⟨front, x, hy, hx⟩ := y.yield_ends
    exact ⟨.unary op :: front, x, by simp [Derivation.yield, hy], hx⟩
  | .bare y => exact y.yield_ends
  | .atom name => exact ⟨[], .atom name, rfl, rfl⟩
  | .bottom => exact ⟨[], .bottom, rfl, rfl⟩
  | .bracketed b inner => exact ⟨.opening b :: inner.yield, .closing b, rfl, rfl⟩

theorem Rest.yield_ends {op : BinaryOp} (rest : Rest op) :
    rest.yield = [] ∨ ∃ front x, rest.yield = front ++ [x] ∧ ending x = true := by
  match rest with
  | .none => exact .inl rfl
  | .right _ y =>
    obtain ⟨front, x, hy, hx⟩ := y.yield_ends
    exact .inr ⟨.binary op :: front, x, by simp [Rest.yield, hy], hx⟩
  | .left _ y more =>
    obtain ⟨front, x, hy, hx⟩ := y.yield_ends
    rcases more.yield_ends with hmore | ⟨front', x', hmore, hx'⟩
    · exact .inr ⟨.binary op :: front, x, by simp [Rest.yield, hmore, hy], hx⟩
    · exact .inr ⟨.binary op :: (y.yield ++ front'), x', by simp [Rest.yield, hmore], hx'⟩

end

mutual

theorem Derivation.sentence_ne_marker {leaf : String → Sentence} (h : ∀ name, leaf name ≠ .marker)
    {c : Category} (d : Derivation c) : d.sentence leaf ≠ .marker := by
  match d with
  | .joined first rest => exact rest.onto_ne_marker h (first.sentence_ne_marker h)
  | .prefixed op x => exact fun e => by cases e
  | .bare x => exact x.sentence_ne_marker h
  | .atom name => exact h name
  | .bottom => exact fun e => by cases e
  | .bracketed b inner => exact inner.sentence_ne_marker h

theorem Rest.onto_ne_marker {leaf : String → Sentence} (h : ∀ name, leaf name ≠ .marker)
    {op : BinaryOp} (rest : Rest op) {s : Sentence} (hs : s ≠ .marker) :
    rest.onto leaf s ≠ .marker := by
  match rest with
  | .none => exact hs
  | .right _ x => exact fun e => by cases e
  | .left _ x more => exact more.onto_ne_marker h (fun e => by cases e)

end

end Grammar

end ModalFitch
