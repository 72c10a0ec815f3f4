import ModalFitch.Sentence.Token

/-! Sentence text read as a sentence.

The grammar, loosest binding first:

* a biconditional is a conditional, or a conditional, `↔` and a biconditional;
* a conditional is a disjunction, or a disjunction, `→` and a conditional;
* disjunctions and conjunctions are chains that lean to the left;
* a unary sentence is a prefix operator and a unary sentence, or a primary one;
* a primary sentence is an atom, `⊥`, or a biconditional in brackets of one shape.

A lone box is the marker. Going into the right side of `↔` or `→`, under a prefix operator or into
brackets takes one of `maxNesting` levels; the tree may have no more levels either. The readers of
a level are made from those of the level below, so the number of levels left bounds the
recursion. -/

namespace ModalFitch
set_option autoImplicit false

/-- The deepest nesting accepted in one sentence. -/
def maxNesting : Nat := 64

/-- What is wrong with a sentence text. -/
inductive ParseCause where
  | empty
  | unknownSymbol (symbol : CodePoint)
  | unexpectedEnd
  | expectedSentence (found : List Char)
  | trailing (found : List Char)
  | strayClosing (found : List Char)
  | neverClosed (opening : List Char)
  | closedBy (opening closing : List Char)
  | tooDeep
deriving DecidableEq, Repr

inductive ParseKind where
  | emptyInput
  | unexpectedToken
  | unmatchedGroup
  | unknownOperator
  | tooDeep
deriving DecidableEq, Repr

def ParseKind.name : ParseKind → String
  | .emptyInput => "empty_input"
  | .unexpectedToken => "unexpected_token"
  | .unmatchedGroup => "unmatched_group"
  | .unknownOperator => "unknown_operator"
  | .tooDeep => "too_deep"

/-- A cause with the part of the text that it concerns. -/
structure ParseError where
  cause : ParseCause
  start : Nat
  stop : Nat
deriving DecidableEq, Repr

namespace ParseError

def kind (e : ParseError) : ParseKind :=
  match e.cause with
  | .empty => .emptyInput
  | .unknownSymbol _ => .unknownOperator
  | .unexpectedEnd | .expectedSentence _ | .trailing _ => .unexpectedToken
  | .strayClosing _ | .neverClosed _ | .closedBy _ _ => .unmatchedGroup
  | .tooDeep => .tooDeep

private def word (cs : List Char) : String := Text.quoted (Text.ofChars cs)

/-- What is wrong, without the kind and the place. -/
def text (e : ParseError) : String :=
  match e.cause with
  | .empty => "Sentence is empty"
  | .unknownSymbol symbol => "Unknown symbol " ++ Text.quoted [symbol]
  | .unexpectedEnd => "Unexpected end of sentence"
  | .expectedSentence found => "Expected a sentence, found " ++ word found
  | .trailing found => "Unexpected " ++ word found ++ " after complete sentence"
  | .strayClosing found => "Closing " ++ word found ++ " has no matching opening bracket"
  | .neverClosed opening => "Opening " ++ word opening ++ " is never closed"
  | .closedBy opening closing => word opening ++ " closed by " ++ word closing
  | .tooDeep => s!"Sentence nested more than {maxNesting} levels deep"

def message (e : ParseError) : String :=
  s!"[{e.kind.name}] {e.text} (at {e.start}-{e.stop})"

/-- An error about one word. -/
def atToken (cause : ParseCause) (t : Token) : ParseError := ⟨cause, t.start, t.stop⟩

end ParseError

namespace Grammar

/-- Reads a sentence from the front of a word list and gives the words after it. -/
abbrev Reader : Type := List Token → Except ParseError (Sentence × List Token)

/-- The readers that a level offers to the one above it. -/
structure Level where
  biconditional : Reader
  conditional : Reader
  unary : Reader

/-- What the readers need to know: the length of the text and what an atom's name stands for. -/
structure Setting where
  size : Nat
  leaf : String → Sentence

/-- Goes one level down at a word. -/
def descend (below : Option Level) (t : Token) : Except ParseError Level :=
  match below with
  | some level => .ok level
  | none => .error (.atToken .tooDeep t)

/-- A closing bracket of the given shape, and the words after it. -/
def close (opening : Token) (b : Bracket) : List Token → Except ParseError (List Token)
  | [] => .error (.atToken (.neverClosed opening.text) opening)
  | t :: rest =>
    match t.symbol with
    | .closing b' =>
      if b = b' then .ok rest
      else .error ⟨.closedBy opening.text t.text, opening.start, t.stop⟩
    | _ => .error (.atToken (.neverClosed opening.text) opening)

def primary (env : Setting) (below : Option Level) : Reader
  | [] => .error ⟨.unexpectedEnd, env.size, env.size⟩
  | t :: rest =>
    match t.symbol with
    | .atom name => .ok (env.leaf name, rest)
    | .bottom => .ok (.bottom, rest)
    | .opening b => do
      let level ← descend below t
      let (s, rest) ← level.biconditional rest
      let rest ← close t b rest
      .ok (s, rest)
    | .closing _ => .error (.atToken (.strayClosing t.text) t)
    | .unary _ => .error (.atToken (.expectedSentence t.text) t)
    | .binary _ => .error (.atToken (.expectedSentence t.text) t)

def unary (env : Setting) (below : Option Level) : Reader
  | [] => primary env below []
  | t :: rest =>
    match t.symbol with
    | .unary op => do
      let level ← descend below t
      let (s, rest) ← level.unary rest
      .ok (.unary op s, rest)
    | _ => primary env below (t :: rest)

/-- Continues a chain that leans to the left. The first argument bounds the number of operands
still to come, and the number of words left is such a bound. -/
def chainFrom (operand : Reader) (op : BinaryOp) :
    Nat → Sentence → List Token → Except ParseError (Sentence × List Token)
  | 0, left, ts => .ok (left, ts)
  | _ + 1, left, [] => .ok (left, [])
  | n + 1, left, t :: ts =>
    if t.symbol = .binary op then do
      let (right, rest) ← operand ts
      chainFrom operand op n (.binary op left right) rest
    else .ok (left, t :: ts)

/-- A chain of operands under one connective that leans to the left. -/
def chain (operand : Reader) (op : BinaryOp) : Reader := fun ts => do
  let (first, rest) ← operand ts
  chainFrom operand op rest.length first rest

/-- One operand, or two with a connective between them; the right one is read a level below. -/
def rightward (operand : Reader) (op : BinaryOp) (below : Option Level) (right : Level → Reader) :
    Reader := fun ts => do
  let (left, rest) ← operand ts
  match rest with
  | t :: rest =>
    if t.symbol = .binary op then do
      let level ← descend below t
      let (r, rest) ← right level rest
      .ok (.binary op left r, rest)
    else .ok (left, t :: rest)
  | [] => .ok (left, [])

/-- The readers above a level. -/
def above (env : Setting) (below : Option Level) : Level :=
  let unary := unary env below
  let conjunction := chain unary .con
  let disjunction := chain conjunction .dis
  let conditional := rightward disjunction .imp below Level.conditional
  let biconditional := rightward conditional .bic below Level.biconditional
  ⟨biconditional, conditional, unary⟩

/-- The readers with a number of levels below them. -/
def levels (env : Setting) : Nat → Level
  | 0 => above env none
  | n + 1 => above env (some (levels env n))

/-- A whole word list as one sentence. -/
def whole (env : Setting) (ts : List Token) : Except ParseError Sentence := do
  let (s, rest) ← (levels env maxNesting).biconditional ts
  match rest with
  | t :: _ =>
    match t.symbol with
    | .closing _ => .error (.atToken (.strayClosing t.text) t)
    | _ => .error (.atToken (.trailing t.text) t)
  | [] => if maxNesting < s.height then .error ⟨.tooDeep, 0, env.size⟩ else .ok s

/-- A word list as a sentence or as the marker. -/
def sentence (env : Setting) (ts : List Token) : Except ParseError Sentence :=
  match ts with
  | [] => .error ⟨.empty, 0, env.size⟩
  | [t] => if t.symbol = .unary .nec then .ok .marker else whole env [t]
  | ts => whole env ts

end Grammar

namespace Sentence

/-- The sentence that a text writes, its atoms standing for the given sentences. -/
def readWith (leaf : String → Sentence) (text : Text) : Except ParseError Sentence :=
  match tokens text with
  | .error unknown => .error ⟨.unknownSymbol unknown.symbol, unknown.position, unknown.position + 1⟩
  | .ok ts => Grammar.sentence ⟨text.length, leaf⟩ ts

/-- The sentence that a text writes. -/
def read (text : Text) : Except ParseError Sentence := readWith .atom text

/-- The rule pattern that a text writes: its atoms are metavariables. -/
def readPattern (text : Text) : Except ParseError Sentence := readWith .metavar text

end Sentence

end ModalFitch
