/-! Sentences of truth-functional and modal logic.

* `Sentence`: finite trees; equality is equality of trees.
* `Sentence.render`: the canonical text, with brackets around every binary sentence inside
  another sentence.
* `Sentence.walk`, `atoms`, `metavariables`, `isModal`: the parts of a sentence.
* `Sentence.variants`: a sentence and, where its main connective commutes, the sentence with the
  two sides exchanged. -/

namespace ModalFitch
set_option autoImplicit false

inductive UnaryOp where
  | neg
  | nec
  | pos
deriving DecidableEq, Repr

inductive BinaryOp where
  | con
  | dis
  | imp
  | bic
deriving DecidableEq, Repr

/-- The marker is the lone box that opens a strict subproof; it names no proposition. Metavariables
occur in rule patterns only. -/
inductive Sentence where
  | atom (name : String)
  | metavar (name : String)
  | bottom
  | marker
  | unary (op : UnaryOp) (inner : Sentence)
  | binary (op : BinaryOp) (left right : Sentence)
deriving DecidableEq, Repr

def UnaryOp.symbol : UnaryOp → Char
  | .neg => '¬'
  | .nec => '□'
  | .pos => '◇'

def BinaryOp.symbol : BinaryOp → Char
  | .con => '∧'
  | .dis => '∨'
  | .imp => '→'
  | .bic => '↔'

/-- The connectives whose two sides may be exchanged. -/
def BinaryOp.commutes : BinaryOp → Bool
  | .imp => false
  | .con | .dis | .bic => true

namespace Sentence

abbrev neg (s : Sentence) : Sentence := .unary .neg s
abbrev nec (s : Sentence) : Sentence := .unary .nec s
abbrev pos (s : Sentence) : Sentence := .unary .pos s
abbrev con (l r : Sentence) : Sentence := .binary .con l r
abbrev dis (l r : Sentence) : Sentence := .binary .dis l r
abbrev imp (l r : Sentence) : Sentence := .binary .imp l r
abbrev bic (l r : Sentence) : Sentence := .binary .bic l r

/-! ## Text -/

/-- The characters of a sentence; a binary one stands in brackets when it is nested. -/
def chars (nested : Bool) : Sentence → List Char
  | .atom name => name.toList
  | .metavar name => name.toList
  | .bottom => ['⊥']
  | .marker => ['□']
  | .unary op s => op.symbol :: s.chars true
  | .binary op l r =>
    let body := l.chars true ++ ' ' :: op.symbol :: ' ' :: r.chars true
    if nested then '(' :: body ++ [')'] else body

def render (s : Sentence) : String := String.ofList (s.chars false)

/-- The text of a sentence inside another one. -/
def renderNested (s : Sentence) : String := String.ofList (s.chars true)

/-! ## Parts -/

/-- The sentence and all its parts, each before its own parts. -/
def walk : Sentence → List Sentence
  | .unary op s => .unary op s :: s.walk
  | .binary op l r => .binary op l r :: (l.walk ++ r.walk)
  | s => [s]

/-- The names of a list in the order of their characters, each once. -/
def sortedNames (names : List String) : List String :=
  names.eraseDups.mergeSort fun a b => !decide (b < a)

def atomName? : Sentence → Option String
  | .atom name => some name
  | _ => none

def metavarName? : Sentence → Option String
  | .metavar name => some name
  | _ => none

/-- The names of the atoms, sorted. -/
def atoms (s : Sentence) : List String := sortedNames (s.walk.filterMap atomName?)

/-- The names of the metavariables, in the order of their first occurrence and repeated. -/
def metavariables (s : Sentence) : List String := s.walk.filterMap metavarName?

def isModalHead : Sentence → Bool
  | .unary .nec _ => true
  | .unary .pos _ => true
  | _ => false

/-- Whether a box or a diamond occurs; the marker is neither. -/
def isModal (s : Sentence) : Bool := s.walk.any isModalHead

/-- The number of levels of the tree; a leaf has one. -/
def height : Sentence → Nat
  | .unary _ s => s.height + 1
  | .binary _ l r => max l.height r.height + 1
  | _ => 1

/-- The sentence, and its commuted form where the main connective commutes. -/
def variants : Sentence → List Sentence
  | .binary op l r =>
    if op.commutes then [.binary op l r, .binary op r l] else [.binary op l r]
  | s => [s]

/-- The name of a sentence's kind. -/
def kindName : Sentence → String
  | .atom _ => "Atomic"
  | .metavar _ => "Metavar"
  | .bottom => "Bottom"
  | .marker => "BoxMarker"
  | .unary .neg _ => "Neg"
  | .unary .nec _ => "Nec"
  | .unary .pos _ => "Pos"
  | .binary .con _ _ => "Con"
  | .binary .dis _ _ => "Dis"
  | .binary .imp _ _ => "Imp"
  | .binary .bic _ _ => "Bic"

end Sentence

end ModalFitch
