import ModalFitch.Sentence.Basic
import ModalFitch.Text.Blank
import ModalFitch.Text.Quoted

/-! The words of sentence text.

* `Symbol`: what a word means; every operator has several spellings of one meaning.
* `lexeme?`: the word at the front of a text: the longest operator spelling that fits, else a
  bracket, else an atom.
* `tokens`: the words of a text with their places, or the first code point that starts no word. -/

namespace ModalFitch
set_option autoImplicit false

inductive Bracket where
  | round
  | square
  | curly
deriving DecidableEq, Repr

def Bracket.openingChar : Bracket → Char
  | .round => '('
  | .square => '['
  | .curly => '\x7b'

def Bracket.closingChar : Bracket → Char
  | .round => ')'
  | .square => ']'
  | .curly => '\x7d'

/-- The meaning of a word. -/
inductive Symbol where
  | atom (name : String)
  | bottom
  | unary (op : UnaryOp)
  | binary (op : BinaryOp)
  | opening (b : Bracket)
  | closing (b : Bracket)
deriving DecidableEq, Repr

/-- A word with its meaning and its place: the positions of its first code point and of the first
one after it. -/
structure Token where
  symbol : Symbol
  text : List Char
  start : Nat
  stop : Nat
deriving DecidableEq, Repr

/-! ## Spellings -/

/-- The spellings of the binary connectives, the canonical one first. -/
def BinaryOp.spellings : BinaryOp → List (List Char)
  | .bic => [['↔'], ['<', '-', '>'], ['<', '=', '>'], ['≡']]
  | .imp => [['→'], ['-', '>'], ['=', '>'], ['⇒'], ['⊃'], ['>']]
  | .con => [['∧'], ['&'], ['^'], ['·'], ['*'], ['.']]
  | .dis => [['∨'], ['|'], ['v']]

/-- The spellings of the unary operators, the canonical one first. -/
def UnaryOp.spellings : UnaryOp → List (List Char)
  | .neg => [['¬'], ['~'], ['∼'], ['−'], ['-'], ['!']]
  | .nec => [['□'], ['[', ']'], ['◻']]
  | .pos => [['◇'], ['<', '>'], ['◊']]

/-- The spellings of the contradiction, the canonical one first. -/
def bottomSpellings : List (List Char) := [['⊥'], ['#'], ['X', 'X'], ['_', '|', '_']]

/-- Every operator spelling with its meaning. -/
def spellings : List (List Char × Symbol) :=
  [BinaryOp.bic, .imp, .con, .dis].flatMap (fun op => op.spellings.map (·, .binary op)) ++
  [UnaryOp.neg, .nec, .pos].flatMap (fun op => op.spellings.map (·, .unary op)) ++
  bottomSpellings.map (·, .bottom)

/-- The spellings of one length. -/
def spellingsOf (n : Nat) : List (List Char × Symbol) := spellings.filter (·.1.length = n)

/-- All spellings, the longer ones first. -/
def longestFirst : List (List Char × Symbol) := spellingsOf 3 ++ spellingsOf 2 ++ spellingsOf 1

/-! ## Words -/

def operator? (t : Text) : Option (Symbol × List Char) :=
  (longestFirst.find? fun (spelling, _) => (Text.ofChars spelling).isPrefixOf t).map
    fun (spelling, symbol) => (symbol, spelling)

def bracket? (c : Char) : Option Symbol :=
  if c = '(' then some (.opening .round)
  else if c = '[' then some (.opening .square)
  else if c = '\x7b' then some (.opening .curly)
  else if c = ')' then some (.closing .round)
  else if c = ']' then some (.closing .square)
  else if c = '\x7d' then some (.closing .curly)
  else none

/-- The letters that start an atom: those of ASCII but for the small v, which is a disjunction. -/
def isAtomStart (c : Char) : Bool :=
  ('A' ≤ c && c ≤ 'Z') || ('a' ≤ c && c ≤ 'u') || ('w' ≤ c && c ≤ 'z')

/-- The characters that continue an atom: digits, underscores and primes. -/
def isAtomTail (c : Char) : Bool := ('0' ≤ c && c ≤ '9') || c = '_' || c = Text.singleQuote

/-- The atom at the front of a text. -/
def atom? : Text → Option (List Char)
  | .char c :: t => if isAtomStart c then some (c :: Text.leading isAtomTail t) else none
  | _ => none

/-- The word at the front of a text: its meaning and its characters. -/
def lexeme? (t : Text) : Option (Symbol × List Char) :=
  match operator? t with
  | some found => some found
  | none =>
    match t.head?.bind CodePoint.char? with
    | none => none
    | some c =>
      match bracket? c with
      | some symbol => some (symbol, [c])
      | none => (atom? t).map fun name => (.atom (String.ofList name), name)

/-- A code point that starts no word, with its position. -/
structure UnknownSymbol where
  symbol : CodePoint
  position : Nat
deriving DecidableEq, Repr

/-- The words of a text from a position on. The first argument counts the characters that belong
to the word last found and are passed over. -/
def tokensFrom : Nat → Nat → Text → Except UnknownSymbol (List Token)
  | _, _, [] => .ok []
  | skip + 1, pos, _ :: t => tokensFrom skip (pos + 1) t
  | 0, pos, p :: t =>
    if p.is Text.isBlank then tokensFrom 0 (pos + 1) t
    else match lexeme? (p :: t) with
      | none => .error ⟨p, pos⟩
      | some (symbol, word) => do
        let rest ← tokensFrom (word.length - 1) (pos + 1) t
        .ok (⟨symbol, word, pos, pos + word.length⟩ :: rest)

/-- The words of a text. -/
def tokens (t : Text) : Except UnknownSymbol (List Token) := tokensFrom 0 0 t

/-- The name of a symbol's kind. -/
def Symbol.kindName : Symbol → String
  | .atom _ => "ATOM"
  | .bottom => "BOT"
  | .unary .neg => "NEG"
  | .unary .nec => "NEC"
  | .unary .pos => "POS"
  | .binary .con => "CON"
  | .binary .dis => "DIS"
  | .binary .imp => "IMP"
  | .binary .bic => "BIC"
  | .opening _ => "LPAREN"
  | .closing _ => "RPAREN"

end ModalFitch
