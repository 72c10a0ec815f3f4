import ModalFitch.Json.Basic
import ModalFitch.Line

/-! The scope tree of a list of lines.

The depths and openings of the lines say where subproofs begin and end. The lines are laid out one
after the other with a stack of the open subproofs: a line that opens a subproof closes those at
its depth or deeper, any other line closes the deeper ones.

* `NestingFailure`: why lines make no outline.
* `Layout.step`: one line's turn, or the failure of a line whose depth does not fit.
* `Scope`: a subproof or the main proof, with the lines from `first` to `last`.
* `Outline`: lines with their scopes. Scope 0 is the main proof; the others are numbered in the
  order of their first lines. -/

namespace ModalFitch
set_option autoImplicit false

/-- The goal of a proof: a sentence, or another value that no line can reach. -/
inductive Goal where
  | sentence (s : Sentence)
  | other (v : Json)
deriving Repr

namespace Goal

def text : Goal → Except Text.NumeralError Text
  | .sentence s => .ok s.render
  | .other v => v.asText

def isMetBy (g : Goal) (s : Sentence) : Bool :=
  match g with
  | .sentence t => t = s
  | .other _ => false

end Goal

/-- Why a line does not fit where it stands; lines count from one. -/
inductive NestingError where
  | negative (line : Nat) (depth : Int)
  | opensAtRoot (line : Nat)
  | jump (line : Nat) (before depth : Int)
  | unopened (line : Nat) (depth : Int)
deriving DecidableEq, Repr

namespace NestingError

def message : NestingError → String
  | .negative n d => s!"Line {n} has negative depth {d}"
  | .opensAtRoot n => s!"Line {n} opens a subproof at depth 0"
  | .jump n before d => s!"Line {n} jumps from depth {before} to {d}"
  | .unopened n d => s!"Line {n} at depth {d} does not open a subproof"

/-- The numbers in the message, in their order. -/
def numbers : NestingError → List Int
  | .negative n d | .unopened n d => [n, d]
  | .opensAtRoot n => [n]
  | .jump n before d => [n, before, d]

end NestingError

/-- Why lines make no outline: one of them does not fit, or the message on it has a number that is
too long to be written. -/
inductive NestingFailure where
  | misfit (e : NestingError)
  | numeral (e : Text.NumeralError)
deriving DecidableEq, Repr

def NestingFailure.message : NestingFailure → String
  | .misfit e => e.message
  | .numeral e => e.message

/-- What comes of an error when its message is written. -/
def NestingError.raised (e : NestingError) : NestingFailure :=
  match e.numbers.mapM Text.textOfInt with
  | .ok _ => .misfit e
  | .error n => .numeral n

/-! ## Layout -/

/-- A subproof that is still open. -/
structure OpenScope where
  id : Nat
  depth : Int
deriving DecidableEq, Repr

/-- How many scopes there are so far, the main proof included, and the open subproofs, innermost
first. -/
structure Layout where
  count : Nat
  stack : List OpenScope
deriving DecidableEq, Repr

namespace Layout

def start : Layout := ⟨1, []⟩

/-- The depth of the innermost open scope. -/
def depth (p : Layout) : Int :=
  match p.stack with
  | [] => 0
  | s :: _ => s.depth

/-- The open scopes, innermost first and the main proof last. -/
def chain (p : Layout) : List Nat := p.stack.map OpenScope.id ++ [0]

/-- The layout after a line. -/
def step (p : Layout) (number : Nat) (line : Line) : Except NestingFailure Layout :=
  if line.depth < 0 then .error (NestingError.negative number line.depth).raised
  else match line.opens with
    | some _ =>
      if line.depth < 1 then .error (NestingError.opensAtRoot number).raised
      else if p.depth + 1 < line.depth then
        .error (NestingError.jump number p.depth line.depth).raised
      else
        let around := p.stack.dropWhile fun s => line.depth ≤ s.depth
        .ok ⟨p.count + 1, ⟨p.count, line.depth⟩ :: around⟩
    | none =>
      if p.depth < line.depth then .error (NestingError.unopened number line.depth).raised
      else .ok { p with stack := p.stack.dropWhile fun s => line.depth < s.depth }

/-- The scopes around each of the lines that are left, from a line number on. -/
def chains (p : Layout) (number : Nat) : List Line → Except NestingFailure (List (List Nat))
  | [] => .ok []
  | line :: rest => do
    let q ← p.step number line
    let cs ← q.chains (number + 1) rest
    .ok (q.chain :: cs)

end Layout

/-! ## Scopes -/

/-- What stands directly in a scope: a line, or a subproof. -/
inductive Item where
  | line (number : Nat)
  | scope (id : Nat)
deriving DecidableEq, Repr

/-- A scope with the scopes around it: `enclosing` starts with the scope itself and ends with the
main proof. -/
structure Scope where
  id : Nat
  enclosing : List Nat
  kind : ScopeKind
  depth : Int
  first : Nat
  last : Nat
  items : List Item
deriving DecidableEq, Repr

namespace Scope

def parent? (s : Scope) : Option Nat := s.enclosing[1]?

def isRoot (s : Scope) : Bool := s.kind = .root

def containsLine (s : Scope) (n : Nat) : Bool := s.first ≤ n && n ≤ s.last

/-- Whether the scope is the other one or around it. -/
def encloses (outer inner : Scope) : Bool := inner.enclosing.contains outer.id

end Scope

/-- A line with its number and the scopes around it. -/
structure Placed where
  number : Nat
  line : Line
  chain : List Nat
deriving Repr

namespace Placed

/-- The items that a line adds to a scope: the subproof that it opens there, and itself. -/
def itemsIn (p : Placed) (scope : Nat) : List Item :=
  (if p.line.opens.isSome && p.chain[1]? = some scope then (p.chain.head?.map Item.scope).toList
    else []) ++
  (if p.chain.head? = some scope then [.line p.number] else [])

/-- The last of the placed lines that stands in a scope, directly or deeper. -/
def lastIn (scope : Nat) (ps : List Placed) : Nat :=
  ps.foldl (fun n p => if p.chain.contains scope then p.number else n) 0

/-- The scope that a line opens. -/
def opened (ps : List Placed) (p : Placed) : Option Scope := do
  let kind ← p.line.opens
  let id ← p.chain.head?
  return ⟨id, p.chain, kind, p.line.depth, p.number, lastIn id ps, ps.flatMap (·.itemsIn id)⟩

end Placed

/-- The main proof and the subproofs, in the order of their first lines. -/
def scopesOf (ps : List Placed) : List Scope :=
  ⟨0, [0], .root, 0, 1, Placed.lastIn 0 ps, ps.flatMap (·.itemsIn 0)⟩ ::
    ps.filterMap (Placed.opened ps)

/-- A list of lines with its scopes, its goal and its revision. -/
structure Outline where
  lines : List Line
  goal : Option Goal
  revision : Nat
  /-- The innermost scope of each line. -/
  homes : List Nat
  scopes : List Scope
deriving Repr

namespace Outline

/-- The lines with their numbers and the scopes around them. -/
def placed (lines : List Line) (chains : List (List Nat)) : List Placed :=
  (lines.zip chains).mapIdx fun i (line, chain) => ⟨i + 1, line, chain⟩

def build (lines : List Line) (goal : Option Goal) (revision : Nat) :
    Except NestingFailure Outline := do
  let chains ← Layout.start.chains 1 lines
  .ok ⟨lines, goal, revision, chains.map (·.headD 0), scopesOf (placed lines chains)⟩

/-- The number of lines. -/
def size (o : Outline) : Nat := o.lines.length

def numbers (o : Outline) : List Nat := List.range' 1 o.size

end Outline

end ModalFitch
