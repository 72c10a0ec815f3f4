import ModalFitch.Closure
import ModalFitch.Outline.Visibility
import ModalFitch.Reach
import ModalFitch.System

/-! The worlds of a proof. The main proof is the actual world, and every strict subproof is a world
of its own; an ordinary subproof stays in the world around it.

* `WorldTree.ofOutline`: the worlds, in the order of their subproofs.
* `WorldTree.accessible`: which world's sentences a world may use, in each modal system: its own
  and its parent's, those of all its ancestors, or those of every world that is connected.
* `WorldTree.relation`: access between all worlds at once, as the closure of its single steps. -/

namespace ModalFitch
set_option autoImplicit false

structure World where
  id : Nat
  parent : Option Nat
  depth : Nat
  scope : Nat
deriving DecidableEq, Repr

namespace World

def actual : World := ⟨0, none, 0, 0⟩

def isActual (w : World) : Bool := w.parent.isNone

end World

structure WorldTree where
  worlds : List World
  /-- The world of each scope that has one. -/
  homes : List (Nat × World)
deriving DecidableEq, Repr

namespace WorldTree

/-- The actual world, home of the main proof. -/
def start : WorldTree := ⟨[.actual], [(0, .actual)]⟩

/-- The world that a scope belongs to. -/
def ofScope (t : WorldTree) (id : Nat) : Except Missing World :=
  match List.lookup id t.homes with
  | some w => .ok w
  | none => .error (.world id)

/-- The tree with one more scope: a strict subproof brings a world, an ordinary one is in the world
of its parent. -/
def addScope (t : WorldTree) (s : Scope) : Except Missing WorldTree :=
  if s.isRoot then .ok t
  else do
    let around ← t.ofScope (s.parent?.getD 0)
    if s.kind = .modal then
      let w : World := ⟨t.worlds.length, some around.id, around.depth + 1, s.id⟩
      return ⟨t.worlds ++ [w], t.homes ++ [(s.id, w)]⟩
    else return { t with homes := t.homes ++ [(s.id, around)] }

def addScopes (t : WorldTree) : List Scope → Except Missing WorldTree
  | [] => .ok t
  | s :: rest => do
    let u ← t.addScope s
    u.addScopes rest

def ofOutline (o : Outline) : Except Missing WorldTree := start.addScopes o.scopes

def size (t : WorldTree) : Nat := t.worlds.length

def ofLine (t : WorldTree) (o : Outline) (n : Nat) : Except Missing World := do
  let s ← o.scopeOf n
  t.ofScope s.id

/-- So many worlds around a world, nearest first. -/
def climb (t : WorldTree) : Nat → World → List World
  | 0, _ => []
  | n + 1, w =>
    match w.parent.bind (t.worlds[·]?) with
    | none => []
    | some p => p :: t.climb n p

/-- The worlds around a world, nearest first; there are as many as its depth says. -/
def ancestors (t : WorldTree) (w : World) : List World := t.climb w.depth w

/-! ## Accessibility -/

/-- One step of access: to the world itself and to its parent, and in a symmetric system also to
its children. -/
def edge (system : ModalSystem) (a b : World) : Bool :=
  a = b || a.parent = some b.id || (system.symmetric && b.parent = some a.id)

/-- Whether sentences of the second world may be used in the first. -/
def accessible (t : WorldTree) (system : ModalSystem) (a b : World) : Bool :=
  if system.transitive then (reachable (edge system) t.worlds [a]).contains b
  else edge system a b

/-- Whether a rule may carry a sentence from the second world into the first. Within one world
this takes a reflexive system. -/
def canImport (t : WorldTree) (system : ModalSystem) (a b : World) : Bool :=
  if a = b then system.reflexive else t.accessible system a b

/-- The single steps of access by the numbers of the worlds: from a world to itself and to its
parent, and in a symmetric system also back. -/
def steps (t : WorldTree) (system : ModalSystem) : List (Nat × Nat) :=
  let up := t.worlds.flatMap fun w => (w.id, w.id) :: (w.parent.map fun u => (w.id, u)).toList
  if system.symmetric then up ++ up.map Prod.swap else up

/-- The pairs of a world and a world that it has access to, in order. -/
def relation (t : WorldTree) (system : ModalSystem) : List (Nat × Nat) :=
  let pairs := if system.transitive then closure (t.steps system) else once (t.steps system)
  pairs.mergeSort fun p q => p.1 < q.1 || (p.1 == q.1 && p.2 ≤ q.2)

end WorldTree

end ModalFitch
