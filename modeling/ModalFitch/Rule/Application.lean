import ModalFitch.CheckError

/-! Whether a sentence follows from cited material by a rule.

The schemas are tried in turn, each with the citations in the order given or, for a rule without
an order, in every order. The first attempt whose premises and conclusion fit decides. Where there
is none, the first attempt whose premises fit says which conclusion was expected. -/

namespace ModalFitch
set_option autoImplicit false

/-- What a citation brings. -/
inductive Material where
  | sentence (s : Sentence)
  | subproof (s : Summary)
deriving DecidableEq, Repr

namespace Premise

def matchWith (p : Premise) (m : Material) (b : Bindings) : Option Bindings :=
  match p, m with
  | .line pattern, .sentence s => pattern.matchWith s b
  | .subproof pattern, .subproof s => pattern.matchWith s b
  | _, _ => none

end Premise

/-! ## Orders -/

/-- Every choice of one element, with the elements that are left. -/
def selections {α : Type} : List α → List (α × List α)
  | [] => []
  | x :: xs => (x, xs) :: (selections xs).map fun (y, ys) => (y, x :: ys)

/-- The orders of so many elements of a list, those that start with an earlier element first. -/
def arrangements {α : Type} : Nat → List α → List (List α)
  | 0, _ => [[]]
  | n + 1, xs => (selections xs).flatMap fun (y, ys) => (arrangements n ys).map (y :: ·)

/-- All the orders of a list. -/
def orders {α : Type} (xs : List α) : List (List α) := arrangements xs.length xs

/-! ## Attempts -/

/-- What one attempt comes to. -/
inductive Attempt where
  /-- A premise does not fit the material of the citation with this index. -/
  | premise (index : Nat)
  /-- The premises fit, but the conclusion does not. -/
  | conclusion (expected : Sentence)
  | fits (b : Bindings)
deriving DecidableEq, Repr

/-- The bindings under which the premises are the materials, one after the other, or the index of
the first material that does not fit. -/
def matchPremises : List Premise → List (Nat × Material) → Bindings → Except Nat Bindings
  | p :: ps, (i, m) :: ms, b =>
    match p.matchWith m b with
    | some b => matchPremises ps ms b
    | none => .error i
  | _, _, b => .ok b

namespace RuleDefinition

/-- Whether the conclusion of a schema fits the sentence of the line. -/
def concludes (d : RuleDefinition) (s : Schema) (b : Bindings) (sentence : Sentence) : Bool :=
  let candidates := match d.equivalence with
    | .structural => [sentence]
    | .commuted => sentence.variants
  candidates.any fun c => (s.conclusion.matchWith c b).isSome

def attempt (d : RuleDefinition) (s : Schema) (materials : List (Nat × Material))
    (sentence : Sentence) : Attempt :=
  match matchPremises s.premises materials [] with
  | .error i => .premise i
  | .ok b =>
    if d.concludes s b sentence then .fits b
    else .conclusion (s.conclusion.instantiatePartial b)

/-- The attempts in their order. -/
def attempts (d : RuleDefinition) (materials : List Material) (sentence : Sentence) :
    List Attempt :=
  let indexed := materials.mapIdx fun i m => (i, m)
  (d.schemas.filter fun s => s.premises.length = materials.length).flatMap fun s =>
    (if d.unordered then orders indexed else [indexed]).map fun ms => d.attempt s ms sentence

/-- The bindings of the premises in the first attempt that fits, or why none does. -/
def apply (d : RuleDefinition) (materials : List Material) (sentence : Sentence) :
    Except CheckError Bindings :=
  if d.arities.contains materials.length then
    let tried := d.attempts materials sentence
    match tried.findSome? fun | .fits b => some b | _ => none with
    | some b => .ok b
    | none =>
      match tried.findSome? fun | .conclusion e => some e | _ => none with
      | some expected => .error ⟨.conclusion d.rule expected sentence, none⟩
      | none =>
        let index := tried.findSome? fun | .premise i => some (Int.ofNat i) | _ => none
        .error ⟨.material d.rule d.schemas, if d.unordered then none else index⟩
  else .error ⟨.arity d.rule d.arities materials.length, none⟩

end RuleDefinition

end ModalFitch
