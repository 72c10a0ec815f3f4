import ModalFitch.Rule.Application
import ModalFitch.Rule.Catalog
import ModalFitch.Verdict
import ModalFitch.World

/-! The check of one line against the lines before it.

A line passes these steps in order: its sentence can be read; its justification can be read and
names a rule; the rule is enabled; every citation leads to something in view; nothing cited is
invalid; the cited material fits the rule; and a strict subproof that the rule discharges draws on
nothing outside it. The first step that fails decides the verdict.

* `Pass`: what a check reads besides the verdicts before it.
* `Pass.judge`: the rule by which a line is valid, or why it is not.
* `Pass.run`: the verdicts on all lines, one after the other. -/

namespace ModalFitch
set_option autoImplicit false

/-- Why a step stops: the line is refused, or something that the step presupposes is not there. -/
inductive CheckFailure where
  | refused (e : CheckError)
  | missing (m : Missing)
deriving DecidableEq, Repr

abbrev Check (α : Type) : Type := Except CheckFailure α

namespace Check

def refuse {α : Type} (cause : CheckCause) (index : Option Int) : Check α :=
  .error (.refused ⟨cause, index⟩)

def lift {α : Type} (r : Except Missing α) : Check α := r.mapError .missing

end Check

structure Pass where
  outline : Outline
  config : Config
  worlds : WorldTree
deriving Repr

namespace Pass

open Check

/-- A pass over an outline. -/
def start (o : Outline) (config : Config) : Except Missing Pass := do
  let worlds ← WorldTree.ofOutline o
  return ⟨o, config, worlds⟩

def worldOf (p : Pass) (n : Nat) : Check World := lift (p.worlds.ofLine p.outline n)

/-! ## Citations -/

/-- A line that a rule uses within one world: it has to be in view and in the same world. -/
def resolveWithin (p : Pass) (number : Nat) (index : Int) (target : Nat) : Check Unit := do
  let there ← p.worldOf target
  let here ← p.worldOf number
  let visible ← lift (p.outline.lineVisible number target)
  if visible then
    if there = here then return () else refuse (.outsideStrict target) (some index)
  else if there = here then refuse (.insideSubproof target number) (some index)
  else refuse (.otherWorld target) (some index)

/-- A line that a rule carries between worlds: the assumptions that it rests on have to be in
force, and its world accessible. -/
def resolveAcross (p : Pass) (number : Nat) (index : Int) (target : Nat) : Check Unit := do
  let home ← lift (p.outline.scopeOf number)
  let hypotheses ← lift (p.outline.hypothesesOver target)
  match hypotheses.find? fun s => !s.encloses home with
  | some s => refuse (.assumptionNotInForce target s.first number) (some index)
  | none =>
    match p.config.system with
    | none => refuse .noSystem (some index)
    | some system =>
      let here ← p.worldOf number
      let there ← p.worldOf target
      if p.worlds.canImport system here there then return ()
      else if here = there then refuse (.notReflexive system target) (some index)
      else refuse (.inaccessible there.id here.id system) (some index)

/-- A subproof that a range cites: it has to be a subproof, closed, in view, and opened in the
world of the citing line. -/
def resolveSubproof (p : Pass) (number : Int) (index : Int) (cited : Citation) : Check Summary :=
  match cited.stop.bind (p.outline.subproofAt cited.start) with
  | none => refuse (.noSubproof cited) (some index)
  | some s => do
    let visible ← if 0 ≤ number then lift (p.outline.subproofVisible number.toNat s) else pure false
    if visible then
      let around ← lift (p.worlds.ofScope (s.parent?.getD 0))
      let here ← p.worldOf number.toNat
      if around = here then lift (p.outline.summary s)
      else refuse (.subproofElsewhere cited) (some index)
    else refuse (.subproofHidden cited number) (some index)

/-- What a citation brings to a rule. There is nothing where the cited line has no sentence. -/
def resolve (p : Pass) (number : Nat) (transfer : Transfer) (index : Int) (cited : Citation) :
    Check (Option Material) :=
  if cited.isRange then do
    let s ← p.resolveSubproof number index cited
    return some (.subproof s)
  else
    let target := cited.start
    if !p.outline.hasLine target then refuse (.noLine target) (some index)
    else if number ≤ target then refuse (.notBefore target number) (some index)
    else do
      match transfer with
      | .within => p.resolveWithin number index target
      | .across => p.resolveAcross number index target
      let l ← lift (p.outline.line target)
      return l.sentence?.map .sentence

/-- What the citations bring, from an index on. -/
def resolveAll (p : Pass) (number : Nat) (transfer : Transfer) (index : Int) :
    List Citation → Check (List (Option Material))
  | [] => .ok []
  | c :: cs => do
    let m ← p.resolve number transfer index c
    let ms ← p.resolveAll number transfer (index + 1) cs
    return m :: ms

/-! ## Dependencies -/

/-- The verdict on a line, if it has one yet. -/
def verdictAt (done : List Diagnostic) (n : Nat) : Except Missing Verdict :=
  match if n = 0 then none else done[n - 1]? with
  | some d => .ok d.verdict
  | none => .error (.verdict n)

/-- The first invalid line among so many from a number on. -/
def firstInvalid (done : List Diagnostic) : Nat → Nat → Except Missing (Option Nat)
  | 0, _ => .ok none
  | count + 1, n => do
    let v ← verdictAt done n
    if v.isInvalid then return some n else firstInvalid done count (n + 1)

/-- Nothing that the citations reach may be invalid. -/
def checkDependencies (done : List Diagnostic) (index : Int) : List Citation → Check Unit
  | [] => .ok ()
  | c :: cs => do
    match ← lift (firstInvalid done (c.last + 1 - c.start) c.start) with
    | some n => refuse (.invalidLine n) (some index)
    | none => checkDependencies done (index + 1) cs

/-! ## World closure -/

/-- Whether a label names a rule that need not stay inside its world: one that carries sentences
between worlds, or the placeholder. -/
def mayReachOut (p : Pass) (label : Text) : Bool :=
  match RuleId.lookup label with
  | none => false
  | some rule =>
    rule = .placeholder ||
      (Catalog.definitionsFor rule p.config.rulesets).any fun d => d.transfer = .across

/-- The first line cited outside a scope by one of so many lines from a number on. -/
def firstLeak (p : Pass) (s : Scope) : Nat → Nat → Except Missing (Option (Nat × Nat))
  | 0, _ => .ok none
  | count + 1, n => do
    let l ← p.outline.line n
    let outside := if p.mayReachOut (l.ruleLabel?.getD "") then none
      else l.citations.find? fun c => !s.containsLine c.start
    match outside with
    | some c => return some (n, c.start)
    | none => p.firstLeak s count (n + 1)

/-- No line of a cited strict subproof may draw on the outer world by a rule that stays within
one. -/
def checkClosure (p : Pass) (index : Int) : List Citation → Check Unit
  | [] => .ok ()
  | c :: cs => do
    let cited := c.stop.bind (p.outline.subproofAt c.start)
    match cited.filter fun s => s.kind = .modal with
    | none => p.checkClosure (index + 1) cs
    | some s =>
      match ← lift (p.firstLeak s (s.last - s.first) (s.first + 1)) with
      | some (inner, outer) => refuse (.leak inner outer c) (some index)
      | none => p.checkClosure (index + 1) cs

/-! ## Lines -/

/-- The lone box opens a strict subproof, without a label or as an assumption. -/
def judgeMarker (l : Line) : Check (Option RuleId) :=
  if l.opens ≠ some .modal then refuse .markerPlace none
  else match l.justification with
    | .error .missingRule => .ok none
    | .error e => refuse (.justification e) e.index
    | .ok j =>
      if RuleId.lookup j.rule ≠ some .premise then refuse (.markerRule j.rule) none
      else if !j.citations.isEmpty then refuse .premiseCitations (some 0)
      else .ok (some .premise)

/-- Whether every one of the first lines is a premise of the main proof. -/
def onlyPremises (o : Outline) (count : Nat) : Bool :=
  (o.lines.take count).all fun l => l.depth = 0 && l.isPremise

/-- A premise cites nothing. It opens a subproof, or stands in the main proof after nothing but
premises. -/
def judgePremise (p : Pass) (number : Nat) (l : Line) : Check (Option RuleId) :=
  if !l.citations.isEmpty then refuse .premiseCitations (some 0)
  else if l.opens.isSome then .ok (some .premise)
  else if l.depth ≠ 0 then refuse .innerPremise none
  else if onlyPremises p.outline (number - 1) then .ok (some .premise)
  else refuse .latePremise none

/-- The materials, all of which have to be there. -/
def present (citations : List Citation) (ms : List (Option Material)) : Check (List Material) :=
  (citations.zip ms).mapM fun (c, m) =>
    match m with
    | some m => .ok m
    | none => .error (.missing (.sentence c.start))

/-- The steps from the citations of a line on, for one definition of its rule. -/
def applyDefinition (p : Pass) (done : List Diagnostic) (number : Nat) (sentence : Sentence)
    (citations : List Citation) (d : RuleDefinition) : Check Unit := do
  let resolved ← p.resolveAll number d.transfer 0 citations
  checkDependencies done 0 citations
  let materials ← present citations resolved
  let _ ← (d.apply materials sentence).mapError .refused
  if d.worldClosed then p.checkClosure 0 citations

/-- The first of the definitions that accepts the line; where none does, the line is refused for
the reason given. -/
def applyFirst (p : Pass) (done : List Diagnostic) (number : Nat) (sentence : Sentence)
    (citations : List Citation) (reason : CheckError) : List RuleDefinition → Check (Option RuleId)
  | [] => .error (.refused reason)
  | d :: ds =>
    match p.applyDefinition done number sentence citations d with
    | .ok _ => .ok (some d.rule)
    | .error (.refused _) => p.applyFirst done number sentence citations reason ds
    | .error (.missing m) => .error (.missing m)

/-- A line by an enabled rule. Where no definition accepts it, the first one says why. -/
def judgeDefinitions (p : Pass) (done : List Diagnostic) (number : Nat) (sentence : Sentence)
    (j : Justification) (rule : RuleId) : Check (Option RuleId) :=
  match Catalog.definitionsFor rule p.config.rulesets with
  | [] => refuse (.unavailable rule p.config) none
  | d :: ds =>
    match p.applyDefinition done number sentence j.citations d with
    | .ok _ => .ok (some d.rule)
    | .error (.refused e) => p.applyFirst done number sentence j.citations e ds
    | .error (.missing m) => .error (.missing m)

/-- A line with a readable sentence and justification. -/
def judgeRule (p : Pass) (done : List Diagnostic) (number : Nat) (l : Line) (sentence : Sentence)
    (j : Justification) : Check (Option RuleId) :=
  match RuleId.lookup j.rule with
  | none => refuse (.unknownRule j.rule) none
  | some .premise => p.judgePremise number l
  | some rule =>
    if l.opens.isSome then refuse (.assumptionRule rule) none
    else if rule = .placeholder then .ok (some .placeholder)
    else p.judgeDefinitions done number sentence j rule

/-- The rule by which a line is valid, or why it is not. An assumption needs no label. -/
def judge (p : Pass) (done : List Diagnostic) (number : Nat) (l : Line) : Check (Option RuleId) :=
  match l.reading with
  | .error e => refuse (.sentence e) none
  | .ok .marker => judgeMarker l
  | .ok sentence =>
    match l.justification with
    | .error .missingRule =>
      if l.opens.isSome then .ok (some .premise) else refuse (.justification .missingRule) none
    | .error e => refuse (.justification e) e.index
    | .ok j => p.judgeRule done number l sentence j

/-- The verdict on a line after the verdicts before it. -/
def verdict (p : Pass) (done : List Diagnostic) (number : Nat) (l : Line) :
    Except Missing Verdict :=
  match p.judge done number l with
  | .ok rule => .ok (.valid rule)
  | .error (.refused e) => .ok (.invalid l.ruleLabel? e)
  | .error (.missing m) => .error m

/-- The verdicts on the lines that are left, after those already reached. -/
def continueWith (p : Pass) (done : List Diagnostic) : List Line → Except Missing (List Diagnostic)
  | [] => .ok done
  | l :: rest => do
    let number := done.length + 1
    let v ← p.verdict done number l
    p.continueWith (done ++ [⟨number, v⟩]) rest

/-- The verdicts on all lines. -/
def run (p : Pass) : Except Missing (List Diagnostic) := p.continueWith [] p.outline.lines

end Pass

end ModalFitch
