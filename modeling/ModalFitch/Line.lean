import ModalFitch.Justification
import ModalFitch.Sentence.Reading
import ModalFitch.Text.Folding

/-! One line of a proof: its texts, its depth, the kind of subproof that it opens if any, and what
its texts say. A text that cannot be read is kept with the reason, so a malformed line concerns
only itself. -/

namespace ModalFitch
set_option autoImplicit false

/-- The main proof, an ordinary subproof, or a strict one, which is another world. -/
inductive ScopeKind where
  | root
  | ordinary
  | modal
deriving DecidableEq, Repr

def ScopeKind.name : ScopeKind → String
  | .root => "root"
  | .ordinary => "ordinary"
  | .modal => "modal"

def ScopeKind.ofName? (name : Text) : Option ScopeKind :=
  [ScopeKind.root, .ordinary, .modal].find? fun kind => Text.ofString kind.name = name

structure Line where
  sentenceText : Text
  justificationText : Text
  depth : Int
  opens : Option ScopeKind
  reading : Except ParseError Sentence
  justification : Except JustificationError Justification
deriving Repr

/-- The labels of premises and assumptions, in capitals. -/
def premiseLabels : List String := ["PR", "AS", "PREMISE", "ASSUMPTION", "HYP"]

namespace Line

/-- The lone box always opens a strict subproof. -/
def openedKind (opens : Option ScopeKind) (reading : Except ParseError Sentence) :
    Option ScopeKind :=
  match opens, reading with
  | some _, .ok .marker => some .modal
  | _, _ => opens

/-- A line from its texts. It fails only where a number in the justification is too long to be
read. -/
def create (sentenceText justificationText : Text) (depth : Int) (opens : Option ScopeKind) :
    Except Text.NumeralError Line :=
  let reading := Sentence.read sentenceText
  let line := fun j => Line.mk sentenceText justificationText depth (openedKind opens reading) reading j
  match Justification.read justificationText with
  | .ok j => .ok (line (.ok j))
  | .error (.malformed e) => .ok (line (.error e))
  | .error (.numeral e) => .error e

def sentence? (l : Line) : Option Sentence := l.reading.toOption

def isMarker (l : Line) : Bool :=
  match l.reading with
  | .ok .marker => true
  | _ => false

/-- The rule label as written, if the justification can be read. -/
def ruleLabel? (l : Line) : Option Text := l.justification.toOption.map Justification.rule

def citations (l : Line) : List Citation :=
  match l.justification with
  | .ok j => j.citations
  | .error _ => []

/-- Whether the line is labelled as a premise or an assumption. -/
def isPremise (l : Line) : Bool :=
  match l.ruleLabel? with
  | some label => premiseLabels.any fun name => Text.ofString name = label.uppered
  | none => false

/-- The line with another sentence. Where it was the lone box of a strict subproof and no longer
is, the subproof becomes an ordinary one. -/
def withSentence (l : Line) (text : Text) : Line :=
  let reading := Sentence.read text
  let opens := openedKind l.opens reading
  let changed : Line := { l with sentenceText := text, reading := reading, opens := opens }
  if l.isMarker && !changed.isMarker && l.opens.isSome then { changed with opens := some .ordinary }
  else changed

/-- The line with another justification. -/
def withJustification (l : Line) (text : Text) : Except Text.NumeralError Line :=
  match Justification.read text with
  | .ok j => .ok { l with justificationText := text, justification := .ok j }
  | .error (.malformed e) => .ok { l with justificationText := text, justification := .error e }
  | .error (.numeral e) => .error e

/-- Whether two lines have the same texts, depth and opening. -/
def sameText (a b : Line) : Bool :=
  a.sentenceText = b.sentenceText && a.justificationText = b.justificationText &&
    a.depth = b.depth && a.opens = b.opens

/-- Whether a line number is among those that the justification reaches, ranges in full. -/
def cites (l : Line) (n : Nat) : Bool := l.citations.any fun c => c.start ≤ n && n ≤ c.last

end Line

end ModalFitch
