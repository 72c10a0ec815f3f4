import ModalFitch.Proofs.LeastMatch
import ModalFitch.Proofs.Semantics
import ModalFitch.Proofs.Substitution

/-! Truth values under a valuation that leaves atoms open.

A value that is found although parts of the sentence were passed over is the classical one, whatever
those parts are worth. An error is a third outcome, and it does not count against a value: no further
atom that is given a value makes a value found before another one.

* `BinaryOp.table`, `BinaryOp.settled?`: the truth table of a connective, and the value that its left
  side settles alone.
* `Sentence.evaluate_binary_iff`: how the four connectives are evaluated.
* `Sentence.truth`: the classical truth value, with boxes and diamonds valued at will.
* `short_circuit_sound`: values are classical and lasting, and fail to be found only where an atom has
  none or the sentence is not truth-functional. -/

namespace ModalFitch
set_option autoImplicit false

/-! ## Connectives -/

namespace BinaryOp

/-- The truth table of a connective. -/
def table : BinaryOp → Bool → Bool → Bool
  | .con, a, b => a && b
  | .dis, a, b => a || b
  | .imp, a, b => !a || b
  | .bic, a, b => a == b

/-- The value that the left side settles without the right one. -/
def settled? : BinaryOp → Bool → Option Bool
  | .con, false => some false
  | .dis, true => some true
  | .imp, false => some true
  | _, _ => none

theorem table_of_settled {op : BinaryOp} {a b : Bool} (h : op.settled? a = some b) (c : Bool) :
    op.table a c = b := by
  cases op <;> cases a <;> cases h <;> rfl

end BinaryOp

namespace Sentence

variable {v : Valuation} {b : Bool}

theorem evaluate_atom_iff {name : String} : (atom name).evaluate v = .ok b ↔ v name = some b := by
  unfold evaluate
  cases v name <;> simp

theorem evaluate_neg_iff {s : Sentence} : (neg s).evaluate v = .ok b ↔ s.evaluate v = .ok !b := by
  rw [evaluate]
  cases s.evaluate v with
  | error e => simp [bind, Except.bind]
  | ok a => cases a <;> cases b <;> simp [bind, Except.bind, pure, Except.pure]

/-- The left side is always evaluated, and the right one where the left side does not settle the
value. -/
theorem evaluate_binary_iff {op : BinaryOp} {l r : Sentence} :
    (binary op l r).evaluate v = .ok b ↔ ∃ a, l.evaluate v = .ok a ∧
      (op.settled? a = some b ∨
        op.settled? a = none ∧ ∃ c, r.evaluate v = .ok c ∧ op.table a c = b) := by
  cases hl : l.evaluate v with
  | error e => cases op <;> simp [evaluate, hl, bind, Except.bind]
  | ok a =>
    cases hr : r.evaluate v with
    | error e =>
      cases op <;> cases a <;>
        simp [evaluate, hl, hr, bind, Except.bind, pure, Except.pure, BinaryOp.settled?]
    | ok c =>
      cases op <;> cases a <;>
        simp [evaluate, hl, hr, bind, Except.bind, pure, Except.pure, BinaryOp.settled?,
          BinaryOp.table]

end Sentence

/-! ## Classical truth -/

/-- The truth value of a sentence by the values of its atoms. What has no value by them, as a box or a
diamond, is given one at will. -/
def Sentence.truth (atoms : String → Bool) (others : Sentence → Bool) : Sentence → Bool
  | .atom name => atoms name
  | .metavar name => others (.metavar name)
  | .bottom => false
  | .marker => others .marker
  | .unary .neg s => !s.truth atoms others
  | .unary .nec s => others (.nec s)
  | .unary .pos s => others (.pos s)
  | .binary op l r => op.table (l.truth atoms others) (r.truth atoms others)

theorem Sentence.truth_boolean (atoms : String → Bool) (others : Sentence → Bool) :
    Boolean (truth atoms others) where
  bottom := rfl
  neg _ := rfl
  con _ _ := rfl
  dis _ _ := rfl
  imp _ _ := rfl
  bic _ _ := rfl

/-- The second valuation gives every atom the value that it has in the first. -/
def Valuation.ExtendedBy (v v' : Valuation) : Prop := ∀ name b, v name = some b → v' name = some b

namespace Boolean

variable {w : Sentence → Bool} (h : Boolean w)
include h

theorem binary (op : BinaryOp) (l r : Sentence) : w (.binary op l r) = op.table (w l) (w r) := by
  cases op with
  | con => exact h.con l r
  | dis => exact h.dis l r
  | imp => exact h.imp l r
  | bic => exact h.bic l r

/-- A value that is found is the value under every Boolean valuation that agrees on the atoms. -/
theorem evaluate_sound {v : Valuation} (hv : v.ExtendedBy fun name => some (w (.atom name)))
    {s : Sentence} {b : Bool} (he : s.evaluate v = .ok b) : w s = b := by
  induction s generalizing b with
  | atom name => exact Option.some.inj (hv name b (Sentence.evaluate_atom_iff.mp he))
  | metavar name => cases he
  | bottom =>
    cases he
    exact h.bottom
  | marker => cases he
  | unary op s ih =>
    cases op with
    | neg => rw [h.neg, ih (Sentence.evaluate_neg_iff.mp he), Bool.not_not]
    | nec => cases he
    | pos => cases he
  | binary op l r ihl ihr =>
    obtain ⟨a, hl, hsettled | ⟨-, c, hr, htable⟩⟩ := Sentence.evaluate_binary_iff.mp he
    · -- the right side was passed over, and its value does not matter
      rw [h.binary, ihl hl]
      exact BinaryOp.table_of_settled hsettled (w r)
    · rw [h.binary, ihl hl, ihr hr, htable]

end Boolean

namespace Sentence

/-! ## More values for atoms -/

theorem evaluate_extend {v v' : Valuation} (hv : v.ExtendedBy v') {s : Sentence} {b : Bool}
    (he : s.evaluate v = .ok b) : s.evaluate v' = .ok b := by
  induction s generalizing b with
  | atom name => exact evaluate_atom_iff.mpr (hv name b (evaluate_atom_iff.mp he))
  | metavar name => cases he
  | bottom => exact he
  | marker => cases he
  | unary op s ih =>
    cases op with
    | neg => exact evaluate_neg_iff.mpr (ih (evaluate_neg_iff.mp he))
    | nec => cases he
    | pos => cases he
  | binary op l r ihl ihr =>
    rw [evaluate_binary_iff] at he ⊢
    obtain ⟨a, hl, hsettled | ⟨hopen, c, hr, htable⟩⟩ := he
    · exact ⟨a, ihl hl, .inl hsettled⟩
    · exact ⟨a, ihl hl, .inr ⟨hopen, c, ihr hr, htable⟩⟩

theorem isPlain_of_closed {s : Sentence} (hmodal : s.isModal = false) (hclosed : s.Closed) :
    s.IsPlain := by
  have hparts : ∀ t ∈ s.walk, t.isModalHead = false := by
    simpa [isModal] using hmodal
  clear hmodal
  induction s with
  | atom name => trivial
  | metavar name => exact absurd (hclosed _ List.mem_cons_self) Bool.false_ne_true
  | bottom => trivial
  | marker => exact absurd (hclosed _ List.mem_cons_self) Bool.false_ne_true
  | unary op s ih =>
    have hs := ih (fun t ht => hclosed t (List.mem_cons_of_mem _ ht)) fun t ht =>
      hparts t (List.mem_cons_of_mem _ ht)
    have hhead := hparts _ List.mem_cons_self
    cases op with
    | neg => exact hs
    | nec => cases hhead
    | pos => cases hhead
  | binary op l r ihl ihr =>
    have hleft : ∀ {t}, t ∈ l.walk → t ∈ (binary op l r).walk := fun ht =>
      List.mem_cons_of_mem _ (List.mem_append_left _ ht)
    have hright : ∀ {t}, t ∈ r.walk → t ∈ (binary op l r).walk := fun ht =>
      List.mem_cons_of_mem _ (List.mem_append_right _ ht)
    exact ⟨ihl (fun t ht => hclosed t (hleft ht)) fun t ht => hparts t (hleft ht),
      ihr (fun t ht => hclosed t (hright ht)) fun t ht => hparts t (hright ht)⟩

theorem evaluate_total {v : Valuation} {s : Sentence} (hs : s.IsPlain)
    (hatoms : ∀ name, .atom name ∈ s.walk → (v name).isSome) : ∃ b, s.evaluate v = .ok b := by
  induction s with
  | atom name =>
    obtain ⟨b, hb⟩ := Option.isSome_iff_exists.mp (hatoms name List.mem_cons_self)
    exact ⟨b, evaluate_atom_iff.mpr hb⟩
  | metavar name => exact hs.elim
  | bottom => exact ⟨false, rfl⟩
  | marker => exact hs.elim
  | unary op s ih =>
    cases op with
    | neg =>
      obtain ⟨b, hb⟩ := ih hs fun name hname => hatoms name (List.mem_cons_of_mem _ hname)
      exact ⟨!b, evaluate_neg_iff.mpr (by rw [Bool.not_not]; exact hb)⟩
    | nec => exact hs.elim
    | pos => exact hs.elim
  | binary op l r ihl ihr =>
    obtain ⟨a, ha⟩ := ihl hs.1 fun name hname =>
      hatoms name (List.mem_cons_of_mem _ (List.mem_append_left _ hname))
    obtain ⟨c, hc⟩ := ihr hs.2 fun name hname =>
      hatoms name (List.mem_cons_of_mem _ (List.mem_append_right _ hname))
    cases hsettled : op.settled? a with
    | none => exact ⟨op.table a c, evaluate_binary_iff.mpr ⟨a, ha, .inr ⟨hsettled, c, hc, rfl⟩⟩⟩
    | some b => exact ⟨b, evaluate_binary_iff.mpr ⟨a, ha, .inl hsettled⟩⟩

end Sentence

/-- A value that is found under a valuation of some atoms is the classical truth value under every
valuation of all atoms that extends it, whatever boxes and diamonds are worth, and it is the value
that is found under every valuation that extends it. A value is found for every sentence without box,
diamond, marker and metavariable whose atoms all have one. -/
theorem short_circuit_sound (v : Valuation) (s : Sentence) :
    (∀ b, s.evaluate v = .ok b →
      (∀ (atoms : String → Bool) (others : Sentence → Bool),
        v.ExtendedBy (fun name => some (atoms name)) → s.truth atoms others = b) ∧
      ∀ v' : Valuation, v.ExtendedBy v' → s.evaluate v' = .ok b) ∧
    (s.isModal = false → s.Closed → (∀ name ∈ s.atoms, (v name).isSome) →
      ∃ b, s.evaluate v = .ok b) := by
  refine ⟨fun b hb => ⟨fun atoms others hv => ?_, fun v' hv => ?_⟩, fun hmodal hclosed hatoms => ?_⟩
  · exact (Sentence.truth_boolean atoms others).evaluate_sound hv hb
  · exact Sentence.evaluate_extend hv hb
  · exact Sentence.evaluate_total (Sentence.isPlain_of_closed hmodal hclosed) fun name hname =>
      hatoms name (Sentence.mem_atoms.mpr hname)

/-- A conditional whose right side is a box over an open atom. -/
def settledEarly : Sentence := .imp (.con (.atom "P") (.atom "Q")) (.nec (.atom "R"))

/-- Only one atom has a value, and the others are never looked at. -/
theorem short_circuit_sound_early :
    settledEarly.evaluate (fun name => if name = "P" then some false else none) = .ok true ∧
    (∀ others, settledEarly.truth (fun _ => false) others = true) ∧
    (settledEarly.evaluate (fun name => some (name = "Q")) = .ok true) ∧
    ∃ b, (Sentence.bic (.atom "P") .bottom).evaluate
      (fun name => if name = "P" then some false else none) = .ok b := by
  have he : settledEarly.evaluate (fun name => if name = "P" then some false else none) = .ok true :=
    rfl
  have hext : ∀ v' : Valuation, v' "P" = some false →
      Valuation.ExtendedBy (fun name => if name = "P" then some false else none) v' := by
    intro v' hv' name b hb
    dsimp only at hb
    split at hb
    · rename_i e
      rw [e, hv', hb]
    · cases hb
  obtain ⟨hclassical, hlasting⟩ := (short_circuit_sound _ settledEarly).1 true he
  refine ⟨he, fun others => hclassical _ others (hext _ rfl), hlasting _ (hext _ rfl), ?_⟩
  exact (short_circuit_sound _ _).2 rfl (by decide) (by decide +kernel)

end ModalFitch
