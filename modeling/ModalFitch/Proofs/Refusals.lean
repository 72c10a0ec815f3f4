import ModalFitch.Checker

/-! What a line is refused for.

Nearly every step of a check refuses a line for causes that are the step's own. Two causes depend on
the line: the label that the lone box may not have, and a citation out of a strict subproof, which
only the last step finds.

* `CheckCause.isOrdinary`: every cause but these two.
* `Check.RefusesOnly`: a step refuses a line only for causes with a property.
* `RuleDefinition.apply_cause`: what a rule says of material that it does not accept.
* `Pass.judge_refusals`: a line is refused for an ordinary cause, for its own label, or by the last
  step. -/

namespace ModalFitch
set_option autoImplicit false

/-- Causes that quote no label and that another step than the last gives. -/
def CheckCause.isOrdinary : CheckCause → Bool
  | .markerRule _ | .leak _ _ _ => false
  | _ => true

namespace Check

variable {α β : Type} {P : CheckCause → Prop}

/-- A step refuses a line only for causes with a property. -/
def RefusesOnly (P : CheckCause → Prop) (x : Check α) : Prop :=
  ∀ e, x = .error (.refused e) → P e.cause

theorem refusesOnly_ok (a : α) : RefusesOnly P (.ok a) := by
  intro e h
  cases h

theorem refusesOnly_refuse {cause : CheckCause} (hcause : P cause) (index : Option Int) :
    RefusesOnly P (refuse cause index : Check α) := by
  intro e h
  cases h
  exact hcause

theorem refusesOnly_missing (m : Missing) : RefusesOnly P (.error (.missing m) : Check α) := by
  intro e h
  cases h

theorem refusesOnly_lift (x : Except Missing α) : RefusesOnly P (lift x) := by
  cases x with
  | ok a => exact refusesOnly_ok a
  | error m => exact refusesOnly_missing m

theorem RefusesOnly.bind {x : Check α} {f : α → Check β} (hx : RefusesOnly P x)
    (hf : ∀ a, x = .ok a → RefusesOnly P (f a)) : RefusesOnly P (x >>= f) := by
  cases x with
  | ok a => exact hf a rfl
  | error failure =>
    intro e h
    cases h
    exact hx e rfl

theorem refusesOnly_mapM {f : α → Check β} (hf : ∀ a, RefusesOnly P (f a)) (xs : List α) :
    RefusesOnly P (xs.mapM f) := by
  induction xs with
  | nil => exact refusesOnly_ok []
  | cons x xs ih =>
    rw [List.mapM_cons]
    exact (hf x).bind fun _ _ => ih.bind fun _ _ => refusesOnly_ok _

end Check

/-- A rule that does not accept its material says so in one of three ways. -/
theorem RuleDefinition.apply_cause {d : RuleDefinition} {ms : List Material} {s : Sentence}
    {e : CheckError} (h : d.apply ms s = .error e) :
    e.cause = .arity d.rule d.arities ms.length ∨ e.cause = .material d.rule d.schemas ∨
      ∃ expected, e.cause = .conclusion d.rule expected s := by
  unfold RuleDefinition.apply at h
  split at h
  · simp only at h
    split at h
    · cases h
    · split at h
      · cases h
        exact .inr (.inr ⟨_, rfl⟩)
      · cases h
        exact .inr (.inl rfl)
  · cases h
    exact .inl rfl

namespace Pass

open Check

variable {P : CheckCause → Prop}

theorem checkClosure_refusals (hleak : ∀ inner outer c, P (.leak inner outer c)) (p : Pass)
    (index : Int) (cs : List Citation) : RefusesOnly P (p.checkClosure index cs) := by
  induction cs generalizing index with
  | nil => exact refusesOnly_ok ()
  | cons c cs ih =>
    rw [checkClosure]
    split
    · exact ih (index + 1)
    · refine (refusesOnly_lift _).bind fun found _ => ?_
      split
      · exact refusesOnly_refuse (hleak _ _ _) _
      · exact ih (index + 1)

theorem present_refusals (cs : List Citation) (ms : List (Option Material)) :
    RefusesOnly P (present cs ms) := by
  refine refusesOnly_mapM (fun pair => ?_) _
  obtain ⟨c, m⟩ := pair
  cases m with
  | none => exact refusesOnly_missing _
  | some m => exact refusesOnly_ok m

section Ordinary

variable (hP : ∀ c : CheckCause, c.isOrdinary = true → P c)
include hP

/-! ## Steps -/

section Steps

variable (p : Pass) (n : Nat) (index : Int)

theorem resolveWithin_refusals (t : Nat) : RefusesOnly P (p.resolveWithin n index t) := by
  unfold resolveWithin
  refine (refusesOnly_lift _).bind fun there _ => (refusesOnly_lift _).bind fun here _ => ?_
  refine (refusesOnly_lift _).bind fun visible _ => ?_
  split
  · split
    · exact refusesOnly_ok ()
    · exact refusesOnly_refuse (hP _ rfl) _
  · split
    · exact refusesOnly_refuse (hP _ rfl) _
    · exact refusesOnly_refuse (hP _ rfl) _

theorem resolveAcross_refusals (t : Nat) : RefusesOnly P (p.resolveAcross n index t) := by
  unfold resolveAcross
  refine (refusesOnly_lift _).bind fun home _ => (refusesOnly_lift _).bind fun hypotheses _ => ?_
  split
  · exact refusesOnly_refuse (hP _ rfl) _
  · split
    · exact refusesOnly_refuse (hP _ rfl) _
    · refine (refusesOnly_lift _).bind fun here _ => (refusesOnly_lift _).bind fun there _ => ?_
      split
      · exact refusesOnly_ok ()
      · split
        · exact refusesOnly_refuse (hP _ rfl) _
        · exact refusesOnly_refuse (hP _ rfl) _

theorem resolveSubproof_refusals (c : Citation) : RefusesOnly P (p.resolveSubproof n index c) := by
  unfold resolveSubproof
  split
  · exact refusesOnly_refuse (hP _ rfl) _
  · rw [if_pos (Int.natCast_nonneg n)]
    refine (refusesOnly_lift _).bind fun visible _ => ?_
    dsimp only
    split
    · refine (refusesOnly_lift _).bind fun around _ => (refusesOnly_lift _).bind fun here _ => ?_
      split
      · exact refusesOnly_lift _
      · exact refusesOnly_refuse (hP _ rfl) _
    · exact refusesOnly_refuse (hP _ rfl) _

theorem resolve_refusals (transfer : Transfer) (c : Citation) :
    RefusesOnly P (p.resolve n transfer index c) := by
  unfold resolve
  split
  · exact (resolveSubproof_refusals hP p n index c).bind fun _ _ => refusesOnly_ok _
  · dsimp only
    split
    · exact refusesOnly_refuse (hP _ rfl) _
    · split
      · exact refusesOnly_refuse (hP _ rfl) _
      · cases transfer with
        | within =>
          exact (resolveWithin_refusals hP p n index c.start).bind fun _ _ =>
            (refusesOnly_lift _).bind fun _ _ => refusesOnly_ok _
        | across =>
          exact (resolveAcross_refusals hP p n index c.start).bind fun _ _ =>
            (refusesOnly_lift _).bind fun _ _ => refusesOnly_ok _

theorem resolveAll_refusals (transfer : Transfer) (cs : List Citation) :
    RefusesOnly P (p.resolveAll n transfer index cs) := by
  induction cs generalizing index with
  | nil => exact refusesOnly_ok []
  | cons c cs ih =>
    exact (resolve_refusals hP p n index transfer c).bind fun _ _ =>
      (ih (index + 1)).bind fun _ _ => refusesOnly_ok _

theorem checkDependencies_refusals (done : List Diagnostic) (cs : List Citation) :
    RefusesOnly P (checkDependencies done index cs) := by
  induction cs generalizing index with
  | nil => exact refusesOnly_ok ()
  | cons c cs ih =>
    refine (refusesOnly_lift _).bind fun found _ => ?_
    split
    · exact refusesOnly_refuse (hP _ rfl) _
    · exact ih (index + 1)

end Steps

theorem apply_refusals (d : RuleDefinition) (ms : List Material) (s : Sentence) :
    RefusesOnly P ((d.apply ms s).mapError .refused) := by
  intro e h
  cases happ : d.apply ms s with
  | ok b =>
    rw [happ] at h
    cases h
  | error e' =>
    rw [happ] at h
    cases h
    apply hP
    obtain hcause | hcause | ⟨expected, hcause⟩ := RuleDefinition.apply_cause happ <;>
      rw [hcause] <;> rfl

/-! ## Lines -/

section Lines

variable {p : Pass} {done : List Diagnostic}
  (hclosure : ∀ cs, checkDependencies done 0 cs = .ok () → RefusesOnly P (p.checkClosure 0 cs))

include hclosure in
theorem applyDefinition_refusals (n : Nat) (s : Sentence) (cs : List Citation) (d : RuleDefinition) :
    RefusesOnly P (p.applyDefinition done n s cs d) := by
  unfold applyDefinition
  refine (resolveAll_refusals hP p n 0 d.transfer cs).bind fun resolved _ => ?_
  refine (checkDependencies_refusals hP 0 done cs).bind fun _ hdep => ?_
  refine (present_refusals cs resolved).bind fun materials _ => ?_
  refine (apply_refusals hP d materials s).bind fun _ _ => ?_
  split
  · exact hclosure cs hdep
  · exact refusesOnly_ok ()

omit hP in
theorem applyFirst_refusals (n : Nat) (s : Sentence) (cs : List Citation) {reason : CheckError}
    (hreason : P reason.cause) (ds : List RuleDefinition) :
    RefusesOnly P (p.applyFirst done n s cs reason ds) := by
  induction ds with
  | nil => exact refusesOnly_refuse hreason reason.index
  | cons d ds ih =>
    rw [applyFirst]
    split
    · exact refusesOnly_ok _
    · exact ih
    · exact refusesOnly_missing _

include hclosure in
theorem judgeDefinitions_refusals (n : Nat) (s : Sentence) (j : Justification) (rule : RuleId) :
    RefusesOnly P (p.judgeDefinitions done n s j rule) := by
  unfold judgeDefinitions
  split
  · exact refusesOnly_refuse (hP _ rfl) _
  · rename_i d ds _
    split
    · exact refusesOnly_ok _
    · rename_i e he
      exact applyFirst_refusals n s j.citations
        (applyDefinition_refusals hP hclosure n s j.citations d e he) ds
    · exact refusesOnly_missing _

theorem judgePremise_refusals (n : Nat) (l : Line) : RefusesOnly P (p.judgePremise n l) := by
  unfold judgePremise
  split
  · exact refusesOnly_refuse (hP _ rfl) _
  · split
    · exact refusesOnly_ok _
    · split
      · exact refusesOnly_refuse (hP _ rfl) _
      · split
        · exact refusesOnly_ok _
        · exact refusesOnly_refuse (hP _ rfl) _

theorem judgeMarker_refusals {l : Line}
    (hlabel : ∀ label, l.ruleLabel? = some label → P (.markerRule label)) :
    RefusesOnly P (judgeMarker l) := by
  unfold judgeMarker
  split
  · exact refusesOnly_refuse (hP _ rfl) _
  · split
    · exact refusesOnly_ok _
    · exact refusesOnly_refuse (hP _ rfl) _
    · rename_i j hj
      split
      · exact refusesOnly_refuse (hlabel j.rule (by rw [Line.ruleLabel?, hj]; rfl)) _
      · split
        · exact refusesOnly_refuse (hP _ rfl) _
        · exact refusesOnly_ok _

include hclosure in
theorem judgeRule_refusals (n : Nat) (l : Line) (s : Sentence) (j : Justification) :
    RefusesOnly P (p.judgeRule done n l s j) := by
  unfold judgeRule
  split
  · exact refusesOnly_refuse (hP _ rfl) _
  · exact judgePremise_refusals hP n l
  · split
    · exact refusesOnly_refuse (hP _ rfl) _
    · split
      · exact refusesOnly_ok _
      · exact judgeDefinitions_refusals hP hclosure n s j _

include hclosure in
theorem judge_refusals (n : Nat) {l : Line}
    (hlabel : ∀ label, l.ruleLabel? = some label → P (.markerRule label)) :
    RefusesOnly P (p.judge done n l) := by
  unfold judge
  split
  · exact refusesOnly_refuse (hP _ rfl) _
  · exact judgeMarker_refusals hP hlabel
  · split
    · split
      · exact refusesOnly_ok _
      · exact refusesOnly_refuse (hP _ rfl) _
    · exact refusesOnly_refuse (hP _ rfl) _
    · exact judgeRule_refusals hP hclosure n l _ _

end Lines

end Ordinary

end Pass

end ModalFitch
