import ModalFitch.Proofs.Legibility
import ModalFitch.Proofs.Placement

/-! The rule for depths, and the first line that breaks it.

Lines are laid out on a stack of open scopes with the main proof at its bottom. A line is compared
with the scope on top, and scopes are taken off one by one until the line has its place. The scope on
top is always at the depth of the line before, so the rule for a line speaks of that line only; and a
line that keeps the rule leaves the main proof on the stack.

A line that breaks the rule is named in a message with its depth. Depths have no bound, but written
numbers have, so the message itself may fail.

* `NestingError.Writable`: the numbers of a message can be written.
* `Line.objection`: what is said of a line that breaks the rule.
* `Layout.chains_error_iff`: the lines fail at the first one that breaks the rule.
* `Layout.unwind`: scopes taken off a stack, which may run empty.
* `FirstMisfit`: the first line that breaks the rule.
* `nesting_exact`: which lists of lines nest, and how the others fail. -/

namespace ModalFitch
set_option autoImplicit false

/-! ## Messages that can be written -/

namespace Text

/-- Numbers are written one by one, up to the first that is too long. -/
theorem mapM_textOfInt_cases (ns : List Int) :
    ((∀ n ∈ ns, n.natAbs < 10 ^ maxDigits) ∧ ∃ texts, ns.mapM textOfInt = .ok texts) ∨
      (¬(∀ n ∈ ns, n.natAbs < 10 ^ maxDigits) ∧ ns.mapM textOfInt = .error .unwritable) := by
  induction ns with
  | nil => exact .inl ⟨by simp, [], rfl⟩
  | cons n ns ih =>
    rw [List.forall_mem_cons, List.mapM_cons]
    rcases textOfInt_cases n with ⟨hn, s, hs⟩ | ⟨hn, hs⟩
    · rw [hs]
      rcases ih with ⟨hns, texts, htexts⟩ | ⟨hns, hfails⟩
      · exact .inl ⟨⟨hn, hns⟩, s :: texts, by rw [htexts]; rfl⟩
      · exact .inr ⟨fun h => hns h.2, by rw [hfails]; rfl⟩
    · exact .inr ⟨fun h => hn h.1, by rw [hs]; rfl⟩

end Text

namespace NestingError

/-- The numbers of the message can be written. -/
def Writable (e : NestingError) : Prop := ∀ n ∈ e.numbers, n.natAbs < 10 ^ Text.maxDigits

theorem raised_cases (e : NestingError) :
    (e.Writable ∧ e.raised = .misfit e) ∨ (¬e.Writable ∧ e.raised = .numeral .unwritable) := by
  unfold raised Writable
  rcases Text.mapM_textOfInt_cases e.numbers with ⟨hall, texts, htexts⟩ | ⟨hnot, hfails⟩
  · exact .inl ⟨hall, by rw [htexts]⟩
  · exact .inr ⟨hnot, by rw [hfails]⟩

theorem raised_misfit_iff {e e' : NestingError} :
    e.raised = .misfit e' ↔ e' = e ∧ e.Writable := by
  rcases e.raised_cases with ⟨hw, he⟩ | ⟨hw, he⟩
  · simp [he, hw, eq_comm]
  · simp [he, hw]

theorem raised_numeral_iff {e : NestingError} {x : Text.NumeralError} :
    e.raised = .numeral x ↔ x = .unwritable ∧ ¬e.Writable := by
  rcases e.raised_cases with ⟨hw, he⟩ | ⟨hw, he⟩
  · simp [he, hw]
  · simp [he, hw, eq_comm]

end NestingError

/-! ## The first line that does not fit -/

/-- What is said of a line that does not fit after a line of a given depth. -/
def Line.objection (l : Line) (number : Nat) (before : Int) : NestingError :=
  if l.depth < 0 then .negative number l.depth
  else if l.opens.isNone then .unopened number l.depth
  else if l.depth < 1 then .opensAtRoot number
  else .jump number before l.depth

theorem fits_iff_follows {before : Int} {lines : List Line} : Fits before lines ↔
    ∀ (i : Nat) (l : Line), lines[i]? = some l → l.Follows (depthAfter before (lines.take i)) := by
  constructor
  · exact fun h i l hl => h.follows hl
  · intro h
    induction lines generalizing before with
    | nil => trivial
    | cons l rest ih =>
      refine ⟨h 0 l rfl, ih fun i m hm => ?_⟩
      have hfollows := h (i + 1) m hm
      rwa [List.take_succ_cons, depthAfter_cons] at hfollows

theorem fits_take_iff {before : Int} {lines : List Line} {k : Nat} : Fits before (lines.take k) ↔
    ∀ (i : Nat) (l : Line), i < k → lines[i]? = some l →
      l.Follows (depthAfter before (lines.take i)) := by
  rw [fits_iff_follows]
  refine forall_congr' fun i => forall_congr' fun l => ?_
  rw [List.getElem?_take]
  by_cases hi : i < k
  · rw [if_pos hi, List.take_take, Nat.min_eq_left (Nat.le_of_lt hi)]
    exact ⟨fun h _ hl => h hl, fun h hl => h hi hl⟩
  · rw [if_neg hi]
    exact ⟨fun _ h => absurd h hi, fun _ h => by cases h⟩

namespace Layout

theorem step_objection {p : Layout} {n : Nat} {l : Line} {x : NestingFailure}
    (h : p.step n l = .error x) : x = (l.objection n p.depth).raised := by
  unfold step at h
  unfold Line.objection
  split at h
  · rename_i h0
    rw [if_pos h0]
    exact (Except.error.inj h).symm
  · rename_i h0
    rw [if_neg h0]
    cases ho : l.opens with
    | none =>
      simp only [ho] at h
      split at h
      · exact (Except.error.inj h).symm
      · cases h
    | some kind =>
      simp only [ho] at h
      rw [if_neg (by simp)]
      split at h
      · rename_i h1
        rw [if_pos h1]
        exact (Except.error.inj h).symm
      · rename_i h1
        rw [if_neg h1]
        split at h
        · exact (Except.error.inj h).symm
        · cases h

theorem step_error_iff {p : Layout} {n : Nat} {l : Line} {x : NestingFailure} :
    p.step n l = .error x ↔ ¬ l.Follows p.depth ∧ x = (l.objection n p.depth).raised := by
  constructor
  · intro h
    refine ⟨fun hfollows => ?_, step_objection h⟩
    obtain ⟨q, hq⟩ := step_iff_follows (n := n).mpr hfollows
    rw [hq] at h
    cases h
  · rintro ⟨hmisfit, rfl⟩
    cases hstep : p.step n l with
    | error e => rw [step_objection hstep]
    | ok q => exact absurd (step_iff_follows.mp ⟨q, hstep⟩) hmisfit

theorem chains_cons_error {p : Layout} {n : Nat} {l : Line} {rest : List Line}
    {x : NestingFailure} :
    p.chains n (l :: rest) = .error x ↔
      p.step n l = .error x ∨ ∃ q, p.step n l = .ok q ∧ q.chains (n + 1) rest = .error x := by
  rw [chains, bind_error]
  refine or_congr_right (exists_congr fun q => and_congr_right fun _ => ?_)
  rw [bind_error]
  refine ⟨fun h => h.resolve_right ?_, .inl⟩
  rintro ⟨cs, -, h⟩
  cases h

/-- The lines fail at the first one that does not fit after the line before it. -/
theorem chains_error_iff {p : Layout} (hp : p.Ordered) {n : Nat} {lines : List Line}
    {x : NestingFailure} :
    p.chains n lines = .error x ↔ ∃ (i : Nat) (l : Line), lines[i]? = some l ∧
      Fits p.depth (lines.take i) ∧ ¬ l.Follows (depthAfter p.depth (lines.take i)) ∧
      x = (l.objection (n + i) (depthAfter p.depth (lines.take i))).raised := by
  induction lines generalizing p n with
  | nil => simp [chains]
  | cons l rest ih =>
    rw [chains_cons_error, step_error_iff]
    constructor
    · rintro (⟨hmisfit, rfl⟩ | ⟨q, hq, hrest⟩)
      · exact ⟨0, l, rfl, trivial, hmisfit, rfl⟩
      · obtain ⟨hordered, hdepth⟩ := hp.step_depth hq
        obtain ⟨i, m, hm, hfits, hmisfit, rfl⟩ := (ih hordered).mp hrest
        rw [hdepth] at hfits hmisfit ⊢
        refine ⟨i + 1, m, hm, ⟨step_iff_follows.mp ⟨q, hq⟩, hfits⟩, ?_, ?_⟩
        · rwa [List.take_succ_cons, depthAfter_cons]
        · rw [List.take_succ_cons, depthAfter_cons, Nat.add_right_comm, Nat.add_assoc]
    · rintro ⟨i, m, hm, hfits, hmisfit, rfl⟩
      cases i with
      | zero =>
        cases hm
        exact .inl ⟨hmisfit, rfl⟩
      | succ i =>
        rw [List.take_succ_cons, depthAfter_cons] at hmisfit
        obtain ⟨q, hq⟩ := step_iff_follows (n := n).mpr hfits.1
        obtain ⟨hordered, hdepth⟩ := hp.step_depth hq
        refine .inr ⟨q, hq, (ih hordered).mpr ⟨i, m, hm, ?_⟩⟩
        rw [hdepth, List.take_succ_cons, depthAfter_cons, Nat.add_right_comm, Nat.add_assoc]
        exact ⟨hfits.2, hmisfit, rfl⟩

/-! ## The stack with the main proof on it -/

/-- The open scopes, innermost first and the main proof last. -/
def scopes (p : Layout) : List OpenScope := p.stack ++ [⟨0, 0⟩]

/-- Takes scopes off a stack, one by one, while the one on top is to be closed. There is no result if
the stack runs empty. -/
def unwind (closed : OpenScope → Bool) : List OpenScope → Option (List OpenScope)
  | [] => none
  | s :: rest => if closed s then unwind closed rest else some (s :: rest)

theorem unwind_concat {closed : OpenScope → Bool} (stack : List OpenScope) {s : OpenScope}
    (hs : closed s = false) : unwind closed (stack ++ [s]) = some (stack.dropWhile closed ++ [s]) := by
  induction stack with
  | nil => simp [unwind, hs]
  | cons x stack ih =>
    rw [List.cons_append, unwind, List.dropWhile_cons]
    split
    · exact ih
    · rfl

theorem head_scopes (p : Layout) : p.scopes.head?.map OpenScope.depth = some p.depth := by
  unfold scopes depth
  cases p.stack <;> rfl

end Layout

/-- Whether a scope is closed before a line: a line that opens a subproof closes those at its depth
too. -/
def Line.closes (l : Line) (s : OpenScope) : Bool :=
  if l.opens.isSome then l.depth ≤ s.depth else l.depth < s.depth

/-- The scope that a line opens, with the given number. -/
def Line.opened (l : Line) (id : Nat) : List OpenScope := if l.opens.isSome then [⟨id, l.depth⟩] else []

/-- A line that fits finds its place on the stack before the stack runs empty. -/
theorem Layout.step_unwinds {p q : Layout} {n : Nat} {l : Line} (h : p.step n l = .ok q) :
    ∃ around, unwind l.closes p.scopes = some around ∧ q.scopes = l.opened p.count ++ around := by
  obtain ⟨kind, around, ho, h1, -, rfl, rfl⟩ | ⟨around, ho, h1, -, rfl, rfl⟩ := step_cases h
  · have hcloses : l.closes = fun s => decide (l.depth ≤ s.depth) := by
      funext s
      simp [Line.closes, ho]
    refine ⟨_, unwind_concat p.stack ?_, ?_⟩
    · rw [hcloses, decide_eq_false_iff_not]
      exact Int.not_le.mpr h1
    · simp [scopes, Line.opened, ho, hcloses]
  · have hcloses : l.closes = fun s => decide (l.depth < s.depth) := by
      funext s
      simp [Line.closes, ho]
    refine ⟨_, unwind_concat p.stack ?_, ?_⟩
    · simpa [hcloses] using h1
    · simp [scopes, Line.opened, ho, hcloses]

/-- Before each line, the scope on top of the stack is at the depth of the line before it. -/
theorem Layout.Trace.depth_eq {lines : List Line} {f : Nat → Layout} (t : Trace lines f) {i : Nat}
    (hi : i ≤ lines.length) : (f i).depth = depthAfter 0 (lines.take i) := by
  cases i with
  | zero => rw [t.start]; rfl
  | succ i =>
    have hl : lines[i]? = some lines[i] := List.getElem?_eq_getElem hi
    rw [depthAfter_take_succ 0 hl]
    exact ((t.ordered (Nat.le_of_lt hi)).step_depth (t.step i _ hl)).2

/-! ## Lists of lines -/

/-- The first of the lines that does not fit after the line before it. -/
structure FirstMisfit (lines : List Line) (i : Nat) (l : Line) : Prop where
  line : lines[i]? = some l
  misfit : ¬l.Follows (depthAfter 0 (lines.take i))
  earlier : ∀ (j : Nat) (m : Line), j < i → lines[j]? = some m →
    m.Follows (depthAfter 0 (lines.take j))

/-- What is said of the line with an index. -/
def objectionAt (lines : List Line) (i : Nat) (l : Line) : NestingError :=
  l.objection (i + 1) (depthAfter 0 (lines.take i))

theorem Outline.build_error_iff {lines : List Line} {goal : Option Goal} {revision : Nat}
    {x : NestingFailure} : Outline.build lines goal revision = .error x ↔
      ∃ (i : Nat) (l : Line), FirstMisfit lines i l ∧ (objectionAt lines i l).raised = x := by
  have hchains : Outline.build lines goal revision = .error x ↔
      Layout.start.chains 1 lines = .error x := by
    unfold Outline.build
    rw [bind_error]
    refine ⟨fun h => h.resolve_right ?_, .inl⟩
    rintro ⟨cs, -, h⟩
    cases h
  rw [hchains, Layout.chains_error_iff Layout.start_ordered, show Layout.start.depth = 0 from rfl]
  refine exists_congr fun i => exists_congr fun l => ?_
  rw [fits_take_iff, Nat.add_comm 1 i]
  constructor
  · rintro ⟨hl, hearlier, hmisfit, rfl⟩
    exact ⟨⟨hl, hmisfit, hearlier⟩, rfl⟩
  · rintro ⟨⟨hl, hmisfit, hearlier⟩, rfl⟩
    exact ⟨hl, hearlier, hmisfit, rfl⟩

/-- Each line goes down by one level at most. -/
theorem Fits.depthAfter_le {before : Int} {lines : List Line} (h : Fits before lines) :
    depthAfter before lines ≤ before + lines.length := by
  induction lines generalizing before with
  | nil => simp [depthAfter]
  | cons l rest ih =>
    have hrest := ih h.2
    have hl : l.depth ≤ before + 1 := by
      have hfollows := h.1
      unfold Line.Follows at hfollows
      split at hfollows <;> omega
    rw [depthAfter_cons, List.length_cons]
    push_cast
    omega

/-- In a list of no more lines than can be numbered, the message on the first line that does not fit
fails only for the depth of that line. -/
theorem FirstMisfit.writable_iff {lines : List Line} {i : Nat} {l : Line}
    (h : FirstMisfit lines i l) (hlen : lines.length < 10 ^ Text.maxDigits) :
    (objectionAt lines i l).Writable ↔ l.depth.natAbs < 10 ^ Text.maxDigits := by
  obtain ⟨hi, -⟩ := List.getElem?_eq_some_iff.mp h.line
  have hfits : Fits 0 (lines.take i) := fits_take_iff.mpr h.earlier
  have hnonneg := hfits.depthAfter_nonneg
  have hle := hfits.depthAfter_le
  rw [List.length_take_of_le (Nat.le_of_lt hi)] at hle
  generalize hbound : 10 ^ Text.maxDigits = bound at hlen ⊢
  have hbefore : (depthAfter 0 (lines.take i)).natAbs < bound := by omega
  have hnumber : ((i : Int) + 1).natAbs < bound := by omega
  unfold NestingError.Writable objectionAt Line.objection
  rw [hbound]
  split
  · simp [NestingError.numbers, hnumber]
  · split
    · simp [NestingError.numbers, hnumber]
    · split
      · have hzero : l.depth.natAbs < bound := by omega
        simp [NestingError.numbers, hnumber, hzero]
      · simp [NestingError.numbers, hnumber, hbefore]

/-- Lines nest if and only if each of them fits after the line before it, the first after depth zero.
Otherwise the first line that does not fit is named, with what is wrong about it, unless a number of
this message is too long to be written; in a list of fewer than `10 ^ maxDigits` lines that can only be
the depth of the line. Up to there, and to the end where all fit, the stack of the open scopes has the
depth of the line before on top, and taking scopes off it for a line never empties it. -/
theorem nesting_exact (lines : List Line) (goal : Option Goal) (revision : Nat) :
    ((∃ o, Outline.build lines goal revision = .ok o) ↔
      ∀ (i : Nat) (l : Line), lines[i]? = some l → l.Follows (depthAfter 0 (lines.take i))) ∧
    (∀ e, Outline.build lines goal revision = .error (.misfit e) ↔
      ∃ (i : Nat) (l : Line), FirstMisfit lines i l ∧ e = objectionAt lines i l ∧ e.Writable) ∧
    (∀ x, Outline.build lines goal revision = .error (.numeral x) ↔ x = .unwritable ∧
      ∃ (i : Nat) (l : Line), FirstMisfit lines i l ∧ ¬(objectionAt lines i l).Writable) ∧
    (∀ (i : Nat) (l : Line), FirstMisfit lines i l → lines.length < 10 ^ Text.maxDigits →
      ((objectionAt lines i l).Writable ↔ l.depth.natAbs < 10 ^ Text.maxDigits)) ∧
    ∀ k ≤ lines.length,
      (∀ (i : Nat) (l : Line), i < k → lines[i]? = some l → l.Follows (depthAfter 0 (lines.take i))) →
      ∃ f, Layout.Trace (lines.take k) f ∧ ∀ (i : Nat) (l : Line), i < k → lines[i]? = some l →
        (f i).scopes.head?.map OpenScope.depth = some (depthAfter 0 (lines.take i)) ∧
        ∃ around, Layout.unwind l.closes (f i).scopes = some around ∧
          (f (i + 1)).scopes = l.opened (f i).count ++ around := by
  refine ⟨Outline.build_iff_fits.trans fits_iff_follows, fun e => ?_, fun x => ?_,
    fun i l h hlen => h.writable_iff hlen, fun k hk hfits => ?_⟩
  · rw [Outline.build_error_iff]
    refine exists_congr fun i => exists_congr fun l => and_congr_right fun _ => ?_
    rw [NestingError.raised_misfit_iff]
    refine and_congr_right ?_
    rintro rfl
    rfl
  · rw [Outline.build_error_iff]
    simp only [NestingError.raised_numeral_iff]
    constructor
    · rintro ⟨i, l, hfirst, hx, hnot⟩
      exact ⟨hx, i, l, hfirst, hnot⟩
    · rintro ⟨hx, i, l, hfirst, hnot⟩
      exact ⟨i, l, hfirst, hx, hnot⟩
  · have hbuild : ∃ o, Outline.build (lines.take k) goal revision = .ok o :=
      Outline.build_iff_fits.mpr (fits_take_iff.mpr hfits)
    obtain ⟨o, ho⟩ := hbuild
    obtain ⟨hnested, hlines, -, -⟩ := Outline.build_cases ho
    obtain ⟨f, along⟩ := hnested.along
    have t := along.trace
    rw [hlines] at t
    refine ⟨f, t, fun i l hi hl => ?_⟩
    have hlen : (lines.take k).length = k := List.length_take_of_le hk
    have hdepth := t.depth_eq (i := i) (by omega)
    rw [List.take_take, Nat.min_eq_left (Nat.le_of_lt hi)] at hdepth
    rw [Layout.head_scopes, hdepth]
    exact ⟨rfl, Layout.step_unwinds (t.step i l (by rw [List.getElem?_take, if_pos hi, hl]))⟩

/-- A premise whose depth cannot be written does not fit, and yet it is not named. -/
theorem misfit_unnamed : ∃ l, Line.create "P" "PR" (10 ^ Text.maxDigits) none = .ok l ∧
    FirstMisfit [l] 0 l ∧ Outline.build [l] none 0 = .error (.numeral .unwritable) := by
  obtain ⟨l, hl, hshape⟩ := exists_ok (x := Line.create "P" "PR" (10 ^ Text.maxDigits) none)
    (p := fun l => l.opens = none && l.depth = 10 ^ Text.maxDigits) (by decide +kernel)
  rw [Bool.and_eq_true, decide_eq_true_iff, decide_eq_true_iff] at hshape
  obtain ⟨hopens, hdepth⟩ := hshape
  have hpos : (0 : Int) < 10 ^ Text.maxDigits := Int.pow_pos (by decide)
  have hfirst : FirstMisfit [l] 0 l := by
    refine ⟨rfl, fun hfollows => ?_, fun j m hj => absurd hj (Nat.not_lt_zero j)⟩
    rw [Line.Follows, hopens] at hfollows
    have hle : l.depth ≤ 0 := hfollows.2
    rw [hdepth] at hle
    exact Int.not_le.mpr hpos hle
  refine ⟨l, hl, hfirst, Outline.build_error_iff.mpr ⟨0, l, hfirst, ?_⟩⟩
  refine NestingError.raised_numeral_iff.mpr ⟨rfl, fun hwritable => ?_⟩
  have hshort := (hfirst.writable_iff (Nat.one_lt_pow (by decide) (by decide))).mp hwritable
  have hpow : ∀ k : Nat, ((10 : Int) ^ k).natAbs = 10 ^ k := fun k => Int.natAbs_pow 10 k
  rw [hdepth, hpow] at hshort
  exact Nat.lt_irrefl _ hshort

end ModalFitch
