import Mathlib.Data.List.Range
import ModalFitch.Proofs.Editing
import ModalFitch.Proofs.Renumbering

/-! Where the lines of a document go when lines are inserted or removed, and what becomes of the
citations that name them.

* `Change.destination`: the new number of a line after a change.
* `Document.WellFormed`: the outline is that of its lines, and each justification is what its text
  says. Edits keep it.
* `Document.edit_relocates`: an insertion or a removal renumbers each line that stays, and puts it at
  its destination.
* `Document.edit_announces`: which change each edit announces.
* `citations_follow_lines`: the citations of a line that stays name the same lines as before, or it
  is said which of them has lost one. -/

namespace ModalFitch
set_option autoImplicit false

/-! ## Lines and their texts -/

namespace Line

/-- What a line shows apart from its justification. -/
def frame (l : Line) : Text × Int × Option ScopeKind := (l.sentenceText, l.depth, l.opens)

/-- The justification is what its text says. -/
def Faithful (l : Line) : Prop :=
  Justification.read l.justificationText = l.justification.mapError .malformed

theorem create_faithful {s j : Text} {depth : Int} {kind : Option ScopeKind} {l : Line}
    (h : create s j depth kind = .ok l) : l.Faithful ∧ l.justificationText = j := by
  unfold create at h
  split at h
  · rename_i hread
    cases h
    exact ⟨hread, rfl⟩
  · rename_i hread
    cases h
    exact ⟨hread, rfl⟩
  · cases h

theorem createLines_faithful (rows : List (Text × Text × Int × Option ScopeKind)) :
    ∀ l ∈ createLines rows, l.Faithful := by
  intro l hl
  obtain ⟨s, j, depth, kind, -, hc⟩ := mem_createLines hl
  exact (create_faithful hc).1

theorem withJustification_faithful {l l' : Line} {text : Text}
    (h : l.withJustification text = .ok l') :
    l'.Faithful ∧ l'.justificationText = text ∧ l'.frame = l.frame := by
  unfold withJustification at h
  split at h
  · rename_i hread
    cases h
    exact ⟨hread, rfl, rfl⟩
  · rename_i hread
    cases h
    exact ⟨hread, rfl, rfl⟩
  · cases h

theorem withSentence_justificationText (l : Line) (text : Text) :
    (l.withSentence text).justificationText = l.justificationText := by
  unfold withSentence
  dsimp only
  split <;> rfl

theorem withSentence_faithful {l : Line} (hl : l.Faithful) (text : Text) :
    (l.withSentence text).Faithful := by
  unfold Faithful
  rw [withSentence_justificationText, (l.withSentence_justification text).1]
  exact hl

end Line

/-- A renumbered line has the renumbered text of its justification, and shows the rest as before. -/
theorem Document.renumberLine_cases {shift : Nat → Option Int} {l l' : Line}
    (h : renumberLine shift l = .ok l') :
    (l.Faithful → l'.Faithful) ∧ l'.frame = l.frame ∧ ∃ out,
      Justification.renumber shift l.justificationText = .ok out ∧
      l'.justificationText = out.getD l.justificationText := by
  unfold renumberLine at h
  obtain ⟨out, hout, h⟩ := bind_ok.mp h
  cases out with
  | none =>
    cases h
    exact ⟨id, rfl, none, hout, rfl⟩
  | some text =>
    obtain ⟨hfaithful, htext, hframe⟩ := Line.withJustification_faithful h
    exact ⟨fun _ => hfaithful, hframe, some text, hout, htext⟩

/-! ## Edits in full -/

theorem mapM_forall₂ {ε α β : Type} {f : α → Except ε β} {xs : List α} {ys : List β}
    (h : xs.mapM f = .ok ys) : List.Forall₂ (fun x y => f x = .ok y) xs ys := by
  induction xs generalizing ys with
  | nil =>
    cases h
    exact .nil
  | cons x xs ih =>
    rw [List.mapM_cons] at h
    obtain ⟨y, hy, h⟩ := bind_ok.mp h
    obtain ⟨rest, hrest, h⟩ := bind_ok.mp h
    cases h
    exact .cons hy (ih hrest)

theorem forall₂_getElem? {α β : Type} {R : α → β → Prop} {xs : List α} {ys : List β}
    (h : List.Forall₂ R xs ys) (i : Nat) : Option.Rel R xs[i]? ys[i]? := by
  induction h generalizing i with
  | nil => exact .none
  | cons hxy _ ih =>
    cases i with
    | zero => exact .some hxy
    | succ i => simpa using ih i

theorem exists_of_rel {α β : Type} {R : α → β → Prop} {a : α} {found : Option β}
    (h : Option.Rel R (some a) found) : ∃ b, found = some b ∧ R a b := by
  cases h with
  | some hab => exact ⟨_, rfl, hab⟩

namespace Document

theorem commit_iff {d d' : Document} {lines : List Line} {kind : ChangeKind} {numbers : List Nat}
    {change : Change} : d.commit lines kind numbers = .ok (d', change) ↔
      Outline.build lines d.goal (d.revision + 1) = .ok d'.outline ∧ d'.goal = d.goal ∧
        change = ⟨kind, numbers, d.revision + 1⟩ := by
  constructor
  · intro h
    unfold commit at h
    obtain ⟨o, ho, h⟩ := bind_ok.mp h
    cases h
    have hbuild := mapError_ok.mp ho
    refine ⟨hbuild, rfl, ?_⟩
    rw [(Outline.build_cases hbuild).2.2.2]
  · rintro ⟨hbuild, hgoal, rfl⟩
    unfold commit
    refine bind_ok.mpr ⟨d'.outline, mapError_ok.mpr hbuild, ?_⟩
    rw [(Outline.build_cases hbuild).2.2.2, ← hgoal]
    rfl

theorem isPosition_iff {d : Document} {position : Int} :
    d.isPosition position = true ↔ 1 ≤ position ∧ position ≤ d.size + 1 := by
  unfold isPosition
  rw [Bool.and_eq_true, decide_eq_true_iff, decide_eq_true_iff]

/-- The lines with one more at a position, which counts from one. -/
def inserted (lines : List Line) (p : Nat) (l : Line) : List Line :=
  lines.take (p - 1) ++ l :: lines.drop (p - 1)

/-- The lines without those from `first` to `last`. -/
def remaining (lines : List Line) (first last : Nat) : List Line :=
  lines.take (first - 1) ++ lines.drop last

theorem insert_iff {d d' : Document} {position : Int} {l : Line} {change : Change} :
    d.insert position l = .ok (d', change) ↔ (1 ≤ position ∧ position ≤ d.size + 1) ∧
      ∃ moved, d.lines.mapM (renumberLine (shiftInsert position.toNat)) = .ok moved ∧
        Outline.build (inserted moved position.toNat l) d.goal (d.revision + 1) = .ok d'.outline ∧
        d'.goal = d.goal ∧ change = ⟨.insert, [position.toNat], d.revision + 1⟩ := by
  rw [← isPosition_iff]
  unfold insert
  split
  · rename_i hp
    constructor
    · intro h
      obtain ⟨moved, hmoved, h⟩ := bind_ok.mp h
      exact ⟨hp, moved, mapError_ok.mp hmoved, commit_iff.mp h⟩
    · rintro ⟨-, moved, hmoved, h⟩
      exact bind_ok.mpr ⟨moved, mapError_ok.mpr hmoved, commit_iff.mpr h⟩
  · rename_i hp
    constructor
    · intro h
      cases h
    · intro h
      exact absurd h.1 hp

theorem remove_iff {d d' : Document} {number : Int} {change : Change} {removed : List Nat} :
    d.remove number = .ok (d', change, removed) ↔ (1 ≤ number ∧ number ≤ d.size) ∧
      ∃ first last moved, removalRange d.outline number.toNat = .ok (first, last) ∧
        (remaining d.lines first last).mapM (renumberLine (shiftRemove first last)) = .ok moved ∧
        Outline.build moved d.goal (d.revision + 1) = .ok d'.outline ∧ d'.goal = d.goal ∧
        removed = List.range' first (last + 1 - first) ∧
        change = ⟨.remove, removed, d.revision + 1⟩ := by
  unfold remove
  split
  · rename_i hn
    rw [Bool.and_eq_true, decide_eq_true_iff, decide_eq_true_iff] at hn
    constructor
    · intro h
      obtain ⟨⟨first, last⟩, hrange, h⟩ := bind_ok.mp h
      obtain ⟨moved, hmoved, h⟩ := bind_ok.mp h
      obtain ⟨⟨d₁, change₁⟩, hcommit, h⟩ := bind_ok.mp h
      cases h
      obtain ⟨hbuild, hgoal, hchange⟩ := commit_iff.mp hcommit
      exact ⟨hn, first, last, moved, mapError_ok.mp hrange, mapError_ok.mp hmoved, hbuild, hgoal,
        rfl, hchange⟩
    · rintro ⟨-, first, last, moved, hrange, hmoved, hbuild, hgoal, rfl, hchange⟩
      refine bind_ok.mpr ⟨(first, last), mapError_ok.mpr hrange, ?_⟩
      refine bind_ok.mpr ⟨moved, mapError_ok.mpr hmoved, ?_⟩
      exact bind_ok.mpr ⟨(d', change), commit_iff.mpr ⟨hbuild, hgoal, hchange⟩, rfl⟩
  · rename_i hn
    rw [Bool.and_eq_true, decide_eq_true_iff, decide_eq_true_iff] at hn
    constructor
    · intro h
      cases h
    · intro h
      exact absurd h.1 hn

/-- What goes with a line: itself alone, or the subproof that it opens. -/
theorem removalRange_iff {o : Outline} (ho : o.Nested) {n first last : Nat} :
    removalRange o n = .ok (first, last) ↔ first = n ∧ ∃ l, o.line? n = some l ∧
      ((l.opens = none ∧ last = n) ∨
        ∃ s, l.opens = some s.kind ∧ o.scopeOf n = .ok s ∧ o.HasScope s ∧ s.id ≠ 0 ∧ s.first = n ∧
          s.last = last) := by
  unfold removalRange
  constructor
  · intro h
    obtain ⟨l, hl, h⟩ := bind_ok.mp h
    rw [Outline.line_ok] at hl
    cases hopens : l.opens with
    | none =>
      rw [hopens] at h
      cases h
      exact ⟨rfl, l, hl, .inl ⟨hopens, rfl⟩⟩
    | some kind =>
      rw [hopens] at h
      obtain ⟨s, hs, h⟩ := bind_ok.mp h
      cases h
      obtain ⟨s', hs', hhas, hid, hfirst, rfl⟩ := ho.opener hl hopens
      rw [hs] at hs'
      cases hs'
      exact ⟨hfirst, l, hl, .inr ⟨s, hopens, hs, hhas, hid, hfirst, rfl⟩⟩
  · rintro ⟨rfl, l, hl, ⟨hopens, rfl⟩ | ⟨s, hopens, hs, -, -, hfirst, hlast⟩⟩
    · refine bind_ok.mpr ⟨l, Outline.line_ok.mpr hl, ?_⟩
      rw [hopens]
      rfl
    · refine bind_ok.mpr ⟨l, Outline.line_ok.mpr hl, ?_⟩
      rw [hopens]
      refine bind_ok.mpr ⟨s, hs, ?_⟩
      rw [hfirst, hlast]
      rfl

theorem removalRange_bounds {o : Outline} (ho : o.Nested) {n first last : Nat}
    (h : removalRange o n = .ok (first, last)) : 1 ≤ first ∧ first ≤ last ∧ last ≤ o.size := by
  obtain ⟨rfl, l, hl, hcase⟩ := (removalRange_iff ho).mp h
  obtain ⟨h1, hsize⟩ := Outline.hasLine_bounds.mp (Outline.hasLine_iff.mpr ⟨l, hl⟩)
  rcases hcase with ⟨-, rfl⟩ | ⟨s, -, hs, hhas, -, -, rfl⟩
  · exact ⟨h1, Nat.le_refl _, hsize⟩
  · exact ⟨h1, (ho.range hs hhas (ho.self_mem hhas)).2, ho.last_le hhas⟩

/-- The outline is that of its lines, and each justification is what its text says. -/
structure WellFormed (d : Document) : Prop where
  nested : d.outline.Nested
  faithful : ∀ l ∈ d.lines, l.Faithful

theorem ofLines_iff {lines : List Line} {goal : Option Goal} {d : Document} :
    ofLines lines goal = .ok d ↔ Outline.build lines goal 0 = .ok d.outline ∧ d.goal = goal := by
  unfold ofLines
  constructor
  · intro h
    obtain ⟨o, ho, h⟩ := bind_ok.mp h
    cases h
    exact ⟨ho, rfl⟩
  · rintro ⟨hbuild, rfl⟩
    exact bind_ok.mpr ⟨d.outline, hbuild, rfl⟩

theorem ofLines_wellFormed {lines : List Line} {goal : Option Goal} {d : Document}
    (hlines : ∀ l ∈ lines, l.Faithful) (h : ofLines lines goal = .ok d) : d.WellFormed := by
  obtain ⟨hnested, e, -, -⟩ := Outline.build_cases (ofLines_iff.mp h).1
  exact ⟨hnested, fun l hl => hlines l (by rwa [← e])⟩

end Document

/-! ## Destinations -/

namespace Change

/-- The new number of a line, or nothing where it is among the removed ones. A line makes room for
the inserted ones up to its number, and moves up by the removed ones before it. -/
def destination (change : Change) (n : Nat) : Option Nat :=
  match change.kind with
  | .insert => some (n + (change.numbers.filter (· ≤ n)).length)
  | .remove =>
    if n ∈ change.numbers then none else some (n - (change.numbers.filter (· < n)).length)
  | .edit => some n

theorem destination_insert (p revision n : Nat) :
    (⟨.insert, [p], revision⟩ : Change).destination n = some (if p ≤ n then n + 1 else n) := by
  unfold destination
  by_cases h : p ≤ n
  · simp [h]
  · simp [h]

theorem destination_remove {first last : Nat} (hle : first ≤ last) (revision n : Nat) :
    (⟨.remove, List.range' first (last + 1 - first), revision⟩ : Change).destination n =
      if n < first then some n
      else if last < n then some (n - (last - first + 1)) else none := by
  unfold destination
  dsimp only
  have hmem : n ∈ List.range' first (last + 1 - first) ↔ first ≤ n ∧ n ≤ last := by
    rw [List.mem_range'_1]
    omega
  split
  · rename_i hn
    rw [hmem] at hn
    rw [if_neg (by omega), if_neg (by omega)]
  · rename_i hn
    rw [hmem] at hn
    by_cases hlow : n < first
    · have hnone : (List.range' first (last + 1 - first)).filter (· < n) = [] := by
        rw [List.filter_eq_nil_iff]
        intro m hm
        rw [List.mem_range'_1] at hm
        rw [decide_eq_true_iff]
        omega
      rw [if_pos hlow, hnone]
      rfl
    · have hall : (List.range' first (last + 1 - first)).filter (· < n) =
          List.range' first (last + 1 - first) := by
        rw [List.filter_eq_self]
        intro m hm
        rw [List.mem_range'_1] at hm
        rw [decide_eq_true_iff]
        omega
      rw [if_neg hlow, if_pos (by omega), hall, List.length_range']
      congr 1
      omega

/-- Inserting a line or removing lines that follow each other keeps the order of the others. -/
theorem destination_rising {change : Change}
    (h : (∃ p, change.kind = .insert ∧ change.numbers = [p]) ∨
      ∃ first last, first ≤ last ∧ change.kind = .remove ∧
        change.numbers = List.range' first (last + 1 - first)) :
    Justification.Rising change.destination := by
  obtain ⟨kind, numbers, revision⟩ := change
  intro a b a' b' hab ha hb
  rcases h with ⟨p, rfl, rfl⟩ | ⟨first, last, hle, rfl, rfl⟩
  · rw [destination_insert, Option.some.injEq] at ha hb
    split at ha <;> split at hb <;> omega
  · rw [destination_remove hle] at ha hb
    split at ha
    · split at hb
      · cases ha
        cases hb
        exact hab
      · split at hb
        · cases ha
          cases hb
          omega
        · cases hb
    · split at ha
      · rw [if_neg (by omega), if_pos (by omega)] at hb
        cases ha
        cases hb
        omega
      · cases ha

end Change

namespace Document

theorem shiftInsert_eq (p revision : Nat) :
    shiftInsert p = fun n => ((⟨.insert, [p], revision⟩ : Change).destination n).map Nat.cast := by
  funext n
  rw [Change.destination_insert, shiftInsert]
  split <;> rfl

theorem shiftRemove_eq {first last : Nat} (hle : first ≤ last) (revision : Nat) :
    shiftRemove first last = fun n =>
      ((⟨.remove, List.range' first (last + 1 - first), revision⟩ : Change).destination n).map
        Nat.cast := by
  funext n
  rw [Change.destination_remove hle, shiftRemove]
  split
  · rfl
  · split
    · rw [Option.map_some, Nat.cast_sub (by omega)]
    · rfl

theorem inserted_getElem? {lines : List Line} {p : Nat} (hp : p - 1 ≤ lines.length) (l : Line)
    (i : Nat) : (inserted lines p l)[if p - 1 ≤ i then i + 1 else i]? = lines[i]? := by
  unfold inserted
  have hlen : (lines.take (p - 1)).length = p - 1 := List.length_take_of_le hp
  split
  · rw [List.getElem?_append_right (by omega), hlen, Nat.succ_sub (by omega),
      List.getElem?_cons_succ, List.getElem?_drop]
    congr 1
    omega
  · rw [List.getElem?_append_left (by omega), List.getElem?_take_of_lt (by omega)]

theorem remaining_getElem? (lines : List Line) {first last : Nat} (hfirst : first ≤ last)
    (hlast : last ≤ lines.length) (i : Nat) :
    (i < first - 1 → (remaining lines first last)[i]? = lines[i]?) ∧
      (last ≤ i → (remaining lines first last)[i - (last - (first - 1))]? = lines[i]?) := by
  unfold remaining
  have hlen : (lines.take (first - 1)).length = first - 1 := List.length_take_of_le (by omega)
  constructor
  · intro hi
    rw [List.getElem?_append_left (by omega), List.getElem?_take_of_lt hi]
  · intro hi
    rw [List.getElem?_append_right (by omega), hlen, List.getElem?_drop]
    congr 1
    omega

end Document

/-- An edit that changes the numbers of lines. -/
def Edit.Renumbers : Edit → Prop
  | .insert .. | .openSubproof .. | .remove _ => True
  | .sentence .. | .justification .. => False

namespace Document

/-- The lines that stay are renumbered and stand at their destinations. -/
def Relocates (d d' : Document) (change : Change) : Prop :=
  ∀ n n', change.destination n = some n' →
    Option.Rel (fun l l' => renumberLine (fun m => (change.destination m).map Nat.cast) l = .ok l')
      (d.outline.line? n) (d'.outline.line? n')

theorem line?_succ (d : Document) (i : Nat) : d.outline.line? (i + 1) = d.lines[i]? := rfl

theorem insert_relocates {d d' : Document} {position : Int} {l : Line} {change : Change}
    (h : d.insert position l = .ok (d', change)) :
    Justification.Rising change.destination ∧ d.Relocates d' change := by
  obtain ⟨⟨h1, hsize⟩, moved, hmoved, hbuild, -, rfl⟩ := insert_iff.mp h
  refine ⟨Change.destination_rising (.inl ⟨_, rfl, rfl⟩), fun n n' hn => ?_⟩
  rw [← shiftInsert_eq]
  obtain ⟨-, hlines, -, -⟩ := Outline.build_cases hbuild
  have hlines : d'.lines = inserted moved position.toNat l := hlines
  have hall := mapM_forall₂ hmoved
  rw [Change.destination_insert, Option.some.injEq] at hn
  -- Numbers count from one: 0 is no line before and none after.
  cases n with
  | zero =>
    rw [if_neg (by omega)] at hn
    cases hn
    exact .none
  | succ i =>
    have hplace : n' = (if position.toNat - 1 ≤ i then i + 1 else i) + 1 := by
      split at hn <;> split <;> omega
    have hlen : position.toNat - 1 ≤ moved.length := by
      have := hall.length_eq
      unfold size at hsize
      omega
    rw [hplace, line?_succ, line?_succ, hlines, inserted_getElem? hlen]
    exact forall₂_getElem? hall i

theorem remove_relocates {d d' : Document} (hd : d.outline.Nested) {number : Int} {change : Change}
    {removed : List Nat} (h : d.remove number = .ok (d', change, removed)) :
    Justification.Rising change.destination ∧ d.Relocates d' change := by
  obtain ⟨-, first, last, moved, hrange, hmoved, hbuild, -, rfl, rfl⟩ := remove_iff.mp h
  obtain ⟨h1, hle, hlast⟩ := removalRange_bounds hd hrange
  refine ⟨Change.destination_rising (.inr ⟨first, last, hle, rfl, rfl⟩), fun n n' hn => ?_⟩
  rw [← shiftRemove_eq hle]
  obtain ⟨-, hlines, -, -⟩ := Outline.build_cases hbuild
  have hlines : d'.lines = moved := hlines
  have hall := mapM_forall₂ hmoved
  rw [Change.destination_remove hle] at hn
  cases n with
  | zero =>
    rw [if_pos (by omega)] at hn
    cases hn
    exact .none
  | succ i =>
    obtain ⟨hbefore, hafter⟩ := remaining_getElem? d.lines hle hlast i
    split at hn
    · cases hn
      rw [line?_succ, line?_succ, hlines, ← hbefore (by omega)]
      exact forall₂_getElem? hall i
    · split at hn
      · have hplace : n' = i - (last - (first - 1)) + 1 := by
          rw [Option.some.injEq] at hn
          omega
        rw [hplace, line?_succ, line?_succ, hlines, ← hafter (by omega)]
        exact forall₂_getElem? hall _
      · cases hn

/-- What an insertion or a removal does to the lines that stay. -/
theorem edit_relocates {d d' : Document} (hd : d.outline.Nested) {e : Edit} {change : Change}
    {answer : EditAnswer} (he : e.Renumbers) (h : d.edit e = .ok (d', change, answer)) :
    Justification.Rising change.destination ∧ d.Relocates d' change := by
  cases e with
  | insert position s j depth =>
    obtain ⟨⟨d₁, c₁, l₁⟩, h₁, h⟩ := bind_ok.mp h
    cases h
    obtain ⟨_, -, hins⟩ := insertLine_cases h₁
    exact insert_relocates hins
  | openSubproof position s kind depth j =>
    obtain ⟨⟨d₁, c₁, l₁⟩, h₁, h⟩ := bind_ok.mp h
    cases h
    obtain ⟨_, -, hins⟩ := openSubproof_cases h₁
    exact insert_relocates hins
  | remove number =>
    obtain ⟨⟨d₁, c₁, removed⟩, h₁, h⟩ := bind_ok.mp h
    cases h
    exact remove_relocates hd h₁
  | sentence number text => exact he.elim
  | justification number text => exact he.elim

/-- The changes that edits announce: the number of the new line, the number of a removed line or
those of the subproof that it opens, and the number of the line whose content is another. -/
inductive Announces (d : Document) : Edit → Change → Prop where
  | insert {position : Int} {s j : Text} {depth : Option Int} : 1 ≤ position →
      position ≤ d.size + 1 →
      Announces d (.insert position s j depth) ⟨.insert, [position.toNat], d.revision + 1⟩
  | openSubproof {position : Int} {s j : Text} {kind : ScopeKind} {depth : Option Int} :
      1 ≤ position → position ≤ d.size + 1 →
      Announces d (.openSubproof position s kind depth j)
        ⟨.insert, [position.toNat], d.revision + 1⟩
  | removeLine {number : Int} {l : Line} : d.outline.line? number.toNat = some l → l.opens = none →
      Announces d (.remove number) ⟨.remove, [number.toNat], d.revision + 1⟩
  | removeSubproof {number : Int} {s : Scope} : d.outline.scopeOf number.toNat = .ok s →
      s.first = number.toNat → Announces d (.remove number)
        ⟨.remove, List.range' s.first (s.last + 1 - s.first), d.revision + 1⟩
  | sentence {number : Int} {text : Text} :
      Announces d (.sentence number text) ⟨.edit, [number.toNat], d.revision + 1⟩
  | justification {number : Int} {text : Text} :
      Announces d (.justification number text) ⟨.edit, [number.toNat], d.revision + 1⟩

theorem edit_announces {d d' : Document} (hd : d.outline.Nested) {e : Edit} {change : Change}
    {answer : EditAnswer} (h : d.edit e = .ok (d', change, answer)) : d.Announces e change := by
  cases e with
  | insert position s j depth =>
    obtain ⟨⟨d₁, c₁, l₁⟩, h₁, h⟩ := bind_ok.mp h
    cases h
    obtain ⟨_, -, hins⟩ := insertLine_cases h₁
    obtain ⟨⟨h1, hsize⟩, -, -, -, -, rfl⟩ := insert_iff.mp hins
    exact .insert h1 hsize
  | openSubproof position s kind depth j =>
    obtain ⟨⟨d₁, c₁, l₁⟩, h₁, h⟩ := bind_ok.mp h
    cases h
    obtain ⟨_, -, hins⟩ := openSubproof_cases h₁
    obtain ⟨⟨h1, hsize⟩, -, -, -, -, rfl⟩ := insert_iff.mp hins
    exact .openSubproof h1 hsize
  | remove number =>
    obtain ⟨⟨d₁, c₁, removed⟩, h₁, h⟩ := bind_ok.mp h
    cases h
    obtain ⟨-, first, last, moved, hrange, -, -, -, rfl, rfl⟩ := remove_iff.mp h₁
    obtain ⟨rfl, l, hl, ⟨hopens, rfl⟩ | ⟨s, -, hs, -, -, hfirst, rfl⟩⟩ :=
      (removalRange_iff hd).mp hrange
    · rw [Nat.add_sub_cancel_left]
      exact .removeLine hl hopens
    · rw [← hfirst]
      exact .removeSubproof hs hfirst
  | sentence number text =>
    obtain ⟨⟨d₁, c₁, l₁⟩, h₁, h⟩ := bind_ok.mp h
    cases h
    obtain ⟨l, -, h₁⟩ := bind_ok.mp h₁
    obtain ⟨⟨d₂, c₂⟩, hcommit, h₁⟩ := bind_ok.mp h₁
    cases h₁
    obtain ⟨-, -, rfl⟩ := commit_iff.mp hcommit
    exact .sentence
  | justification number text =>
    obtain ⟨⟨d₁, c₁, l₁⟩, h₁, h⟩ := bind_ok.mp h
    cases h
    obtain ⟨l, -, h₁⟩ := bind_ok.mp h₁
    obtain ⟨l', -, h₁⟩ := bind_ok.mp h₁
    obtain ⟨⟨d₂, c₂⟩, hcommit, h₁⟩ := bind_ok.mp h₁
    cases h₁
    obtain ⟨-, -, rfl⟩ := commit_iff.mp hcommit
    exact .justification

end Document

/-! ## Citations -/

namespace Change

/-- A citation with an end among the removed lines. -/
def breaks (change : Change) (c : Citation) : Bool :=
  c.numbers.any fun n => (change.destination n).isNone

/-- A number stands for the same line before and after a change, if it stands for one. -/
def Carries (change : Change) (d d' : Document) (n n' : Nat) : Prop :=
  change.destination n = some n' ∧
    (d.outline.line? n).map Line.frame = (d'.outline.line? n').map Line.frame

/-- The ends of a citation, one or two, stand for the same lines before and after a change. -/
def CarriesEnds (change : Change) (d d' : Document) (c c' : Citation) : Prop :=
  List.Forall₂ (change.Carries d d') c.numbers c'.numbers

theorem breaks_iff (change : Change) (c : Citation) :
    change.breaks c = (c.moved change.destination).isNone :=
  (c.moved_isNone change.destination).symm

/-- A moved citation has the same shape, with the ends at their destinations. -/
theorem moved_numbers {dest : Nat → Option Nat} {c c' : Citation} (h : c.moved dest = some c') :
    List.Forall₂ (fun n n' => dest n = some n') c.numbers c'.numbers := by
  unfold Citation.moved at h
  obtain ⟨a, b⟩ := c
  cases b with
  | none =>
    obtain ⟨a', ha, rfl⟩ := Option.map_eq_some_iff.mp h
    exact .cons ha .nil
  | some b =>
    dsimp only at h
    split at h
    · rename_i a' b' ha hb
      cases h
      exact .cons ha (.cons hb .nil)
    · cases h

end Change

/-- Where a line stays through an insertion or a removal, it shows the same as before, and its
citations keep their shape and their order, and name the lines that they named. Where they have
lost an end, the first of them that has lost one cannot be read. -/
theorem citations_follow_lines {d d' : Document} (hd : d.WellFormed) {e : Edit} {change : Change}
    {answer : EditAnswer} (he : e.Renumbers) (h : d.edit e = .ok (d', change, answer))
    {n n' : Nat} {l : Line} {j : Justification} (hl : d.outline.line? n = some l)
    (hn : change.destination n = some n') (hj : l.justification = .ok j)
    (hrule : Justification.openEnded j.rule = false) :
    ∃ l', d'.outline.line? n' = some l' ∧ l'.frame = l.frame ∧
      (j.citations.findIdx? change.breaks = none → ∃ j', l'.justification = .ok j' ∧
        j'.rule = j.rule ∧ List.Forall₂ (change.CarriesEnds d d') j.citations j'.citations) ∧
      ∀ i, j.citations.findIdx? change.breaks = some i → ∃ err, l'.justification = .error err ∧
        err.kindName = "bad_citation" ∧ err.index = some i := by
  obtain ⟨hrising, hmoves⟩ := Document.edit_relocates hd.nested he h
  -- Every number that is kept names what it named, whether there is such a line or not.
  have hcarries : ∀ m m', change.destination m = some m' → change.Carries d d' m m' := by
    intro m m' hm
    refine ⟨hm, ?_⟩
    have hrel := hmoves m m' hm
    generalize d.outline.line? m = before, d'.outline.line? m' = after at hrel ⊢
    cases hrel with
    | none => rfl
    | some hk' =>
      rw [Option.map_some, Option.map_some, (Document.renumberLine_cases hk').2.1]
  obtain ⟨l', hl', hmoved⟩ := exists_of_rel (hl ▸ hmoves n n' hn)
  obtain ⟨hnew, hframe, out, hout, htext⟩ := Document.renumberLine_cases hmoved
  have hfaithful : l.Faithful :=
    hd.faithful l (List.mem_of_getElem? (Outline.line?_eq_some.mp hl).2)
  have hread : Justification.read l.justificationText = .ok j := by
    rw [hfaithful, hj]
    rfl
  obtain ⟨hkept, hlost⟩ := Justification.read_renumbered hrising hread hrule hout
  have hbreaks : change.breaks = fun c => (c.moved change.destination).isNone :=
    funext change.breaks_iff
  rw [← htext, hnew hfaithful] at hkept hlost
  rw [← hbreaks] at hkept hlost
  refine ⟨l', hl', hframe, fun hnone => ?_, fun i hi => ?_⟩
  · obtain ⟨cs', hall, hcs'⟩ := hkept hnone
    refine ⟨⟨j.rule, cs'⟩, mapError_ok.mp hcs', rfl, hall.imp fun c c' hc => ?_⟩
    exact (Change.moved_numbers hc).imp hcarries
  · have hi := hlost i hi
    cases hj' : l'.justification with
    | ok j' =>
      rw [hj'] at hi
      cases hi
    | error err =>
      rw [hj'] at hi
      cases hi
      exact ⟨_, rfl, rfl, rfl⟩

/-- A subproof that is cited as a whole, and lines after it that are cited one by one. -/
def dischargedInside : List Line :=
  createLines
    [("P", "PR", 0, none), ("Q", "AS", 1, some .ordinary), ("P&Q", "Conj 1, 2", 1, none),
     ("Q->(P&Q)", "CP 2 – 3", 0, none), ("P", "Reit 1;4", 0, none)]

/-- The removal of the subproof breaks its citation and moves the one after it. A line inserted before
the subproof moves its citation, and the one after it in part. -/
theorem citations_follow_lines_around : ∃ d, Document.ofLines dischargedInside none = .ok d ∧
    (∃ d' change answer, d.edit (.remove 2) = .ok (d', change, answer) ∧
      (∃ l' err, d'.outline.line? 2 = some l' ∧ l'.justification = .error err ∧
        err.kindName = "bad_citation" ∧ err.index = some 0) ∧
      ∃ l' j', d'.outline.line? 3 = some l' ∧ l'.justification = .ok j' ∧
        j'.rule = Text.ofString "Reit" ∧
        List.Forall₂ (change.CarriesEnds d d') [⟨1, none⟩, ⟨4, none⟩] j'.citations) ∧
    ∃ d' change answer, d.edit (.insert 2 "R" "PR" none) = .ok (d', change, answer) ∧
      (∃ l' j', d'.outline.line? 5 = some l' ∧ l'.justification = .ok j' ∧
        j'.rule = Text.ofString "CP" ∧
        List.Forall₂ (change.CarriesEnds d d') [⟨2, some 3⟩] j'.citations) ∧
      ∃ l' j', d'.outline.line? 6 = some l' ∧ l'.justification = .ok j' ∧
        j'.rule = Text.ofString "Reit" ∧
        List.Forall₂ (change.CarriesEnds d d') [⟨1, none⟩, ⟨4, none⟩] j'.citations := by
  obtain ⟨d, hd, hfacts⟩ := exists_ok (x := Document.ofLines dischargedInside none)
    (p := fun d =>
      ((d.edit (.remove 2)).toOption.any (fun r => r.2.1.kind = .remove && r.2.1.numbers = [2, 3]) &&
        (d.edit (.insert 2 "R" "PR" none)).toOption.isSome) &&
      ((d.outline.line? 4).any (fun l => l.justification.toOption =
        some ⟨Text.ofString "CP", [⟨2, some 3⟩]⟩) &&
      (d.outline.line? 5).any (fun l => l.justification.toOption =
        some ⟨Text.ofString "Reit", [⟨1, none⟩, ⟨4, none⟩]⟩))) (by decide +kernel)
  simp only [Bool.and_eq_true] at hfacts
  obtain ⟨⟨hremoved, hinserted⟩, hfour, hfive⟩ := hfacts
  have hline : ∀ {n : Nat} {j : Justification}, (d.outline.line? n).any (fun l =>
      l.justification.toOption = some j) = true →
      ∃ l, d.outline.line? n = some l ∧ l.justification = .ok j := by
    intro n j hany
    obtain ⟨l, hl, hj⟩ := (Option.any_eq_true _ _).mp hany
    obtain ⟨j', hj', e⟩ := exists_ok (x := l.justification) (p := (· = j)) (by
      rw [decide_eq_true_iff] at hj
      rw [hj]
      simp)
    exact ⟨l, hl, by rw [hj', decide_eq_true_iff.mp e]⟩
  obtain ⟨l₄, hl₄, hj₄⟩ := hline hfour
  obtain ⟨l₅, hl₅, hj₅⟩ := hline hfive
  have hwell := Document.ofLines_wellFormed (Line.createLines_faithful _) hd
  refine ⟨d, hd, ?_, ?_⟩
  · obtain ⟨⟨d', ⟨kind, numbers, revision⟩, answer⟩, h, hchange⟩ := exists_ok hremoved
    simp only [Bool.and_eq_true, decide_eq_true_iff] at hchange
    obtain ⟨rfl, rfl⟩ := hchange
    have hremove : (Edit.remove 2).Renumbers := trivial
    obtain ⟨m₄, hm₄, -, -, hlost⟩ :=
      citations_follow_lines hwell hremove h hl₄ rfl hj₄ (by decide)
    obtain ⟨m₅, hm₅, -, hkept, -⟩ :=
      citations_follow_lines hwell hremove h hl₅ rfl hj₅ (by decide)
    obtain ⟨err, herr⟩ := hlost 0 rfl
    obtain ⟨j', hj', hrule, hall⟩ := hkept rfl
    exact ⟨d', _, answer, h, ⟨m₄, err, hm₄, herr⟩, m₅, j', hm₅, hj', hrule, hall⟩
  · obtain ⟨⟨d', change, answer⟩, h, -⟩ := exists_ok (p := fun _ => true)
      (x := d.edit (.insert 2 "R" "PR" none)) (by simpa using hinserted)
    obtain ⟨-, -⟩ := Document.edit_announces hwell.nested h
    have hinsert : (Edit.insert 2 "R" "PR" none).Renumbers := trivial
    obtain ⟨m₅, hm₅, -, hdischarge, -⟩ :=
      citations_follow_lines hwell hinsert h hl₄ rfl hj₄ (by decide)
    obtain ⟨m₆, hm₆, -, hkept, -⟩ :=
      citations_follow_lines hwell hinsert h hl₅ rfl hj₅ (by decide)
    obtain ⟨j₅, hj₅⟩ := hdischarge rfl
    obtain ⟨j₆, hj₆⟩ := hkept rfl
    exact ⟨d', _, answer, h, ⟨m₅, j₅, hm₅, hj₅⟩, m₆, j₆, hm₆, hj₆⟩

end ModalFitch
