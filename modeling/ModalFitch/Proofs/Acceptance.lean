import ModalFitch.Proofs.Legibility
import ModalFitch.Proofs.Placement

/-! Which edits a document takes, and what they leave.

* `Document.Leaves`: the next outline, and where its lines have their justifications from.
* `Document.Bounded.edit`: an edit makes the numbers in the justifications larger by one at most.
* `Document.place_accepts`: where a new line may be inserted.
* `Document.remove_accepts`, `Document.rewrite_accepts`: every line can be removed and rewritten. -/

namespace ModalFitch
set_option autoImplicit false

/-! ## What an edit leaves -/

namespace Edit

/-- The justification that an edit writes. -/
def writes : Edit → Option Text
  | .insert _ _ j _ | .openSubproof _ _ _ _ j | .justification _ j => some j
  | .remove _ | .sentence _ _ => none

/-- The edit writes no long runs of digits. -/
def Terse (e : Edit) : Prop := ∀ j ∈ e.writes, j.Terse

end Edit

theorem Change.steps_insert (p revision : Nat) :
    Steps (⟨.insert, [p], revision⟩ : Change).destination := by
  intro n n' h
  rw [destination_insert, Option.some.injEq] at h
  split at h <;> omega

theorem Change.steps_remove (numbers : List Nat) (revision : Nat) :
    Steps (⟨.remove, numbers, revision⟩ : Change).destination := by
  intro n n' h
  unfold destination at h
  dsimp only at h
  split at h
  · cases h
  · cases h
    omega

namespace Document

/-- The outline is that of the lines, for the goal of the document. -/
def Current (d : Document) : Prop := Outline.build d.lines d.goal d.revision = .ok d.outline

theorem lineAt_iff {d : Document} {number : Int} {l : Line} :
    d.lineAt number = .ok l ↔ 1 ≤ number ∧ d.outline.line? number.toNat = some l := by
  unfold lineAt
  by_cases h : 1 ≤ number
  · rw [if_pos h]
    cases d.outline.line? number.toNat <;> simp [h]
  · rw [if_neg h]
    simp [h]

/-- A line after an edit: a renumbered one, one with another sentence or as it was, or one with the
justification that the edit writes. -/
def Stems (d : Document) (e : Edit) (change : Change) (l' : Line) : Prop :=
  e.writes = some l'.justificationText ∨ ∃ l ∈ d.lines,
    l'.justificationText = l.justificationText ∨
      renumberLine (fun n => (change.destination n).map Nat.cast) l = .ok l'

/-- What an edit leaves: the next outline, made of lines whose justifications are those of the old
ones, renumbered, or the one that was written. -/
structure Leaves (d d' : Document) (e : Edit) (change : Change) : Prop where
  current : d'.Current
  goal : d'.goal = d.goal
  revision : d'.revision = d.revision + 1
  announced : change.revision = d.revision + 1
  steps : Change.Steps change.destination
  stems : ∀ l ∈ d'.lines, d.Stems e change l
  faithful : (∀ l ∈ d.lines, l.Faithful) → ∀ l ∈ d'.lines, l.Faithful

theorem current_of_build {d d' : Document} {lines : List Line} {revision : Nat}
    (hbuild : Outline.build lines d.goal revision = .ok d'.outline) (hgoal : d'.goal = d.goal) :
    d'.Current ∧ d'.lines = lines ∧ d'.revision = revision := by
  obtain ⟨hnested, hlines, hgoal', hrevision⟩ := Outline.build_cases hbuild
  refine ⟨?_, hlines, hrevision⟩
  unfold Current
  rw [hgoal, ← hgoal']
  exact hnested

theorem insert_leaves {d d' : Document} {position : Int} {l : Line} {change : Change} {e : Edit}
    (hl : l.Faithful) (hwrites : e.writes = some l.justificationText)
    (h : d.insert position l = .ok (d', change)) : d.Leaves d' e change := by
  obtain ⟨-, moved, hmoved, hbuild, hgoal, rfl⟩ := insert_iff.mp h
  obtain ⟨hcurrent, hlines, hrevision⟩ := current_of_build hbuild hgoal
  have hmem : ∀ k ∈ d'.lines, k = l ∨ k ∈ moved := by
    intro k hk
    rw [hlines] at hk
    rcases List.mem_append.mp hk with hk | hk
    · exact .inr (List.mem_of_mem_take hk)
    · exact (List.mem_cons.mp hk).imp_right List.mem_of_mem_drop
  refine ⟨hcurrent, hgoal, hrevision, rfl, Change.steps_insert _ _, fun k hk => ?_, fun hd k hk => ?_⟩
  · rcases hmem k hk with rfl | hk
    · exact .inl hwrites
    · obtain ⟨k₀, hk₀, hk⟩ := mapM_ok hmoved k hk
      exact .inr ⟨k₀, hk₀, .inr (shiftInsert_eq _ _ ▸ hk)⟩
  · rcases hmem k hk with rfl | hk
    · exact hl
    · obtain ⟨k₀, hk₀, hk⟩ := mapM_ok hmoved k hk
      exact (renumberLine_cases hk).1 (hd k₀ hk₀)

theorem remove_leaves {d d' : Document} (hd : d.outline.Nested) {number : Int} {change : Change}
    {removed : List Nat} (h : d.remove number = .ok (d', change, removed)) :
    d.Leaves d' (.remove number) change := by
  obtain ⟨-, first, last, moved, hrange, hmoved, hbuild, hgoal, rfl, rfl⟩ := remove_iff.mp h
  obtain ⟨hcurrent, hlines, hrevision⟩ := current_of_build hbuild hgoal
  have hle := (removalRange_bounds hd hrange).2.1
  have hmem : ∀ k ∈ d'.lines, ∃ k₀ ∈ d.lines, renumberLine (shiftRemove first last) k₀ = .ok k := by
    intro k hk
    rw [hlines] at hk
    obtain ⟨k₀, hk₀, hk⟩ := mapM_ok hmoved k hk
    rcases List.mem_append.mp hk₀ with hk₀ | hk₀
    · exact ⟨k₀, List.mem_of_mem_take hk₀, hk⟩
    · exact ⟨k₀, List.mem_of_mem_drop hk₀, hk⟩
  refine ⟨hcurrent, hgoal, hrevision, rfl, Change.steps_remove _ _, fun k hk => ?_, fun hf k hk => ?_⟩
  · obtain ⟨k₀, hk₀, hk⟩ := hmem k hk
    exact .inr ⟨k₀, hk₀, .inr (shiftRemove_eq hle _ ▸ hk)⟩
  · obtain ⟨k₀, hk₀, hk⟩ := hmem k hk
    exact (renumberLine_cases hk).1 (hf k₀ hk₀)

theorem replace_leaves {d d' : Document} {n : Nat} {l l' : Line} {change : Change} {e : Edit}
    (hl : d.outline.line? n = some l) (hl' : l.Faithful → l'.Faithful)
    (htext : e.writes = some l'.justificationText ∨ l'.justificationText = l.justificationText)
    (h : d.replace n l' = .ok (d', change)) : d.Leaves d' e change := by
  obtain ⟨hbuild, hgoal, rfl⟩ := commit_iff.mp h
  obtain ⟨hcurrent, hlines, hrevision⟩ := current_of_build hbuild hgoal
  have hmem : l ∈ d.lines := List.mem_of_getElem? (Outline.line?_eq_some.mp hl).2
  have hold : ∀ k ∈ d'.lines, k = l' ∨ k ∈ d.lines := by
    intro k hk
    rw [hlines] at hk
    exact (List.mem_or_eq_of_mem_set hk).symm
  refine ⟨hcurrent, hgoal, hrevision, rfl, ?_, fun k hk => ?_, fun hd k hk => ?_⟩
  · intro m m' hm
    cases hm
    exact Nat.le_succ m
  · rcases hold k hk with rfl | hk
    · exact htext.imp_right fun htext => ⟨l, hmem, .inl htext⟩
    · exact .inr ⟨k, hk, .inl rfl⟩
  · rcases hold k hk with rfl | hk
    · exact hl' (hd l hmem)
    · exact hd k hk

theorem edit_leaves {d d' : Document} (hd : d.outline.Nested) {e : Edit} {change : Change}
    {answer : EditAnswer} (h : d.edit e = .ok (d', change, answer)) : d.Leaves d' e change := by
  cases e with
  | insert position s j depth =>
    obtain ⟨⟨d₁, c₁, l⟩, h₁, h⟩ := bind_ok.mp h
    cases h
    obtain ⟨_, hl, hins⟩ := insertLine_cases h₁
    obtain ⟨hfaithful, htext⟩ := Line.create_faithful hl
    exact insert_leaves hfaithful (by rw [htext]; rfl) hins
  | openSubproof position s kind depth j =>
    obtain ⟨⟨d₁, c₁, l⟩, h₁, h⟩ := bind_ok.mp h
    cases h
    obtain ⟨_, hl, hins⟩ := openSubproof_cases h₁
    obtain ⟨hfaithful, htext⟩ := Line.create_faithful hl
    exact insert_leaves hfaithful (by rw [htext]; rfl) hins
  | remove number =>
    obtain ⟨⟨d₁, c₁, removed⟩, h₁, h⟩ := bind_ok.mp h
    cases h
    exact remove_leaves hd h₁
  | sentence number text =>
    obtain ⟨⟨d₁, c₁, l₁⟩, h₁, h⟩ := bind_ok.mp h
    cases h
    obtain ⟨l, hl, h₁⟩ := bind_ok.mp h₁
    obtain ⟨⟨d₂, c₂⟩, hrep, h₁⟩ := bind_ok.mp h₁
    cases h₁
    exact replace_leaves (lineAt_iff.mp hl).2 (fun hf => Line.withSentence_faithful hf text)
      (.inr (l.withSentence_justificationText text)) hrep
  | justification number text =>
    obtain ⟨⟨d₁, c₁, l₁⟩, h₁, h⟩ := bind_ok.mp h
    cases h
    obtain ⟨l, hl, h₁⟩ := bind_ok.mp h₁
    obtain ⟨l', hl', h₁⟩ := bind_ok.mp h₁
    obtain ⟨⟨d₂, c₂⟩, hrep, h₁⟩ := bind_ok.mp h₁
    cases h₁
    obtain ⟨hfaithful, htext, -⟩ := Line.withJustification_faithful (mapError_ok.mp hl')
    exact replace_leaves (lineAt_iff.mp hl).2 (fun _ => hfaithful) (.inl (by rw [htext]; rfl)) hrep

theorem Current.nested {d : Document} (h : d.Current) : d.outline.Nested := (Outline.build_cases h).1

/-- Every number in the justifications can be read, and is below a bound. -/
def Bounded (b : Nat) (d : Document) : Prop := ∀ l ∈ d.lines, l.justificationText.Bounded b

/-- An edit that writes no long numbers makes the others larger by one at most. -/
theorem Bounded.edit {d d' : Document} {b : Nat} (hbound : d.Bounded b) (hd : d.outline.Nested)
    (hlow : 10 ^ (Text.maxDigits - 1) ≤ b) (hb : b < 10 ^ Text.maxDigits) {e : Edit} (he : e.Terse)
    {change : Change} {answer : EditAnswer} (h : d.edit e = .ok (d', change, answer)) :
    d'.Bounded (b + 1) := by
  have hleaves := edit_leaves hd h
  intro l' hl'
  rcases hleaves.stems l' hl' with hwritten | ⟨l, hl, htext | hmoved⟩
  · exact (he _ hwritten).bounded.mono (by omega)
  · rw [htext]
    exact (hbound l hl).mono (Nat.le_succ b)
  · obtain ⟨k, hk, hk'⟩ := renumberLine_bounded hleaves.steps hb (hbound l hl)
    rw [hmoved] at hk
    cases hk
    exact hk'

/-! ## Accepted edits -/

/-- The depth of the line before a position, which counts from one. -/
def depthOver (d : Document) (n : Nat) : Int := ((d.outline.line? (n - 1)).map Line.depth).getD 0

/-- The line at a position fits after a line of a given depth. -/
def Admits (d : Document) (n : Nat) (depth : Int) : Prop :=
  ∀ m ∈ d.outline.line? n, m.depth ≤ depth ∨ (m.opens.isSome = true ∧ m.depth ≤ depth + 1)

theorem depthAfter_eq {d : Document} {n : Nat} (h1 : 1 ≤ n) (hn : n ≤ d.size + 1) :
    depthAfter 0 (d.lines.take (n - 1)) = d.depthOver n := by
  unfold depthOver
  obtain ⟨i, rfl⟩ : ∃ i, n = i + 1 := ⟨n - 1, by omega⟩
  rw [Nat.add_sub_cancel]
  cases i with
  | zero => rfl
  | succ i =>
    have hi : i < d.lines.length := by
      unfold size at hn
      omega
    have hl := List.getElem?_eq_getElem hi
    rw [depthAfter_take_succ 0 hl, line?_succ, hl]
    rfl

theorem depthBefore_eq {d : Document} {n : Nat} (h1 : 1 ≤ n) (hn : n ≤ d.size + 1) :
    d.depthBefore n = .ok (d.depthOver n) := by
  unfold depthBefore depthOver
  rw [if_pos (isPosition_iff.mpr ⟨by omega, by omega⟩)]
  obtain ⟨i, rfl⟩ : ∃ i, n = i + 1 := ⟨n - 1, by omega⟩
  cases i with
  | zero => rfl
  | succ i =>
    rw [if_neg (by omega)]
    rfl

/-- All lines can be renumbered, and keep what their nesting rests on. -/
theorem Bounded.moves {d : Document} {b : Nat} (hbound : d.Bounded b) (hb : b < 10 ^ Text.maxDigits)
    {dest : Nat → Option Nat} (hdest : Change.Steps dest) {lines : List Line}
    (hlines : ∀ l ∈ lines, l ∈ d.lines) :
    ∃ moved, lines.mapM (renumberLine fun n => (dest n).map Nat.cast) = .ok moved ∧
      moved.map Line.shape = lines.map Line.shape := by
  obtain ⟨moved, hmoved, -⟩ := mapM_exists fun l hl =>
    renumberLine_bounded hdest hb (hbound l (hlines l hl))
  refine ⟨moved, hmoved, ?_⟩
  have hall := mapM_forall₂ hmoved
  clear hmoved hlines
  induction hall with
  | nil => rfl
  | cons hl _ ih =>
    obtain ⟨-, hframe, -⟩ := renumberLine_cases hl
    rw [List.map_cons, List.map_cons, ih, Line.shape_of_frame hframe]

section

variable {d : Document} (hd : d.outline.Nested) {b : Nat} (hbound : d.Bounded b)
  (hb : b < 10 ^ Text.maxDigits)
include hd hbound hb

/-- Where a line may be inserted. -/
theorem insert_accepts {n : Nat} (h1 : 1 ≤ n) (hn : n ≤ d.size + 1) (l : Line) :
    (∃ r, d.insert n l = .ok r) ↔ l.Follows (d.depthOver n) ∧ d.Admits n l.depth := by
  obtain ⟨moved, hmoved, hshape⟩ := hbound.moves hb (Change.steps_insert n (d.revision + 1))
    fun (l : Line) (hl : l ∈ d.lines) => hl
  rw [← shiftInsert_eq] at hmoved
  -- Renumbering does not touch the nesting, so the old lines decide.
  have hfits : Fits 0 (inserted moved n l) ↔ Fits 0 (inserted d.lines n l) := by
    refine fits_shape ?_
    unfold inserted
    rw [List.map_append, List.map_append, List.map_cons, List.map_cons, List.map_take, List.map_take,
      List.map_drop, List.map_drop, hshape]
  have hnext : d.outline.line? n = d.lines[n - 1]? := by
    obtain ⟨i, rfl⟩ : ∃ i, n = i + 1 := ⟨n - 1, by omega⟩
    rfl
  unfold Admits
  have hbuilds : (∃ o, Outline.build (inserted moved n l) d.goal (d.revision + 1) = .ok o) ↔
      Fits 0 (inserted moved n l) := Outline.build_iff_fits
  have hold : Fits 0 d.lines := hd.fits
  rw [hnext, ← depthAfter_eq h1 hn, ← inserted_fits_iff hold, ← hfits, ← hbuilds]
  constructor
  · rintro ⟨⟨d', change⟩, h⟩
    obtain ⟨-, moved', hmoved', hbuild, -⟩ := insert_iff.mp h
    rw [Int.toNat_natCast] at hmoved' hbuild
    rw [hmoved] at hmoved'
    cases hmoved'
    exact ⟨d'.outline, hbuild⟩
  · rintro ⟨o, hbuild⟩
    refine ⟨(⟨o, d.goal⟩, _), insert_iff.mpr ⟨⟨by omega, by omega⟩, moved, ?_, ?_, rfl, rfl⟩⟩
    · rwa [Int.toNat_natCast]
    · rwa [Int.toNat_natCast]

/-- Every line can be removed. -/
theorem remove_accepts {n : Nat} (h1 : 1 ≤ n) (hn : n ≤ d.size) : ∃ r, d.remove n = .ok r := by
  obtain ⟨l, hl⟩ : ∃ l, d.outline.line? n = some l := Outline.exists_line h1 hn
  obtain ⟨last, hrange⟩ : ∃ last, removalRange d.outline n = .ok (n, last) := by
    cases ho : l.opens with
    | none => exact ⟨n, (removalRange_iff hd).mpr ⟨rfl, l, hl, .inl ⟨ho, rfl⟩⟩⟩
    | some kind =>
      obtain ⟨s, hs, hhas, hid, hfirst, rfl⟩ := hd.opener hl ho
      exact ⟨s.last, (removalRange_iff hd).mpr ⟨rfl, l, hl, .inr ⟨s, ho, hs, hhas, hid, hfirst, rfl⟩⟩⟩
  have hle := (removalRange_bounds hd hrange).2.1
  have hmem : ∀ k ∈ remaining d.lines n last, k ∈ d.lines := by
    intro k hk
    rcases List.mem_append.mp hk with hk | hk
    · exact List.mem_of_mem_take hk
    · exact List.mem_of_mem_drop hk
  obtain ⟨moved, hmoved, hshape⟩ := hbound.moves hb
    (Change.steps_remove (List.range' n (last + 1 - n)) (d.revision + 1)) hmem
  rw [← shiftRemove_eq hle] at hmoved
  obtain ⟨o, hbuild⟩ := Outline.build_iff_fits.mpr ((fits_shape hshape).mpr (hd.removal_fits hrange))
  exact ⟨(⟨o, d.goal⟩, _, _), remove_iff.mpr ⟨⟨by omega, by omega⟩, n, last, moved, hrange, hmoved,
    hbuild, rfl, rfl, rfl⟩⟩

end

/-- A line can be exchanged for one that nests as it does. -/
theorem replace_accepts {d : Document} (hd : d.outline.Nested) {n : Nat} {l l' : Line}
    (hl : d.outline.line? n = some l) (hshape : l'.shape = l.shape) :
    ∃ r, d.replace n l' = .ok r := by
  obtain ⟨o, hbuild⟩ := Outline.build_iff_fits.mpr
    (set_fits hd.fits (Outline.line?_eq_some.mp hl).2 hshape)
  exact ⟨(⟨o, d.goal⟩, _), commit_iff.mpr ⟨hbuild, rfl, rfl⟩⟩

section

variable {d : Document} (hd : d.outline.Nested) {b : Nat} (hbound : d.Bounded b)
  (hb : b < 10 ^ Text.maxDigits) {n : Nat} (h1 : 1 ≤ n) (hn : n ≤ d.size + 1) {j : Text} (hj : j.Terse)
include hd hbound hb h1 hn hj

/-- A new line that opens a subproof or none goes where its depth fits. -/
theorem place_accepts (s : Text) (kind : Option ScopeKind) (depth : Int) :
    (∃ l r, Line.create s j depth kind = .ok l ∧ d.insert n l = .ok r) ↔
      (if kind.isSome then 1 ≤ depth ∧ depth ≤ d.depthOver n + 1
        else 0 ≤ depth ∧ depth ≤ d.depthOver n) ∧ d.Admits n depth := by
  obtain ⟨l, hl⟩ := Line.create_bounded hj.bounded s depth kind
  obtain ⟨-, hdepth, hopens⟩ := Line.create_cases hl
  have hsome : l.opens.isSome = kind.isSome := by rw [hopens, Line.openedKind_isSome]
  have hfollows : l.Follows (d.depthOver n) ↔
      if kind.isSome then 1 ≤ depth ∧ depth ≤ d.depthOver n + 1
        else 0 ≤ depth ∧ depth ≤ d.depthOver n := by
    unfold Line.Follows
    rw [hsome, hdepth]
  have haccepts := insert_accepts hd hbound hb h1 hn l
  rw [hdepth] at haccepts
  rw [← hfollows, ← haccepts]
  constructor
  · rintro ⟨l', r, hl', hr⟩
    rw [hl] at hl'
    cases hl'
    exact ⟨r, hr⟩
  · rintro ⟨r, hr⟩
    exact ⟨l, r, hl, hr⟩

end

/-- The line at a position fits as it did after a line that is no higher. -/
theorem admits_depthOver {d : Document} (hd : d.outline.Nested) {n : Nat} (h1 : 1 ≤ n)
    (hn : n ≤ d.size + 1) {depth : Int} (hle : d.depthOver n ≤ depth) : d.Admits n depth := by
  intro m hm
  obtain ⟨-, hat⟩ := Outline.line?_eq_some.mp hm
  have hfollows : m.Follows (d.depthOver n) := depthAfter_eq h1 hn ▸ hd.fits.follows hat
  exact hfollows.iff_le.mp (hfollows.mono hle)

theorem depthOver_nonneg {d : Document} (hd : d.outline.Nested) {n : Nat} (h1 : 1 ≤ n)
    (hn : n ≤ d.size + 1) : 0 ≤ d.depthOver n := by
  rw [← depthAfter_eq h1 hn]
  have hfits := hd.fits
  rw [← List.take_append_drop (n - 1) d.outline.lines, fits_append] at hfits
  exact hfits.1.depthAfter_nonneg

/-- An edit that makes a line and inserts it is accepted if it can do both. -/
theorem accepted_iff {d : Document} {position : Int} {s j : Text} {depth : Int}
    {kind : Option ScopeKind} {x : Except EditError (Document × Change × Line)}
    (hx : x = ((Line.create s j depth kind).mapError EditError.numeral >>= fun k =>
      d.insert position k >>= fun (e, c) => pure (e, c, k))) :
    (∃ r, (x >>= fun (e, c, l) => pure (e, c, EditAnswer.line l)) = .ok r) ↔
      ∃ l r, Line.create s j depth kind = .ok l ∧ d.insert position l = .ok r := by
  constructor
  · rintro ⟨r, h⟩
    obtain ⟨⟨d', change, l⟩, h, -⟩ := bind_ok.mp h
    rw [hx] at h
    obtain ⟨hl, hins⟩ := place_cases h
    exact ⟨l, _, hl, hins⟩
  · rintro ⟨l, ⟨d', change⟩, hl, hins⟩
    refine ⟨_, bind_ok.mpr ⟨(d', change, l), ?_, rfl⟩⟩
    rw [hx]
    exact bind_ok.mpr ⟨l, mapError_ok.mpr hl, bind_ok.mpr ⟨_, hins, rfl⟩⟩

theorem insertion_accepted_iff {d : Document} {position : Int} {s j : Text} {depth : Option Int}
    {δ : Int} (hdepth : depth = some δ ∨ (depth = none ∧ d.depthBefore position = .ok δ)) :
    (∃ r, d.edit (.insert position s j depth) = .ok r) ↔
      ∃ l r, Line.create s j δ none = .ok l ∧ d.insert position l = .ok r := by
  apply accepted_iff
  unfold insertLine
  rcases hdepth with rfl | ⟨rfl, h⟩
  · rfl
  · rw [h]
    rfl

theorem opening_accepted_iff {d : Document} {position : Int} {s j : Text} {kind : ScopeKind}
    {depth : Option Int} {δ : Int}
    (hdepth : depth = some (δ + 1) ∨ (depth = none ∧ d.depthBefore position = .ok δ)) :
    (∃ r, d.edit (.openSubproof position s kind depth j) = .ok r) ↔
      ∃ l r, Line.create s j (δ + 1) (some kind) = .ok l ∧ d.insert position l = .ok r := by
  apply accepted_iff
  unfold Document.openSubproof
  rcases hdepth with rfl | ⟨rfl, h⟩
  · rfl
  · rw [h]
    rfl

/-- Every line can be given another sentence, and another justification without long numbers. -/
theorem rewrite_accepts {d : Document} (hd : d.outline.Nested) {n : Nat} (h1 : 1 ≤ n)
    (hn : n ≤ d.size) {text : Text} :
    (∃ r, d.edit (.sentence n text) = .ok r) ∧
      (text.Terse → ∃ r, d.edit (.justification n text) = .ok r) := by
  obtain ⟨l, hl⟩ : ∃ l, d.outline.line? n = some l := Outline.exists_line h1 hn
  have hat : d.lineAt n = .ok l := lineAt_iff.mpr ⟨by omega, hl⟩
  constructor
  · obtain ⟨⟨d', change⟩, h⟩ := replace_accepts hd hl (l.withSentence_shape text)
    exact ⟨_, bind_ok.mpr ⟨_, bind_ok.mpr ⟨l, hat, bind_ok.mpr ⟨(d', change), h, rfl⟩⟩, rfl⟩⟩
  · intro htext
    obtain ⟨l', hl'⟩ := Line.withJustification_bounded htext.bounded l
    have hframe := (Line.withJustification_faithful hl').2.2
    obtain ⟨⟨d', change⟩, h⟩ := replace_accepts hd hl (Line.shape_of_frame hframe)
    refine ⟨_, bind_ok.mpr ⟨(d', change, l'), bind_ok.mpr ⟨l, hat, ?_⟩, rfl⟩⟩
    exact bind_ok.mpr ⟨l', mapError_ok.mpr hl', bind_ok.mpr ⟨(d', change), h, rfl⟩⟩

end Document

end ModalFitch
