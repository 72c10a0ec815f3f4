import ModalFitch.Document.Basic
import ModalFitch.Proofs.Locality

/-! What the edits of a document do to its lines.

* `Line.Proper`: the lone box opens a strict subproof, and nothing opens the main proof. Every line
  that is created is so, and the edits keep it.
* `Line.Lasting`: the properties of lines that the edits keep.
* `Document.edit_cases`: an edit puts one line in the place of another, or changes the number of
  lines.
* `Edit.Rewrites.edited`: an edit that keeps the role of the line's sentence as the opening of a
  subproof leaves an outline that is alike. -/

namespace ModalFitch
set_option autoImplicit false

/-! ## Lines -/

namespace Line

/-- The lone box opens a strict subproof if it opens one, and nothing opens the main proof. -/
structure Proper (l : Line) : Prop where
  rootless : l.opens ≠ some .root
  strict : l.isMarker = true → l.opens.isSome = true → l.opens = some .modal

theorem isMarker_iff {l : Line} : l.isMarker = true ↔ l.reading = .ok .marker := by
  unfold isMarker
  constructor
  · intro h
    split at h
    · assumption
    · cases h
  · intro h
    rw [h]

theorem openedKind_cases (kind : Option ScopeKind) (reading : Except ParseError Sentence) :
    (openedKind kind reading = kind ∧ (kind.isSome = true → reading ≠ .ok .marker)) ∨
      (openedKind kind reading = some .modal ∧ reading = .ok .marker ∧ kind.isSome = true) := by
  unfold openedKind
  split
  · exact .inr ⟨rfl, rfl, rfl⟩
  · rename_i hne
    refine .inl ⟨rfl, fun hsome hread => ?_⟩
    obtain ⟨k, rfl⟩ := Option.isSome_iff_exists.mp hsome
    exact hne k rfl hread

theorem openedKind_proper {kind : Option ScopeKind} (hk : kind ≠ some .root) {l : Line}
    (ho : l.opens = openedKind kind l.reading) : l.Proper := by
  rcases openedKind_cases kind l.reading with ⟨e, hne⟩ | ⟨e, -, -⟩
  · rw [e] at ho
    refine ⟨ho ▸ hk, fun hm hsome => ?_⟩
    exact absurd (isMarker_iff.mp hm) (hne (ho ▸ hsome))
  · rw [e] at ho
    exact ⟨by rw [ho]; decide, fun _ _ => ho⟩

theorem create_cases {s j : Text} {depth : Int} {kind : Option ScopeKind} {l : Line}
    (h : create s j depth kind = .ok l) :
    l.reading = Sentence.read s ∧ l.depth = depth ∧ l.opens = openedKind kind l.reading := by
  unfold create at h
  split at h
  · cases h
    exact ⟨rfl, rfl, rfl⟩
  · cases h
    exact ⟨rfl, rfl, rfl⟩
  · cases h

theorem create_proper {s j : Text} {depth : Int} {kind : Option ScopeKind} {l : Line}
    (hk : kind ≠ some .root) (h : create s j depth kind = .ok l) : l.Proper :=
  openedKind_proper hk (create_cases h).2.2

theorem createLines_proper {rows : List (Text × Text × Int × Option ScopeKind)}
    (h : ∀ row ∈ rows, row.2.2.2 ≠ some .root) : ∀ l ∈ createLines rows, l.Proper := by
  intro l hl
  obtain ⟨s, j, depth, kind, hrow, hc⟩ := mem_createLines hl
  exact create_proper (h _ hrow) hc

theorem withJustification_cases {l l' : Line} {text : Text} (h : l.withJustification text = .ok l') :
    l'.reading = l.reading ∧ l'.depth = l.depth ∧ l'.opens = l.opens := by
  unfold withJustification at h
  split at h
  · cases h
    exact ⟨rfl, rfl, rfl⟩
  · cases h
    exact ⟨rfl, rfl, rfl⟩
  · cases h

theorem Proper.withJustification {l l' : Line} {text : Text} (hl : l.Proper)
    (h : l.withJustification text = .ok l') : l'.Proper := by
  obtain ⟨hread, -, ho⟩ := withJustification_cases h
  refine ⟨ho ▸ hl.rootless, fun hm hsome => ?_⟩
  rw [isMarker_iff, hread, ← isMarker_iff] at hm
  rw [ho] at hsome ⊢
  exact hl.strict hm hsome

theorem withSentence_justification (l : Line) (text : Text) :
    (l.withSentence text).justification = l.justification ∧ (l.withSentence text).depth = l.depth := by
  unfold withSentence
  dsimp only
  split <;> exact ⟨rfl, rfl⟩

/-- What another sentence does to the opening of a line: the lone box makes it strict, and leaving
the lone box makes it ordinary. -/
theorem withSentence_opens (l : Line) (text : Text) :
    (l.withSentence text).opens =
      if l.isMarker && !(l.withSentence text).isMarker && l.opens.isSome then some .ordinary
      else openedKind l.opens (l.withSentence text).reading := by
  unfold withSentence
  dsimp only
  split
  · rename_i h
    exact (if_pos h).symm
  · rfl

theorem Proper.withSentence {l : Line} (hl : l.Proper) (text : Text) :
    (l.withSentence text).Proper := by
  have ho := l.withSentence_opens text
  split at ho
  · rename_i h
    rw [Bool.and_eq_true, Bool.and_eq_true, Bool.not_eq_true'] at h
    refine ⟨by rw [ho]; decide, fun hm _ => ?_⟩
    rw [h.1.2] at hm
    cases hm
  · exact openedKind_proper hl.rootless ho

/-- A sentence that is the lone box as before, or as before is not, keeps the opening. -/
theorem Proper.withSentence_opens_eq {l : Line} (hl : l.Proper) {text : Text}
    (hkeep : l.opens.isSome = true → (l.withSentence text).isMarker = l.isMarker) :
    (l.withSentence text).opens = l.opens := by
  have ho := l.withSentence_opens text
  cases hopens : l.opens with
  | none => simpa [hopens, openedKind] using ho
  | some kind =>
    have hk := hkeep (by rw [hopens]; rfl)
    rw [hk, Bool.and_not_self, Bool.false_and, if_neg Bool.false_ne_true] at ho
    rcases openedKind_cases l.opens (l.withSentence text).reading with ⟨e, -⟩ | ⟨e, hread, hsome⟩
    · rw [ho, e, hopens]
    · rw [isMarker_iff.mpr hread] at hk
      rw [ho, e, ← hl.strict hk.symm hsome, hopens]

/-- A property that every new line has, and that another sentence or justification keeps. -/
structure Lasting (P : Line → Prop) : Prop where
  created : ∀ {s j : Text} {depth : Int} {kind : Option ScopeKind} {l : Line}, kind ≠ some .root →
    create s j depth kind = .ok l → P l
  sentence : ∀ {l : Line} (text : Text), P l → P (l.withSentence text)
  justification : ∀ {l l' : Line} {text : Text}, P l → l.withJustification text = .ok l' → P l'

theorem proper_lasting : Lasting Proper :=
  ⟨create_proper, fun text hl => hl.withSentence text, fun hl h => hl.withJustification h⟩

end Line

/-! ## Documents -/

theorem mapM_ok {ε α β : Type} {f : α → Except ε β} {xs : List α} {ys : List β}
    (h : xs.mapM f = .ok ys) : ∀ y ∈ ys, ∃ x ∈ xs, f x = .ok y := by
  induction xs generalizing ys with
  | nil =>
    cases h
    intro y hy
    cases hy
  | cons x xs ih =>
    rw [List.mapM_cons] at h
    obtain ⟨y, hy, h⟩ := bind_ok.mp h
    obtain ⟨rest, hrest, h⟩ := bind_ok.mp h
    cases h
    intro z hz
    rcases List.mem_cons.mp hz with rfl | hz
    · exact ⟨x, List.mem_cons_self, hy⟩
    · obtain ⟨x', hx', hz'⟩ := ih hrest z hz
      exact ⟨x', List.mem_cons_of_mem x hx', hz'⟩

/-- An edit opens no second main proof. -/
def Edit.Rootless : Edit → Prop
  | .openSubproof _ _ kind _ _ => kind ≠ .root
  | _ => True

/-- An edit puts a line in the place of another one. -/
inductive Edit.Rewrites : Edit → Nat → Line → Line → Prop where
  | sentence (number : Int) (text : Text) (l : Line) :
      Rewrites (.sentence number text) number.toNat l (l.withSentence text)
  | justification (number : Int) (text : Text) {l l' : Line} :
      l.withJustification text = .ok l' → Rewrites (.justification number text) number.toNat l l'

theorem Edit.Rewrites.lasting {P : Line → Prop} (hP : Line.Lasting P) {e : Edit} {n : Nat}
    {l l' : Line} (h : e.Rewrites n l l') (hl : P l) : P l' := by
  cases h with
  | sentence number text => exact hP.sentence text hl
  | justification number text h => exact hP.justification hl h

namespace Document

theorem commit_cases {d d' : Document} {lines : List Line} {kind : ChangeKind} {numbers : List Nat}
    {change : Change} (h : d.commit lines kind numbers = .ok (d', change)) :
    Outline.build lines d.goal (d.revision + 1) = .ok d'.outline ∧ d'.goal = d.goal ∧
      change.kind = kind ∧ change.numbers = numbers := by
  unfold commit at h
  obtain ⟨o, ho, h⟩ := bind_ok.mp h
  cases h
  exact ⟨mapError_ok.mp ho, rfl, rfl, rfl⟩

theorem renumberLine_lasting {P : Line → Prop} (hP : Line.Lasting P) {shift : Nat → Option Int}
    {l l' : Line} (hl : P l) (h : renumberLine shift l = .ok l') : P l' := by
  unfold renumberLine at h
  obtain ⟨text, -, h⟩ := bind_ok.mp h
  cases text with
  | none =>
    cases h
    exact hl
  | some text => exact hP.justification hl h

theorem moved_lasting {P : Line → Prop} (hP : Line.Lasting P) {shift : Nat → Option Int}
    {lines moved : List Line} (hlines : ∀ l ∈ lines, P l)
    (h : lines.mapM (renumberLine shift) = .ok moved) : ∀ l ∈ moved, P l := by
  intro l hl
  obtain ⟨l₀, hl₀, e⟩ := mapM_ok h l hl
  exact renumberLine_lasting hP (hlines l₀ hl₀) e

theorem insert_cases {d d' : Document} {position : Int} {l : Line} {change : Change}
    (h : d.insert position l = .ok (d', change)) :
    change.kind = .insert ∧ d'.goal = d.goal ∧ ∃ lines,
      Outline.build lines d.goal (d.revision + 1) = .ok d'.outline ∧
      ∀ P, Line.Lasting P → (∀ k ∈ d.lines, P k) → P l → ∀ k ∈ lines, P k := by
  unfold insert at h
  split at h
  · obtain ⟨moved, hmoved, h⟩ := bind_ok.mp h
    obtain ⟨hbuild, hgoal, hkind, -⟩ := commit_cases h
    refine ⟨hkind, hgoal, _, hbuild, fun P hP hd hl k hk => ?_⟩
    have hlasting := moved_lasting hP hd (mapError_ok.mp hmoved)
    rcases List.mem_append.mp hk with hk | hk
    · exact hlasting k (List.mem_of_mem_take hk)
    · rcases List.mem_cons.mp hk with rfl | hk
      · exact hl
      · exact hlasting k (List.mem_of_mem_drop hk)
  · cases h

theorem place_cases {d d' : Document} {position : Int} {s j : Text} {depth : Int}
    {kind : Option ScopeKind} {change : Change} {l : Line}
    (h : ((Line.create s j depth kind).mapError EditError.numeral >>= fun k =>
      d.insert position k >>= fun (e, c) => pure (e, c, k)) = .ok (d', change, l)) :
    Line.create s j depth kind = .ok l ∧ d.insert position l = .ok (d', change) := by
  obtain ⟨k, hk, h⟩ := bind_ok.mp h
  obtain ⟨⟨d₁, c₁⟩, hins, h⟩ := bind_ok.mp h
  cases h
  exact ⟨mapError_ok.mp hk, hins⟩

theorem insertLine_cases {d d' : Document} {position : Int} {s j : Text} {depth : Option Int}
    {change : Change} {l : Line} (h : d.insertLine position s j depth = .ok (d', change, l)) :
    ∃ depth, Line.create s j depth none = .ok l ∧ d.insert position l = .ok (d', change) := by
  unfold insertLine at h
  cases depth with
  | none =>
    obtain ⟨depth, -, h⟩ := bind_ok.mp h
    exact ⟨depth, place_cases h⟩
  | some depth => exact ⟨depth, place_cases h⟩

theorem openSubproof_cases {d d' : Document} {position : Int} {s j : Text} {kind : ScopeKind}
    {depth : Option Int} {change : Change} {l : Line}
    (h : d.openSubproof position s kind depth j = .ok (d', change, l)) :
    ∃ depth, Line.create s j depth (some kind) = .ok l ∧ d.insert position l = .ok (d', change) := by
  unfold openSubproof at h
  cases depth with
  | none =>
    obtain ⟨depth, -, h⟩ := bind_ok.mp h
    exact ⟨depth, place_cases h⟩
  | some depth => exact ⟨depth, place_cases h⟩

theorem remove_cases {d d' : Document} {number : Int} {change : Change} {removed : List Nat}
    (h : d.remove number = .ok (d', change, removed)) :
    change.kind = .remove ∧ d'.goal = d.goal ∧ ∃ lines,
      Outline.build lines d.goal (d.revision + 1) = .ok d'.outline ∧
      ∀ P, Line.Lasting P → (∀ k ∈ d.lines, P k) → ∀ k ∈ lines, P k := by
  unfold remove at h
  split at h
  · obtain ⟨⟨first, last⟩, -, h⟩ := bind_ok.mp h
    obtain ⟨moved, hmoved, h⟩ := bind_ok.mp h
    obtain ⟨⟨d'', change'⟩, hcommit, h⟩ := bind_ok.mp h
    cases h
    obtain ⟨hbuild, hgoal, hkind, -⟩ := commit_cases hcommit
    refine ⟨hkind, hgoal, _, hbuild, fun P hP hd => moved_lasting hP ?_ (mapError_ok.mp hmoved)⟩
    intro k hk
    rcases List.mem_append.mp hk with hk | hk
    · exact hd k (List.mem_of_mem_take hk)
    · exact hd k (List.mem_of_mem_drop hk)
  · cases h

theorem lineAt_cases {d : Document} {number : Int} {l : Line} (h : d.lineAt number = .ok l) :
    d.outline.line? number.toNat = some l := by
  unfold lineAt at h
  split at h
  · rename_i k hk
    cases h
    split at hk
    · exact hk
    · cases hk
  · cases h

/-- What an edit comes to: the lines of the next revision, which are one line for another, or others
in number. -/
theorem edit_cases {d d' : Document} {e : Edit} {change : Change} {answer : EditAnswer}
    (h : d.edit e = .ok (d', change, answer)) :
    d'.goal = d.goal ∧ ∃ lines, Outline.build lines d.goal (d.revision + 1) = .ok d'.outline ∧
      ((change.kind ≠ .edit ∧
        (e.Rootless → ∀ P, Line.Lasting P → (∀ l ∈ d.lines, P l) → ∀ l ∈ lines, P l)) ∨
       ∃ n l l', change.kind = .edit ∧ change.numbers = [n] ∧ d.outline.line? n = some l ∧
        lines = d.lines.set (n - 1) l' ∧ e.Rewrites n l l') := by
  cases e with
  | insert position s j depth =>
    obtain ⟨⟨d₁, c₁, l₁⟩, h₁, h⟩ := bind_ok.mp h
    cases h
    obtain ⟨_, hl, hins⟩ := insertLine_cases h₁
    obtain ⟨hkind, hgoal, lines, hbuild, hlasting⟩ := insert_cases hins
    refine ⟨hgoal, lines, hbuild, .inl ⟨by rw [hkind]; decide, fun _ P hP hd => ?_⟩⟩
    exact hlasting P hP hd (hP.created (by decide) hl)
  | openSubproof position s kind depth j =>
    obtain ⟨⟨d₁, c₁, l₁⟩, h₁, h⟩ := bind_ok.mp h
    cases h
    obtain ⟨_, hl, hins⟩ := openSubproof_cases h₁
    obtain ⟨hkind, hgoal, lines, hbuild, hlasting⟩ := insert_cases hins
    refine ⟨hgoal, lines, hbuild, .inl ⟨by rw [hkind]; decide, fun hr P hP hd => ?_⟩⟩
    exact hlasting P hP hd (hP.created (fun e => hr (Option.some.inj e)) hl)
  | remove number =>
    obtain ⟨⟨d₁, c₁, removed⟩, h₁, h⟩ := bind_ok.mp h
    cases h
    obtain ⟨hkind, hgoal, lines, hbuild, hlasting⟩ := remove_cases h₁
    exact ⟨hgoal, lines, hbuild, .inl ⟨by rw [hkind]; decide, fun _ => hlasting⟩⟩
  | sentence number text =>
    obtain ⟨⟨d₁, c₁, l₁⟩, h₁, h⟩ := bind_ok.mp h
    cases h
    obtain ⟨l, hl, h₁⟩ := bind_ok.mp h₁
    obtain ⟨⟨d₂, c₂⟩, hrep, h₁⟩ := bind_ok.mp h₁
    cases h₁
    obtain ⟨hbuild, hgoal, hkind, hnumbers⟩ := commit_cases hrep
    exact ⟨hgoal, _, hbuild, .inr ⟨_, l, _, hkind, hnumbers, lineAt_cases hl, rfl,
      .sentence number text l⟩⟩
  | justification number text =>
    obtain ⟨⟨d₁, c₁, l₁⟩, h₁, h⟩ := bind_ok.mp h
    cases h
    obtain ⟨l, hl, h₁⟩ := bind_ok.mp h₁
    obtain ⟨l', hl', h₁⟩ := bind_ok.mp h₁
    obtain ⟨⟨d₂, c₂⟩, hrep, h₁⟩ := bind_ok.mp h₁
    cases h₁
    obtain ⟨hbuild, hgoal, hkind, hnumbers⟩ := commit_cases hrep
    exact ⟨hgoal, _, hbuild, .inr ⟨_, l, _, hkind, hnumbers, lineAt_cases hl, rfl,
      .justification number text (mapError_ok.mp hl')⟩⟩

/-- An edit keeps every lasting property of the lines. -/
theorem edit_lasting {P : Line → Prop} (hP : Line.Lasting P) {d d' : Document}
    (hd : ∀ l ∈ d.lines, P l) {e : Edit} (he : e.Rootless) {change : Change} {answer : EditAnswer}
    (h : d.edit e = .ok (d', change, answer)) : d'.outline.Nested ∧ ∀ l ∈ d'.lines, P l := by
  obtain ⟨-, lines, hbuild, hcase⟩ := edit_cases h
  obtain ⟨hnested, hlines, -, -⟩ := Outline.build_cases hbuild
  refine ⟨hnested, ?_⟩
  show ∀ l ∈ d'.outline.lines, P l
  rw [hlines]
  rcases hcase with ⟨-, hlasting⟩ | ⟨n, l, l', -, -, hl, rfl, hrw⟩
  · exact hlasting he P hP hd
  · intro k hk
    rcases List.mem_or_eq_of_mem_set hk with hk | rfl
    · exact hd k hk
    · exact hrw.lasting hP (hd l (List.mem_of_getElem? (Outline.line?_eq_some.mp hl).2))

end Document

theorem Edit.Rewrites.bare_eq {e : Edit} {n : Nat} {l l' : Line} (h : e.Rewrites n l l')
    (hl : l.Proper) (hkeep : l.opens.isSome = true → l'.isMarker = l.isMarker) :
    l'.bare = l.bare := by
  have hsame : l'.depth = l.depth ∧ l'.opens = l.opens := by
    cases h with
    | sentence number text =>
      exact ⟨(l.withSentence_justification text).2, hl.withSentence_opens_eq hkeep⟩
    | justification number text h => exact (Line.withJustification_cases h).2
  unfold Line.bare
  rw [hsame.1, hsame.2]

theorem map_set_eq {α β : Type} {f : α → β} {xs : List α} {i : Nat} {a b : α}
    (h : xs[i]? = some a) (hf : f b = f a) : (xs.set i b).map f = xs.map f := by
  apply List.ext_getElem?
  intro k
  rw [List.map_set]
  by_cases hk : i = k
  · subst hk
    have hlt := (List.getElem?_eq_some_iff.mp h).1
    rw [List.getElem?_set_self (by rwa [List.length_map]), List.getElem?_map, h, hf]
    rfl
  · rw [List.getElem?_set_ne hk]

/-- The other lines of an outline stay when one line is replaced. -/
theorem Outline.replace_others {o o' : Outline} {n : Nat} {l' : Line} {goal : Option Goal}
    {revision : Nat} (hn : n ≠ 0)
    (hbuild : Outline.build (o.lines.set (n - 1) l') goal revision = .ok o') :
    o'.size = o.size ∧ ∀ k, k ≠ n → o'.line? k = o.line? k := by
  obtain ⟨-, hlines, -, -⟩ := Outline.build_cases hbuild
  refine ⟨by unfold Outline.size; rw [hlines, List.length_set], fun k hk => ?_⟩
  unfold Outline.line?
  split
  · rfl
  · rw [hlines, List.getElem?_set_ne (by omega)]

/-- A line in the place of one with the same depth and opening, and at the opening of a subproof the
lone box for the lone box, leaves an outline that is alike. -/
theorem Outline.Nested.edited {o o' : Outline} (ho : o.Nested) {n : Nat} {l l' : Line}
    (hl : o.line? n = some l) (hsame : l'.bare = l.bare)
    (hkeep : l.opens.isSome = true → l'.isMarker = l.isMarker) {goal : Option Goal} {revision : Nat}
    (hbuild : Outline.build (o.lines.set (n - 1) l') goal revision = .ok o') : o.Edited o' n := by
  obtain ⟨-, hlines, -, -⟩ := Outline.build_cases hbuild
  obtain ⟨hn, hat⟩ := Outline.line?_eq_some.mp hl
  have hlt := (List.getElem?_eq_some_iff.mp hat).1
  have hnew : o'.line? n = some l' := by
    rw [Outline.line?_eq_some, hlines, List.getElem?_set_self hlt]
    exact ⟨hn, rfl⟩
  obtain ⟨hsize, hothers⟩ := Outline.replace_others hn hbuild
  have hbare : (o.lines.set (n - 1) l').map Line.bare = o.lines.map Line.bare := map_set_eq hat hsame
  obtain ⟨hscopes, hhomes⟩ := Outline.build_shape hbare ho hbuild
  refine ⟨⟨hscopes, hhomes, hsize, ?_⟩, hothers⟩
  intro s hs hroot
  unfold Outline.isMarkerAt
  by_cases hfirst : s.first = n
  · have hk := ho.hasScope_of_mem hs
    have h0 : s.id ≠ 0 := by
      intro h0
      rw [Scope.isRoot, (ho.main_scope hk h0).2] at hroot
      cases hroot
    obtain ⟨_, k, -, -, -, -, hline, hopens, -⟩ := ho.subproof hk h0
    rw [hfirst, hl] at hline
    cases hline
    rw [hfirst, hl, hnew, Option.any_some, Option.any_some, hkeep (by rw [hopens]; rfl)]
  · rw [hothers s.first hfirst]

/-- An edit that keeps what opens the subproofs leaves an outline that is alike. -/
theorem Edit.Rewrites.edited {e : Edit} {n : Nat} {l l' : Line} (h : e.Rewrites n l l')
    {o o' : Outline} (ho : o.Nested) (hproper : ∀ k ∈ o.lines, k.Proper) (hl : o.line? n = some l)
    (hkeep : l.opens.isSome = true → l'.isMarker = l.isMarker) {goal : Option Goal} {revision : Nat}
    (hbuild : Outline.build (o.lines.set (n - 1) l') goal revision = .ok o') : o.Edited o' n := by
  have hmem := List.mem_of_getElem? (Outline.line?_eq_some.mp hl).2
  exact ho.edited hl (h.bare_eq (hproper l hmem) hkeep) hkeep hbuild

/-- The premises before a line depend on the depths and the labels of the lines. -/
theorem Pass.onlyPremises_replaced {o o' : Outline} {n : Nat} {l l' : Line} (hl : o.line? n = some l)
    (hdepth : l'.depth = l.depth) (hlabel : l'.isPremise = l.isPremise) {goal : Option Goal}
    {revision : Nat} (hbuild : Outline.build (o.lines.set (n - 1) l') goal revision = .ok o')
    (count : Nat) : Pass.onlyPremises o' count = Pass.onlyPremises o count := by
  obtain ⟨-, hlines, -, -⟩ := Outline.build_cases hbuild
  obtain ⟨-, hat⟩ := Outline.line?_eq_some.mp hl
  have hsame : (decide (l'.depth = 0) && l'.isPremise) = (decide (l.depth = 0) && l.isPremise) := by
    rw [hdepth, hlabel]
  have hall : ∀ lines : List Line, ((lines.take count).all fun k => k.depth = 0 && k.isPremise) =
      ((lines.map fun k => decide (k.depth = 0) && k.isPremise).take count).all id := by
    intro lines
    rw [← List.map_take, List.all_map]
    rfl
  unfold Pass.onlyPremises
  rw [hlines, hall, hall, map_set_eq hat hsame]

/-- Another sentence leaves the labels of the lines. -/
theorem Pass.onlyPremises_withSentence {o o' : Outline} {n : Nat} {l : Line} {text : Text}
    (hl : o.line? n = some l) {goal : Option Goal} {revision : Nat}
    (hbuild : Outline.build (o.lines.set (n - 1) (l.withSentence text)) goal revision = .ok o')
    (count : Nat) : Pass.onlyPremises o' count = Pass.onlyPremises o count := by
  obtain ⟨hj, hdepth⟩ := l.withSentence_justification text
  have hlabel : (l.withSentence text).isPremise = l.isPremise := by
    unfold Line.isPremise Line.ruleLabel?
    rw [hj]
  exact onlyPremises_replaced hl hdepth hlabel hbuild count

end ModalFitch
