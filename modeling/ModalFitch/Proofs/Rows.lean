import ModalFitch.Document.Rows
import ModalFitch.Proofs.Placement

/-! A document that is read back from its own rows.

A row says what its line opens only where the line opens something. So a line that opens nothing is
read back as it was, unless it looks like an opening.

* `Line.Created`: a line that its texts make. The edits keep it.
* `Line.Misleading`: a line inside a subproof that opens nothing and is labelled as a premise, or is
  the lone box.
* `Document.linesOfRows_toRows`: what the rows of lines that fit are read as.
* `rows_round_trip`: the lines come back exactly where none of them is misleading. -/

namespace ModalFitch
set_option autoImplicit false

/-! ## Lines that their texts make -/

namespace Line

theorem create_iff {s j : Text} {depth : Int} {kind : Option ScopeKind} {l : Line} :
    create s j depth kind = .ok l ↔ l.sentenceText = s ∧ l.justificationText = j ∧
      l.depth = depth ∧ l.opens = openedKind kind l.reading ∧ l.reading = Sentence.read s ∧
      l.Faithful := by
  constructor
  · intro h
    obtain ⟨hfaithful, htext⟩ := create_faithful h
    obtain ⟨hread, hdepth, hopens⟩ := create_cases h
    refine ⟨?_, htext, hdepth, hopens, hread, hfaithful⟩
    unfold create at h
    split at h <;> cases h <;> rfl
  · rintro ⟨rfl, rfl, rfl, hopens, hread, hfaithful⟩
    unfold Faithful at hfaithful
    unfold create
    rw [hfaithful, ← hread]
    dsimp only
    rw [← hopens]
    cases hj : l.justification <;> simp only [Except.mapError, ← hj]

/-- The same texts make the same line, but for what it opens. -/
theorem create_again {s j : Text} {depth : Int} {kind : Option ScopeKind} {l : Line}
    (h : create s j depth kind = .ok l) (kind' : Option ScopeKind) :
    create s j depth kind' = .ok { l with opens := openedKind kind' l.reading } := by
  obtain ⟨hs, hj, hdepth, -, hread, hfaithful⟩ := create_iff.mp h
  exact create_iff.mpr ⟨hs, hj, hdepth, rfl, hread, hfaithful⟩

/-- The line is made from its texts, and opens no second main proof. -/
def Created (l : Line) : Prop :=
  ∃ s j depth kind, kind ≠ some .root ∧ create s j depth kind = .ok l

theorem Proper.openedKind_eq {l : Line} (h : l.Proper) :
    openedKind l.opens l.reading = l.opens := by
  rcases openedKind_cases l.opens l.reading with ⟨e, -⟩ | ⟨e, hmarker, hsome⟩
  · exact e
  · rw [e, h.strict (isMarker_iff.mpr hmarker) hsome]

theorem created_iff {l : Line} :
    l.Created ↔ l.reading = Sentence.read l.sentenceText ∧ l.Faithful ∧ l.Proper := by
  constructor
  · rintro ⟨s, j, depth, kind, hk, h⟩
    obtain ⟨rfl, -, -, -, hread, hfaithful⟩ := create_iff.mp h
    exact ⟨hread, hfaithful, create_proper hk h⟩
  · rintro ⟨hread, hfaithful, hproper⟩
    exact ⟨_, _, _, l.opens, hproper.rootless,
      create_iff.mpr ⟨rfl, rfl, rfl, hproper.openedKind_eq.symm, hread, hfaithful⟩⟩

theorem createLines_created {rows : List (Text × Text × Int × Option ScopeKind)}
    (h : ∀ row ∈ rows, row.2.2.2 ≠ some .root) : ∀ l ∈ createLines rows, l.Created := by
  intro l hl
  obtain ⟨s, j, depth, kind, hrow, hc⟩ := mem_createLines hl
  exact ⟨s, j, depth, kind, h _ hrow, hc⟩

theorem created_lasting : Lasting Created where
  created hk h := ⟨_, _, _, _, hk, h⟩
  sentence text h := by
    obtain ⟨-, hfaithful, hproper⟩ := created_iff.mp h
    refine created_iff.mpr ⟨?_, withSentence_faithful hfaithful text, hproper.withSentence text⟩
    unfold withSentence
    dsimp only
    split <;> rfl
  justification h hl := by
    obtain ⟨hread, -, hproper⟩ := created_iff.mp h
    obtain ⟨hfaithful, -, hframe⟩ := withJustification_faithful hl
    refine created_iff.mpr ⟨?_, hfaithful, hproper.withJustification hl⟩
    rw [(withJustification_cases hl).1, hread]
    exact congrArg Sentence.read (congrArg Prod.fst hframe).symm

/-! ## Lines that look like openings -/

/-- A line inside a subproof that opens nothing and is labelled as a premise, or is the lone box. -/
def Misleading (l : Line) : Prop :=
  0 < l.depth ∧ l.opens = none ∧ (l.isPremise = true ∨ l.isMarker = true)

instance (l : Line) : Decidable l.Misleading :=
  inferInstanceAs (Decidable (_ ∧ _ ∧ (_ ∨ _)))

/-- What the row of a line is read as: a misleading line becomes an opening. -/
def reread (l : Line) : Line :=
  if l.Misleading then { l with opens := openedKind (some .ordinary) l.reading } else l

theorem reread_depth (l : Line) : l.reread.depth = l.depth := by
  unfold reread
  split <;> rfl

theorem reread_opens {l : Line} (h : l.Misleading) : l.reread.opens.isSome = true := by
  unfold reread
  rw [if_pos h]
  exact openedKind_isSome _ _

theorem reread_eq {l : Line} (h : ¬l.Misleading) : l.reread = l := if_neg h

theorem reread_follows {l : Line} {before : Int} (h : l.Follows before) :
    l.reread.Follows before := by
  by_cases hm : l.Misleading
  · have hopens := reread_opens hm
    obtain ⟨hpos, hnone, -⟩ := hm
    unfold Follows at h ⊢
    rw [hnone, Option.isSome_none, if_neg Bool.false_ne_true] at h
    rw [hopens, if_pos rfl, reread_depth]
    omega
  · rwa [reread_eq hm]

end Line

theorem fits_reread {before : Int} {lines : List Line} (h : Fits before lines) :
    Fits before (lines.map Line.reread) := by
  induction lines generalizing before with
  | nil => trivial
  | cons l rest ih =>
    rw [List.map_cons, Fits, Line.reread_depth]
    exact ⟨Line.reread_follows h.1, ih h.2⟩

/-! ## Rows -/

theorem Line.ofJson_toRow {l : Line} (h : l.opens ≠ some .root) :
    Row.ofJson l.toRow = .ok ⟨l.depth, l.sentenceText, l.justificationText, l.opens⟩ := by
  obtain ⟨s, j, depth, opens, reading, justification⟩ := l
  cases opens with
  | none => rfl
  | some kind =>
    cases kind with
    | root => exact absurd rfl h
    | ordinary => rfl
    | modal => rfl

namespace Row

theorem refuse_ne_ok {α : Type} {v : Json} {error : String → RowError} {a : α} :
    refuse v error ≠ .ok a := by
  intro h
  obtain ⟨shown, -, h⟩ := bind_ok.mp h
  cases h

theorem readKind_rootless {v : Json} {kind : Option ScopeKind} (h : readKind v = .ok kind) :
    kind ≠ some .root := by
  unfold readKind at h
  split at h
  · split at h
    · split at h
      · cases h
      · rename_i k hne _
        cases h
        intro e
        exact hne (Option.some.inj e)
      · exact absurd h refuse_ne_ok
    · exact absurd h refuse_ne_ok
  · cases h
    exact Option.some_ne_none _ ∘ Eq.symm

theorem make_rootless {d s j o : Json} {r : Row} (h : make d s j o = .ok r) :
    r.opens ≠ some .root := by
  obtain ⟨depth, -, h⟩ := bind_ok.mp h
  obtain ⟨sentence, -, h⟩ := bind_ok.mp h
  obtain ⟨justification, -, h⟩ := bind_ok.mp h
  obtain ⟨kind, hkind, h⟩ := bind_ok.mp h
  cases h
  exact readKind_rootless hkind

/-- A row opens no second main proof. -/
theorem ofJson_rootless {v : Json} {r : Row} (h : ofJson v = .ok r) : r.opens ≠ some .root := by
  have hitems : ∀ {row : Json} {items : List Json}, ofItems row items = .ok r →
      r.opens ≠ some .root := by
    intro row items h
    unfold ofItems at h
    split at h
    · exact make_rootless h
    · exact make_rootless h
    · exact absurd h refuse_ne_ok
  unfold ofJson at h
  split at h
  · exact make_rootless h
  · exact hitems h
  · exact hitems h
  · cases h

/-- The line of a row after a row of some depth: what it opens where the row does not say so rests
on its depth, its label and its sentence. -/
theorem line_iff {r : Row} {before : Int} {l : Line} : r.line before = .ok l ↔
    Line.create r.sentence r.justification r.depth (r.opens.or
      (if 0 < r.depth ∧ (before < r.depth ∨ l.isPremise = true ∨ l.isMarker = true)
        then some .ordinary else none)) = .ok l := by
  have hkind : ∀ plain : Line, plain.isPremise = l.isPremise → plain.isMarker = l.isMarker →
      (if 0 < r.depth && (before < r.depth || plain.isPremise || plain.isMarker)
        then some ScopeKind.ordinary else none) =
      (if 0 < r.depth ∧ (before < r.depth ∨ l.isPremise = true ∨ l.isMarker = true)
        then some .ordinary else none) := by
    intro plain hpremise hmarker
    rw [hpremise, hmarker]
    simp [or_assoc]
  unfold Row.line
  constructor
  · intro h
    obtain ⟨plain, hplain, h⟩ := bind_ok.mp h
    have hl := h
    rw [Line.create_again hplain, Except.ok.injEq] at hl
    cases ho : r.opens with
    | some kind =>
      rw [ho] at h
      exact h
    | none =>
      rw [ho] at h
      rw [Option.none_or, ← hkind plain (by rw [← hl]; rfl) (by rw [← hl]; rfl)]
      exact h
  · intro h
    have hplain := Line.create_again h none
    refine bind_ok.mpr ⟨_, hplain, ?_⟩
    cases ho : r.opens with
    | some kind =>
      rw [ho] at h
      exact h
    | none =>
      rw [ho, Option.none_or,
        ← hkind { l with opens := Line.openedKind none l.reading } rfl rfl] at h
      exact h

/-- The line of a row is made from its texts. It is not misleading: it would have been taken for an
opening. -/
theorem line_cases {r : Row} (hr : r.opens ≠ some .root) {before : Int} {l : Line}
    (h : r.line before = .ok l) : l.Created ∧ ¬l.Misleading := by
  rw [line_iff] at h
  constructor
  · refine ⟨_, _, _, _, fun e => ?_, h⟩
    rcases Option.or_eq_some_iff.mp e with e | ⟨-, e⟩
    · exact hr e
    · split at e <;> cases e
  · rintro ⟨hpos, hnone, hlooks⟩
    obtain ⟨-, -, hdepth, hopens, -, -⟩ := Line.create_iff.mp h
    have hsome := congrArg Option.isSome hopens
    rw [hnone, Line.openedKind_isSome, if_pos ⟨hdepth ▸ hpos, .inr hlooks⟩] at hsome
    simp at hsome

end Row

/-- A line that fits after the line before it is read back from its row. -/
theorem Line.Created.line_reread {l : Line} (h : l.Created) {before : Int} (hf : l.Follows before) :
    (Row.mk l.depth l.sentenceText l.justificationText l.opens).line before = .ok l.reread := by
  obtain ⟨hread, hfaithful, hproper⟩ := created_iff.mp h
  have hsame : l.reread.isPremise = l.isPremise ∧ l.reread.isMarker = l.isMarker := by
    unfold reread
    split <;> exact ⟨rfl, rfl⟩
  rw [Row.line_iff, hsame.1, hsame.2]
  dsimp only
  by_cases hm : l.Misleading
  · rw [hm.2.1, Option.none_or, if_pos ⟨hm.1, .inr hm.2.2⟩, reread, if_pos hm]
    exact create_iff.mpr ⟨rfl, rfl, rfl, rfl, hread, hfaithful⟩
  · rw [reread_eq hm]
    have hkind : l.opens.or (if 0 < l.depth ∧ (before < l.depth ∨ l.isPremise = true ∨
        l.isMarker = true) then some .ordinary else none) = l.opens := by
      cases ho : l.opens with
      | some kind => rfl
      | none =>
        -- it is no deeper than the line before it, as it opens nothing
        unfold Follows at hf
        rw [ho, Option.isSome_none, if_neg Bool.false_ne_true] at hf
        rw [Option.none_or, if_neg]
        rintro ⟨hpos, hdeeper | hlooks⟩
        · omega
        · exact hm ⟨hpos, ho, hlooks⟩
    rw [hkind]
    exact create_iff.mpr ⟨rfl, rfl, rfl, hproper.openedKind_eq.symm, hread, hfaithful⟩

namespace Document

/-- What the rows of lines that fit are read as. -/
theorem linesOfRows_toRows {before : Int} {lines : List Line} (hlines : ∀ l ∈ lines, l.Created)
    (h : Fits before lines) :
    linesOfRows before (lines.map Line.toRow) = .ok (lines.map Line.reread) := by
  induction lines generalizing before with
  | nil => rfl
  | cons l rest ih =>
    have hl := hlines l List.mem_cons_self
    have hroot := (Line.created_iff.mp hl).2.2.rootless
    have hrest := ih (fun k hk => hlines k (List.mem_cons_of_mem l hk)) h.2
    rw [List.map_cons, linesOfRows, Line.ofJson_toRow hroot]
    refine bind_ok.mpr ⟨_, rfl, bind_ok.mpr ⟨l.reread, ?_, bind_ok.mpr ⟨_, hrest, rfl⟩⟩⟩
    exact mapError_ok.mpr (hl.line_reread h.1)

theorem linesOfRows_cases {before : Int} {rows : List Json} {lines : List Line}
    (h : linesOfRows before rows = .ok lines) : ∀ l ∈ lines, l.Created ∧ ¬l.Misleading := by
  induction rows generalizing before lines with
  | nil =>
    cases h
    intro l hl
    cases hl
  | cons v rest ih =>
    obtain ⟨r, hr, h⟩ := bind_ok.mp h
    obtain ⟨l, hl, h⟩ := bind_ok.mp h
    obtain ⟨ls, hls, h⟩ := bind_ok.mp h
    cases h
    intro k hk
    rcases List.mem_cons.mp hk with rfl | hk
    · exact Row.line_cases (Row.ofJson_rootless (mapError_ok.mp hr)) (mapError_ok.mp hl)
    · exact ih hls k hk

theorem ofRows_iff {rows : List Json} {goal : Json} {d : Document} : ofRows rows goal = .ok d ↔
    ∃ lines g, linesOfRows 0 rows = .ok lines ∧ readGoal goal = .ok g ∧
      ofLines lines g = .ok d := by
  unfold ofRows
  simp only [bind_ok, mapError_ok]
  constructor
  · rintro ⟨lines, hlines, g, hg, h⟩
    exact ⟨lines, g, hlines, hg, h⟩
  · rintro ⟨lines, g, hlines, hg, h⟩
    exact ⟨lines, hlines, g, hg, h⟩

theorem ofRows_cases {rows : List Json} {goal : Json} {d : Document}
    (h : ofRows rows goal = .ok d) :
    d.outline.Nested ∧ ∀ l ∈ d.lines, l.Created ∧ ¬l.Misleading := by
  obtain ⟨lines, g, hlines, -, h⟩ := ofRows_iff.mp h
  obtain ⟨hnested, hd, -, -⟩ := Outline.build_cases (ofLines_iff.mp h).1
  refine ⟨hnested, ?_⟩
  show ∀ l ∈ d.outline.lines, _
  rw [hd]
  exact linesOfRows_cases hlines

/-- A laid out document of lines that their texts make, a document of rows, and what edits make of
them. -/
inductive Authored : Document → Prop where
  | lines {d : Document} : d.outline.Nested → (∀ l ∈ d.lines, l.Created) → Authored d
  | rows {rows : List Json} {goal : Json} {d : Document} : ofRows rows goal = .ok d → Authored d
  | edit {d d' : Document} {e : Edit} {change : Change} {answer : EditAnswer} :
      Authored d → e.Rootless → d.edit e = .ok (d', change, answer) → Authored d'

theorem Authored.created {d : Document} (h : d.Authored) :
    d.outline.Nested ∧ ∀ l ∈ d.lines, l.Created := by
  induction h with
  | lines hd hlines => exact ⟨hd, hlines⟩
  | rows h =>
    obtain ⟨hd, hlines⟩ := ofRows_cases h
    exact ⟨hd, fun l hl => (hlines l hl).1⟩
  | edit _ he h ih => exact edit_lasting Line.created_lasting ih.2 he h

theorem Authored.reread {d : Document} (h : d.Authored) :
    ∃ d', ofRows d.toRows .null = .ok d' ∧ d'.lines = d.lines.map Line.reread := by
  obtain ⟨hd, hlines⟩ := h.created
  obtain ⟨o, ho⟩ : ∃ o, Outline.build (d.lines.map Line.reread) none 0 = .ok o :=
    Outline.build_iff_fits.mpr (fits_reread hd.fits)
  refine ⟨⟨o, none⟩, ofRows_iff.mpr ⟨_, none, linesOfRows_toRows hlines hd.fits, rfl, ?_⟩,
    (Outline.build_cases ho).2.1⟩
  exact ofLines_iff.mpr ⟨ho, rfl⟩

end Document

/-- The rows of a document can be read back. They give the same lines exactly where no line is
misleading, which is so of every document that came from rows. -/
theorem rows_round_trip {d : Document} (h : d.Authored) :
    ∃ d', Document.ofRows d.toRows .null = .ok d' ∧
      (List.Forall₂ (fun l' l => l'.sameText l = true) d'.lines d.lines ↔
        ∀ l ∈ d.lines, ¬l.Misleading) ∧
      ((∀ l ∈ d.lines, ¬l.Misleading) → d'.lines = d.lines) ∧
      ∀ rows goal, Document.ofRows rows goal = .ok d → d'.lines = d.lines := by
  obtain ⟨d', hd', hlines⟩ := h.reread
  have hback : (∀ l ∈ d.lines, ¬l.Misleading) → d'.lines = d.lines := by
    intro hplain
    rw [hlines, List.map_congr_left fun l hl => Line.reread_eq (hplain l hl), List.map_id']
  refine ⟨d', hd', ⟨?_, ?_⟩, hback, ?_⟩
  · rw [hlines, List.forall₂_map_left_iff, List.forall₂_same]
    intro hsame l hl hm
    -- a misleading line comes back with an opening
    have hopens := Line.reread_opens hm
    have htexts := hsame l hl
    simp only [Line.sameText, Bool.and_eq_true, decide_eq_true_eq] at htexts
    rw [htexts.2, hm.2.1] at hopens
    cases hopens
  · intro hplain
    rw [hback hplain, List.forall₂_same]
    intro l _
    simp [Line.sameText]
  · intro rows goal hrows
    exact hback fun l hl => ((Document.ofRows_cases hrows).2 l hl).2

/-- A premise and a subproof. -/
def openedRows : List Json :=
  [.arr [.int 0, .str "P", .str "PR"], .arr [.int 1, .str "Q", .str "AS"]]

/-- A premise that is typed into the subproof comes back as an opening. -/
theorem rows_round_trip_premise : ∃ d₀ d change answer d',
    Document.ofRows openedRows .null = .ok d₀ ∧
    d₀.edit (.insert 3 "R" "PR" (some 1)) = .ok (d, change, answer) ∧
    Document.ofRows d.toRows .null = .ok d' ∧
    ¬List.Forall₂ (fun l' l => l'.sameText l = true) d'.lines d.lines := by
  obtain ⟨d₀, h₀, h⟩ := exists_ok (x := Document.ofRows openedRows .null)
    (p := fun d => (d.edit (.insert 3 "R" "PR" (some 1))).toOption.any fun (d, _, _) =>
      d.lines.any fun l => decide l.Misleading)
    (by decide +kernel)
  obtain ⟨⟨d, change, answer⟩, hd, hlooks⟩ := exists_ok h
  obtain ⟨l, hl, hm⟩ := List.any_eq_true.mp hlooks
  have he : (Edit.insert 3 "R" "PR" (some 1)).Rootless := trivial
  obtain ⟨d', hd', hsame, -, -⟩ := rows_round_trip (.edit (.rows h₀) he hd)
  exact ⟨d₀, d, change, answer, d', h₀, hd, hd', fun h => hsame.mp h l hl (of_decide_eq_true hm)⟩

end ModalFitch
