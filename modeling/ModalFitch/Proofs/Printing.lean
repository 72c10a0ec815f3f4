import ModalFitch.CommandLine.Run
import ModalFitch.Proofs.Refusals
import ModalFitch.Proofs.Rows

/-! Which reports can be printed.

A report is printed as a whole or not at all. It quotes texts of the document, and a text with half a
surrogate pair cannot be written; it names the goal, and a goal may hold a number that is too long to
be written.

* `Text.Whole`: a text without halves, which is one that can be written.
* `Json.atoms`: the values without parts within a value.
* `Json.shown_iff` and `Json.indented_whole`: which values are shown, and which are printed.
* `Line.quoted`: what a report quotes of a line.
* `Document.printable_iff`: a report is printed exactly if what it quotes can be written. -/

namespace ModalFitch
set_option autoImplicit false

theorem exists_bind_ok {ε α β : Type} {x : Except ε α} {f : α → Except ε β} :
    (∃ b, (x >>= f) = .ok b) ↔ ∃ a, x = .ok a ∧ ∃ b, f a = .ok b := by
  simp only [bind_ok]
  exact ⟨fun ⟨b, a, ha, hb⟩ => ⟨a, ha, b, hb⟩, fun ⟨a, ha, b, hb⟩ => ⟨b, a, ha, hb⟩⟩

theorem exists_map_ok {ε α β : Type} {x : Except ε α} {f : α → β} :
    (∃ b, x.map f = .ok b) ↔ ∃ a, x = .ok a := by
  cases x with
  | ok a => simp [Except.map]
  | error e => simp [Except.map]

theorem exists_pure_ok {ε α : Type} (a : α) : ∃ b, (pure a : Except ε α) = .ok b := ⟨a, rfl⟩

/-! ## Texts -/

@[simp]
theorem CodePoint.isHalf_char (c : Char) : (CodePoint.char c).isHalf = false := rfl

namespace Text

/-- No half of a surrogate pair stands in the text. -/
def Whole (t : Text) : Prop := ∀ p ∈ t, p.isHalf = false

theorem written_iff {t : Text} : (∃ s, t.written = .ok s) ↔ t.Whole := by
  unfold written Whole
  rw [← List.findIdx?_eq_none_iff]
  cases t.findIdx? CodePoint.isHalf with
  | none => simp
  | some i => simp

@[simp]
theorem whole_nil : Whole [] := fun _ h => by cases h

@[simp]
theorem whole_cons {p : CodePoint} {t : Text} : Whole (p :: t) ↔ p.isHalf = false ∧ t.Whole :=
  List.forall_mem_cons

@[simp]
theorem whole_append {t u : Text} : Whole (t ++ u) ↔ t.Whole ∧ u.Whole := List.forall_mem_append

@[simp]
theorem whole_ofChars (cs : List Char) : (ofChars cs).Whole :=
  List.forall_mem_map.mpr fun _ _ => rfl

@[simp]
theorem whole_ofString (s : String) : (ofString s).Whole := whole_ofChars s.toList

theorem whole_flatMap {t : Text} {f : CodePoint → Text} :
    Whole (t.flatMap f) ↔ ∀ p ∈ t, (f p).Whole := List.forall_mem_flatMap

theorem whole_intercalate {sep : Text} (hsep : sep.Whole) {ts : List Text} :
    Whole (sep.intercalate ts) ↔ ∀ t ∈ ts, t.Whole := by
  induction ts with
  | nil => simp
  | cons t ts ih =>
    cases ts with
    | nil => simp
    | cons u ts => simp [List.intercalate_cons_cons, hsep, ih]

/-- Halves belong to no class of characters, so they are not dropped with one. -/
theorem whole_dropWhile {t : Text} {charClass : Char → Bool} :
    Whole (t.dropWhile (·.is charClass)) ↔ t.Whole := by
  induction t with
  | nil => rfl
  | cons p t ih =>
    rw [List.dropWhile_cons]
    split
    · rename_i hclass
      cases p with
      | char c => exact ih.trans (whole_cons.trans (and_iff_right rfl)).symm
      | half offset => cases hclass
    · rfl

theorem whole_reverse {t : Text} : Whole t.reverse ↔ t.Whole := by simp [Whole]

theorem whole_trim {t : Text} : t.trim.Whole ↔ t.Whole := by
  rw [trim, trimWith, whole_reverse, whole_dropWhile, whole_reverse, whole_dropWhile]

theorem whole_folded {t : Text} : t.folded.Whole ↔ t.Whole := by
  rw [folded, replaceChars, whole_flatMap, ← whole_trim (t := t)]
  refine forall₂_congr fun p _ => ?_
  cases p with
  | char c => simp
  | half offset => simp

end Text

/-! ## Values -/

namespace Json

mutual

/-- The values without parts within a value; the names of fields count as texts. -/
def atoms : Json → List Json
  | .arr items => itemAtoms items
  | .obj fields => fieldAtoms fields
  | v => [v]

def itemAtoms : List Json → List Json
  | [] => []
  | v :: rest => v.atoms ++ itemAtoms rest

def fieldAtoms : List (Text × Json) → List Json
  | [] => []
  | (key, v) :: rest => .str key :: (v.atoms ++ fieldAtoms rest)

end

/-- All whole numbers among the values can be written. -/
def Numbered (vs : List Json) : Prop := ∀ i, .int i ∈ vs → i.natAbs < 10 ^ Text.maxDigits

/-- All texts among the values are whole. -/
def Whole (vs : List Json) : Prop := ∀ t, .str t ∈ vs → t.Whole

theorem numbered_append {vs ws : List Json} : Numbered (vs ++ ws) ↔ Numbered vs ∧ Numbered ws := by
  simp [Numbered, or_imp, forall_and]

theorem numbered_text {t : Text} {vs : List Json} : Numbered (.str t :: vs) ↔ Numbered vs := by
  simp [Numbered]

theorem whole_append {vs ws : List Json} : Whole (vs ++ ws) ↔ Whole vs ∧ Whole ws := by
  simp [Whole, or_imp, forall_and]

theorem whole_text {t : Text} {vs : List Json} : Whole (.str t :: vs) ↔ t.Whole ∧ Whole vs := by
  simp [Whole]

@[simp]
theorem whole_arr {items : List Json} : Whole (atoms (.arr items)) ↔ ∀ v ∈ items, Whole v.atoms := by
  rw [atoms]
  induction items with
  | nil => simp [itemAtoms, Whole]
  | cons v rest ih => rw [itemAtoms, whole_append, ih, List.forall_mem_cons]

@[simp]
theorem whole_obj {fields : List (Text × Json)} :
    Whole (atoms (.obj fields)) ↔ ∀ f ∈ fields, f.1.Whole ∧ Whole f.2.atoms := by
  rw [atoms]
  induction fields with
  | nil => simp [fieldAtoms, Whole]
  | cons f rest ih =>
    rw [fieldAtoms, whole_text, whole_append, ih, List.forall_mem_cons, and_assoc]

@[simp]
theorem whole_str {t : Text} : Whole (atoms (.str t)) ↔ t.Whole := by simp [atoms, Whole]

@[simp]
theorem whole_null : Whole (atoms .null) := by simp [atoms, Whole]

@[simp]
theorem whole_bool (b : Bool) : Whole (atoms (.bool b)) := by simp [atoms, Whole]

@[simp]
theorem whole_int (i : Int) : Whole (atoms (.int i)) := by simp [atoms, Whole]

theorem whole_optional {t : Option Text} :
    Whole ((t.map Json.str).getD .null).atoms ↔ ∀ u ∈ t, u.Whole := by
  cases t with
  | none => simp
  | some t => simp

mutual

theorem shown_iff (v : Json) : (∃ s, v.shown = .ok s) ↔ Numbered v.atoms := by
  cases v with
  | null | bool b | float x | str s => simp [shown, atoms, Numbered]
  | int i =>
    rcases Text.textOfInt_cases i with ⟨hi, s, hs⟩ | ⟨hi, hs⟩
    · simp [shown, atoms, Numbered, hs, hi]
    · simp [shown, atoms, Numbered, hs, hi]
  | arr items =>
    rw [atoms, ← shownItems_iff items, shown]
    simp only [exists_bind_ok, exists_pure_ok, and_true]
  | obj fields =>
    rw [atoms, ← shownFields_iff fields, shown]
    simp only [exists_bind_ok, exists_pure_ok, and_true]

theorem shownItems_iff (items : List Json) :
    (∃ parts, shownItems items = .ok parts) ↔ Numbered (itemAtoms items) := by
  match items with
  | [] => simp [shownItems, itemAtoms, Numbered]
  | v :: rest =>
    rw [itemAtoms, numbered_append, ← shown_iff v, ← shownItems_iff rest, shownItems]
    simp only [exists_bind_ok, exists_pure_ok, and_true, exists_and_right]

theorem shownFields_iff (fields : List (Text × Json)) :
    (∃ parts, shownFields fields = .ok parts) ↔ Numbered (fieldAtoms fields) := by
  match fields with
  | [] => simp [shownFields, fieldAtoms, Numbered]
  | (key, v) :: rest =>
    rw [fieldAtoms, numbered_text, numbered_append, ← shown_iff v, ← shownFields_iff rest,
      shownFields]
    simp only [exists_bind_ok, exists_pure_ok, and_true, exists_and_right]

end

theorem asText_iff (v : Json) : (∃ t, v.asText = .ok t) ↔ Numbered v.atoms := by
  cases v with
  | str s => simp [asText, atoms, Numbered]
  | null | bool b | int i | float x | arr items | obj fields =>
    rw [asText, exists_map_ok, shown_iff]
    intro s h
    cases h

theorem asText_whole {v : Json} (hv : ∀ s, v ≠ .str s) {t : Text} (h : v.asText = .ok t) :
    t.Whole := by
  rw [asText] at h
  · cases hs : v.shown with
    | ok s =>
      rw [hs] at h
      cases h
      exact Text.whole_ofString s
    | error e =>
      rw [hs] at h
      cases h
  · exact hv

theorem writtenPoint_whole {p : CodePoint} : (writtenPoint p).Whole ↔ p.isHalf = false := by
  cases p with
  | char c =>
    refine iff_of_true ?_ rfl
    simp [writtenPoint, writtenEscape, writtenNumber, apply_ite Text.Whole]
  | half offset => simp [writtenPoint]

theorem writtenText_whole {t : Text} : (writtenText t).Whole ↔ t.Whole := by
  have hpoints : Text.Whole (t.flatMap writtenPoint) ↔ t.Whole :=
    Text.whole_flatMap.trans (forall₂_congr fun _ _ => writtenPoint_whole)
  simp [writtenText, hpoints]

theorem newLine_whole (level : Nat) : (newLine level).Whole := Text.whole_ofChars _

mutual

/-- Printing keeps the halves of the texts and adds none. -/
theorem indented_whole (v : Json) (level : Nat) : (indented level v).Whole ↔ Whole v.atoms := by
  match v with
  | .arr [] => simp [indented, atomText, atoms, itemAtoms, Whole]
  | .arr (v :: rest) =>
    simp [indented, atoms, itemAtoms, whole_append, newLine_whole, indented_whole v,
      indentedItems_whole rest]
  | .obj [] => simp [indented, atomText, atoms, fieldAtoms, Whole]
  | .obj ((key, v) :: rest) =>
    simp [indented, atoms, fieldAtoms, whole_text, whole_append, newLine_whole, writtenText_whole,
      indented_whole v, indentedFields_whole rest]
  | .str s => simp [indented, atomText, atoms, Whole, writtenText_whole]
  | .bool b => cases b <;> simp [indented, atomText, atoms, Whole]
  | .null | .int i | .float x => simp [indented, atomText, atoms, Whole]

theorem indentedItems_whole (items : List Json) (level : Nat) :
    (indentedItems level items).Whole ↔ Whole (itemAtoms items) := by
  match items with
  | [] => simp [indentedItems, itemAtoms, Whole]
  | v :: rest =>
    simp [indentedItems, itemAtoms, whole_append, newLine_whole, indented_whole v,
      indentedItems_whole rest]

theorem indentedFields_whole (fields : List (Text × Json)) (level : Nat) :
    (indentedFields level fields).Whole ↔ Whole (fieldAtoms fields) := by
  match fields with
  | [] => simp [indentedFields, fieldAtoms, Whole]
  | (key, v) :: rest =>
    simp [indentedFields, fieldAtoms, whole_text, whole_append, newLine_whole, writtenText_whole,
      indented_whole v, indentedFields_whole rest]

end

end Json

/-! ## Labels -/

theorem CheckCause.text_whole {c : CheckCause} : c.text.Whole ↔ c.label.Whole := by
  simp [CheckCause.text]

theorem CheckCause.label_of_ordinary {c : CheckCause} (h : c.isOrdinary = true) : c.label = [] := by
  cases c with
  | markerRule label => cases h
  | _ => rfl

/-- A label that names a rule is whole, as all names of rules are. -/
theorem RuleId.lookup_whole {label : Text} {rule : RuleId} (h : lookup label = some rule) :
    label.Whole := by
  unfold lookup at h
  obtain ⟨before, after, haliases, -⟩ := List.lookup_eq_some_iff.mp h
  have hmem : (label.folded, rule) ∈ aliases := by
    rw [haliases]
    exact List.mem_append_right before List.mem_cons_self
  obtain ⟨r, -, hname⟩ := List.mem_flatMap.mp hmem
  obtain ⟨name, -, e⟩ := List.mem_map.mp hname
  have hfolded : (Text.ofString name).folded = label.folded := congrArg Prod.fst e
  rw [← Text.whole_folded, ← hfolded, Text.whole_folded]
  exact Text.whole_ofString name

namespace Justification

theorem joinDashes_whole {t : Text} (h : t.Whole) : (joinDashes t).Whole := by
  have hfrom : ∀ b t, Text.Whole t → Text.Whole (joinDashesFrom b 0 t) := by
    refine join_induction (fun _ h => h) ?_ ?_
    · intro b p t e _ ih ht
      rw [e]
      exact Text.whole_cons.mpr ⟨(Text.whole_cons.mp ht).1, ih (Text.whole_cons.mp ht).2⟩
    · intro b p t rest _ hrest e ih ht
      rw [e]
      exact Text.whole_cons.mpr ⟨rfl, ih fun q hq => ht q (List.mem_cons_of_mem p (hrest.mem hq))⟩
  exact hfrom false t h

/-- The label of a justification is a piece of its text. -/
theorem rule_whole {t : Text} {j : Justification} (h : read t = .ok j) (ht : t.Whole) :
    j.rule.Whole := by
  unfold read at h
  split at h
  · cases h
  · rename_i rule rest hpieces
    obtain ⟨citations, -, h⟩ := bind_ok.mp h
    cases h
    have hpiece := (mem_pieces (t := t) (x := rule) (by rw [hpieces]; exact List.mem_cons_self)).2
    exact fun p hp => joinDashes_whole (Text.whole_trim.mpr ht) p (hpiece.subset hp)

end Justification

namespace Line

variable {l : Line}

theorem ruleLabel?_ok {j : Justification} (h : l.justification = .ok j) :
    l.ruleLabel? = some j.rule := by
  rw [ruleLabel?, h]
  rfl

theorem ruleLabel?_error {e : JustificationError} (h : l.justification = .error e) :
    l.ruleLabel? = none := by
  rw [ruleLabel?, h]
  rfl

theorem Faithful.label_whole (h : l.Faithful) (ht : l.justificationText.Whole) :
    ∀ t ∈ l.ruleLabel?, t.Whole := by
  unfold Faithful at h
  cases hj : l.justification with
  | error e => simp [ruleLabel?_error hj]
  | ok j =>
    rw [hj] at h
    simpa [ruleLabel?_ok hj] using Justification.rule_whole h ht

end Line

/-! ## Verdicts -/

namespace Pass

variable {p : Pass} {done : List Diagnostic} {number : Nat} {l : Line} {v : Verdict}

/-- The words in which a line is refused are whole where its label is. -/
theorem verdict_error_whole (h : p.verdict done number l = .ok v)
    (hlabel : ∀ t ∈ l.ruleLabel?, t.Whole) : ∀ e ∈ v.error?, e.text.Whole := by
  intro e he
  cases v with
  | unchecked | valid rule => cases he
  | invalid label error =>
    cases he
    rw [CheckError.text, CheckCause.text_whole]
    refine judge_refusals (P := fun cause => cause.label.Whole) ?_ ?_ number hlabel e
      (verdict_invalid_iff.mp h).2
    · intro cause hordinary
      rw [CheckCause.label_of_ordinary hordinary]
      exact Text.whole_nil
    · exact fun cs _ => checkClosure_refusals (fun _ _ _ => Text.whole_nil) p 0 cs

theorem Accepted.label_whole {found : Option RuleId} (h : p.Accepted done number l found) :
    ∀ t ∈ l.ruleLabel?, t.Whole := by
  have hlookup : ∀ {j : Justification} {rule : RuleId}, l.justification = .ok j →
      RuleId.lookup j.rule = some rule → ∀ t ∈ l.ruleLabel?, t.Whole := by
    intro j rule hj hrule
    simpa [Line.ruleLabel?_ok hj] using RuleId.lookup_whole hrule
  cases h with
  | marker _ hmarker =>
    unfold judgeMarker at hmarker
    split at hmarker
    · cases hmarker
    · split at hmarker
      · rename_i hj
        simp [Line.ruleLabel?_error hj]
      · cases hmarker
      · rename_i j hj
        split at hmarker
        · cases hmarker
        · rename_i hrule
          exact hlookup hj (not_not.mp hrule)
  | assumption _ _ _ hj =>
    rcases hj with hj | ⟨j, hj, hrule, -⟩
    · simp [Line.ruleLabel?_error hj]
    · exact hlookup hj hrule
  | premise _ _ hj hrule | placeholder _ _ hj hrule | rule _ _ hj hrule => exact hlookup hj hrule

/-- A verdict shows the label of its line, or that of the rule which the label names. -/
theorem verdict_rule_whole (h : p.verdict done number l = .ok v) :
    (∀ t ∈ v.ruleText, t.Whole) ↔ ∀ t ∈ l.ruleLabel?, t.Whole := by
  cases v with
  | unchecked => exact absurd h verdict_not_unchecked
  | valid rule =>
    refine iff_of_true ?_ (verdict_valid_iff.mp h).label_whole
    rw [Verdict.ruleText, Option.forall_mem_map]
    exact fun r _ => Text.whole_ofString r.label
  | invalid label error =>
    rw [(verdict_invalid_iff.mp h).1]
    rfl

end Pass

/-! ## Reports -/

namespace Goal

/-- The values without parts within a goal that is no sentence. -/
def atoms : Goal → List Json
  | .sentence _ => []
  | .other v => v.atoms

/-- The text of the goal, if there is a goal, can be written. -/
def Legible (goal : Option Goal) : Prop :=
  ∃ t, goal.mapM text = .ok t ∧ ∀ u ∈ t, u.Whole

end Goal

theorem Line.row_whole {l : Line} {number : Int} {v : Verdict} : (l.row number v).Whole ↔
    l.sentenceText.Whole ∧ l.justificationText.Whole ∧ ∀ e ∈ v.error?, e.text.Whole := by
  unfold row
  cases v.error? with
  | none => simp
  | some e => simp

theorem Diagnostic.toJson_whole {d : Diagnostic} : Json.Whole d.toJson.atoms ↔
    (∀ t ∈ d.verdict.ruleText, t.Whole) ∧ ∀ e ∈ d.verdict.error?, e.text.Whole := by
  unfold toJson
  cases d.verdict.error? with
  | none => simp [Json.whole_optional]
  | some e =>
    have hindex : Json.Whole ((e.index.map Json.int).getD .null).atoms := by
      cases e.index <;> simp
    simp [Json.whole_optional, hindex]

theorem Config.toJson_whole (c : Config) : Json.Whole c.toJson.atoms := by
  unfold toJson
  cases c.system <;> simp

namespace Report

variable {r : Report}

theorem toJson_whole : (∃ t, r.toJson.map (Json.indented 0) = .ok t ∧ t.Whole) ↔
    Goal.Legible r.goal ∧ ∀ d ∈ r.diagnostics, Json.Whole d.toJson.atoms := by
  unfold toJson Goal.Legible
  cases r.goal.mapM Goal.text with
  | error e => simp [bind, Except.bind, Except.map]
  | ok goal =>
    have hflag : ∀ b : Option Bool, Json.Whole ((b.map Json.bool).getD .null).atoms := by
      intro b
      cases b <;> simp
    simp [bind, Except.bind, pure, Except.pure, Except.map, Json.indented_whole,
      Json.whole_optional, Config.toJson_whole, hflag]

theorem text_whole {lines : List Line} : (∃ t, r.text lines = .ok t ∧ t.Whole) ↔
    Goal.Legible r.goal ∧
      ∀ x ∈ lines.zip r.diagnostics, (x.1.row x.2.number x.2.verdict).Whole := by
  unfold text Goal.Legible
  cases r.goal.mapM Goal.text with
  | error e => simp [bind, Except.bind]
  | ok goal =>
    have hsep : Text.Whole [.char '\n'] := by simp
    have hgoal : (∀ t ∈ goal.toList, (r.goalLine t).Whole) ↔ ∀ t ∈ goal, t.Whole := by
      simp [goalLine]
    simp only [bind, Except.bind, pure, Except.pure, Except.ok.injEq, exists_eq_left',
      Text.whole_intercalate hsep, List.forall_mem_append, List.forall_mem_map, Text.whole_ofString,
      hgoal, implies_true, true_and, and_true]
    exact and_comm

end Report

/-- A goal that was read from a value is whole, and its numbers alone can be too long. -/
theorem Document.readGoal_legible {v : Json} {goal : Option Goal} (h : readGoal v = .ok goal) :
    Goal.Legible goal ↔ ∀ g ∈ goal, Json.Numbered g.atoms := by
  have hsome : ∀ {g : Goal}, (∀ u, g.text = .ok u → u.Whole) →
      (Goal.Legible (some g) ↔ ∃ u, g.text = .ok u) := by
    intro g hwhole
    change (∃ t, some <$> g.text = .ok t ∧ ∀ u ∈ t, u.Whole) ↔ _
    cases hg : g.text with
    | ok u => simp [hwhole u hg]
    | error e => simp
  unfold readGoal at h
  split at h
  · cases h
    exact iff_of_true ⟨none, rfl, nofun⟩ nofun
  · rename_i s
    cases hs : Sentence.read s with
    | error e =>
      rw [hs] at h
      cases h
    | ok g =>
      rw [hs] at h
      cases h
      rw [hsome fun u hu => by cases hu; exact Text.whole_ofString _]
      simp [Goal.text, Goal.atoms, Json.Numbered]
  · rename_i hnull htext
    cases h
    rw [hsome (g := .other v) fun u hu => Json.asText_whole htext hu]
    simpa [Goal.text, Goal.atoms] using Json.asText_iff v

/-- What a report quotes of a line as it was written: with the report as an object the label alone,
else both texts. -/
def Line.quoted (l : Line) (json : Bool) : List Text :=
  if json then l.ruleLabel?.toList else [l.sentenceText, l.justificationText]

/-- What a report on the document quotes can be written. -/
structure Document.Printable (d : Document) (json : Bool) : Prop where
  lines : ∀ l ∈ d.lines, ∀ t ∈ l.quoted json, t.Whole
  goal : ∀ g ∈ d.goal, Json.Numbered g.atoms

namespace Report.From

variable {r : Report} {p : Pass} (f : r.From p)
include f

theorem forall_lines {P : Line → Prop} : (∀ l ∈ p.outline.lines, P l) ↔
    ∀ x ∈ p.outline.lines.zip r.diagnostics, P x.1 := by
  rw [← List.forall_mem_map (f := Prod.fst), List.map_fst_zip f.complete.ge]

theorem forall_diagnostics {P : Diagnostic → Prop} : (∀ d ∈ r.diagnostics, P d) ↔
    ∀ x ∈ p.outline.lines.zip r.diagnostics, P x.2 := by
  rw [← List.forall_mem_map (f := Prod.snd), List.map_snd_zip f.complete.le]

theorem zip_verdict {x : Line × Diagnostic} (h : x ∈ p.outline.lines.zip r.diagnostics) :
    ∃ done number, p.verdict done number x.1 = .ok x.2.verdict := by
  obtain ⟨i, hi⟩ := List.mem_iff_getElem?.mp h
  obtain ⟨hl, hd⟩ := List.getElem?_zip_eq_some.mp hi
  obtain ⟨-, l, hl', hv⟩ := f.reached.entry i x.2 hd
  cases hl.symm.trans hl'
  exact ⟨_, _, hv⟩

theorem rows_whole (hlines : ∀ l ∈ p.outline.lines, l.Faithful) :
    (∀ x ∈ p.outline.lines.zip r.diagnostics, (x.1.row x.2.number x.2.verdict).Whole) ↔
      ∀ l ∈ p.outline.lines, ∀ t ∈ l.quoted false, t.Whole := by
  rw [f.forall_lines]
  refine forall₂_congr fun x hx => ?_
  obtain ⟨done, number, hv⟩ := f.zip_verdict hx
  have hfaithful := hlines x.1 (List.of_mem_zip hx).1
  simp only [Line.row_whole, Line.quoted, Bool.false_eq_true, if_false, List.forall_mem_cons,
    List.not_mem_nil, false_imp_iff, implies_true, and_true]
  refine and_congr_right fun _ => and_iff_left_of_imp fun hj => ?_
  exact Pass.verdict_error_whole hv (hfaithful.label_whole hj)

theorem labels_whole : (∀ d ∈ r.diagnostics, Json.Whole d.toJson.atoms) ↔
    ∀ l ∈ p.outline.lines, ∀ t ∈ l.quoted true, t.Whole := by
  rw [f.forall_lines, f.forall_diagnostics]
  refine forall₂_congr fun x hx => ?_
  obtain ⟨done, number, hv⟩ := f.zip_verdict hx
  rw [Diagnostic.toJson_whole, Pass.verdict_rule_whole hv, and_iff_left_of_imp
    (Pass.verdict_error_whole hv)]
  simp [Line.quoted]

end Report.From

theorem verify_goal {o : Outline} {config : Config} {r : Report} (h : verify o config = .ok r) :
    r.goal = o.goal := by
  obtain ⟨p, -, h⟩ := bind_ok.mp h
  obtain ⟨ds, -, h⟩ := bind_ok.mp h
  cases h
  rfl

/-- The report on a document of rows is printed exactly if what it quotes of the lines is whole and
the numbers in the goal are not too long. -/
theorem Document.printable_iff {rows : List Json} {goal : Json} {d : Document}
    (h : ofRows rows goal = .ok d) {config : Config} {r : Report}
    (hr : verify d.outline config = .ok r) (json : Bool) :
    (∃ t, CommandLine.reportText r json d.lines = .ok t ∧ t.Whole) ↔ d.Printable json := by
  obtain ⟨hnested, hcreated⟩ := ofRows_cases h
  obtain ⟨tree, r', hr', -, f⟩ := verify_total hnested
    (fun l hl => (Line.created_iff.mp (hcreated l hl).1).2.2.rootless) config
  cases hr.symm.trans hr'
  obtain ⟨lines, g, -, hg, hof⟩ := ofRows_iff.mp h
  obtain ⟨hbuild, hdgoal⟩ := ofLines_iff.mp hof
  have hgoal : Goal.Legible r.goal ↔ ∀ g ∈ d.goal, Json.Numbered g.atoms := by
    rw [verify_goal hr, (Outline.build_cases hbuild).2.2.1, hdgoal]
    exact readGoal_legible hg
  have hlines : (∃ t, CommandLine.reportText r json d.lines = .ok t ∧ t.Whole) ↔
      Goal.Legible r.goal ∧ ∀ l ∈ d.lines, ∀ t ∈ l.quoted json, t.Whole := by
    cases json with
    | true => exact Report.toJson_whole.trans (and_congr_right' f.labels_whole)
    | false =>
      exact Report.text_whole.trans (and_congr_right'
        (f.rows_whole fun l hl => (Line.created_iff.mp (hcreated l hl).1).2.1))
  rw [hlines, hgoal]
  exact ⟨fun ⟨hnumbers, hwhole⟩ => ⟨hwhole, hnumbers⟩, fun ⟨hwhole, hnumbers⟩ => ⟨hnumbers, hwhole⟩⟩

end ModalFitch
