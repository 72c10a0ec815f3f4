import ModalFitch.Proofs.Printing

/-! Which documents are loaded and checked, which fail with a report, and on which the work breaks
off.

* `FailsWith`: a computation fails, with an error of some kind.
* `Row.unreadable`: a value that is no row, or has no depth that could be a number.
* `ProofFile.Obstructed`: a document on which loading breaks off.
* `CommandLine.CheckOptions.Unprintable`: a document that is loaded, and whose report cannot be
  printed.
* `check_outcome`: what the check of a document comes to. -/

namespace ModalFitch
set_option autoImplicit false

/-! ## Failures -/

section FailsWith

variable {ε ε' α β : Type}

/-- The computation fails, and its error has a property. -/
def FailsWith (x : Except ε α) (p : ε → Prop) : Prop := ∃ e, x = .error e ∧ p e

@[simp]
theorem failsWith_ok {a : α} {p : ε → Prop} : ¬FailsWith (.ok a : Except ε α) p := by
  rintro ⟨e, h, -⟩
  cases h

@[simp]
theorem failsWith_error {e : ε} {p : ε → Prop} :
    FailsWith (.error e : Except ε α) p ↔ p e := by
  constructor
  · rintro ⟨e', h, hp⟩
    cases h
    exact hp
  · exact fun hp => ⟨e, rfl, hp⟩

theorem failsWith_bind {x : Except ε α} {f : α → Except ε β} {p : ε → Prop} :
    FailsWith (x >>= f) p ↔ FailsWith x p ∨ ∃ a, x = .ok a ∧ FailsWith (f a) p := by
  cases x with
  | error e => simp [bind, Except.bind]
  | ok a => simp [bind, Except.bind]

theorem failsWith_mapError {x : Except ε α} {f : ε → ε'} {p : ε' → Prop} :
    FailsWith (x.mapError f) p ↔ FailsWith x fun e => p (f e) := by
  cases x with
  | error e => simp [Except.mapError]
  | ok a => simp [Except.mapError]

theorem failsWith_false {x : Except ε α} : ¬FailsWith x fun _ => False :=
  fun ⟨_, _, h⟩ => h

end FailsWith

/-! ## Values -/

namespace Json

/-- A value that stands for no number and that is not even tried: null, a list, an object, or a
double without bound. -/
def unnumbered : Json → Bool
  | .null | .arr _ | .obj _ | .float (.infinite _) => true
  | _ => false

def isText : Json → Bool
  | .str _ => true
  | _ => false

/-- A truth value or a number. -/
def isScalar : Json → Bool
  | .bool _ | .int _ | .float _ => true
  | _ => false

end Json

/-! ## Rows -/

/-- A value that is no row, or a row whose depth is not even tried. -/
def Row.unreadable : Json → Bool
  | .obj fields => ((Json.lookup "depth" fields).getD (.int 0)).unnumbered
  | .arr [d, _, _] | .arr [d, _, _, _] => d.unnumbered
  | .arr _ | .str _ => false
  | _ => true

/-- An error of a row that stops the work. -/
def RowError.Stops (e : RowError) : Prop := (LoadError.rows (.row e)).isReported = false

theorem Json.asInt_stops {v : Json} :
    FailsWith v.asInt (fun e => (RowError.depth e).Stops) ↔ v.unnumbered = true := by
  cases v with
  | null | arr items | obj fields => simp [asInt, unnumbered, RowError.Stops, LoadError.isReported]
  | bool b | int i => simp [asInt, unnumbered]
  | float x =>
    cases x with
    | finite negative m e => simp [asInt, unnumbered]
    | nan | infinite negative => simp [asInt, unnumbered, RowError.Stops, LoadError.isReported]
  | str s =>
    simp [asInt, unnumbered, RowError.Stops, LoadError.isReported, failsWith_mapError,
      failsWith_false]

namespace Row

/-- A number that is too long to be shown is reported. -/
theorem shown_stops {α : Type} {x : Except Text.NumeralError α} :
    ¬FailsWith (x.mapError RowError.numeral) RowError.Stops := by
  rw [failsWith_mapError]
  rintro ⟨e, -, he⟩
  cases he

theorem refuse_stops {α : Type} {v : Json} {error : String → RowError}
    (h : ∀ shown, ¬(error shown).Stops) :
    ¬FailsWith (refuse v error : Except RowError α) RowError.Stops := by
  unfold refuse
  rw [failsWith_bind]
  rintro (hshown | ⟨shown, -, herror⟩)
  · exact shown_stops hshown
  · exact h shown (failsWith_error.mp herror)

theorem readKind_stops {v : Json} : ¬FailsWith (readKind v) RowError.Stops := by
  have hrefuse : ¬FailsWith (refuse v .kind : Except RowError (Option ScopeKind)) RowError.Stops :=
    refuse_stops fun _ h => by cases h
  unfold readKind
  split
  · split
    · split
      · rw [failsWith_error]
        intro h
        cases h
      · exact failsWith_ok
      · exact hrefuse
    · exact hrefuse
  · exact failsWith_ok

theorem make_stops {d s j o : Json} :
    FailsWith (make d s j o) RowError.Stops ↔ d.unnumbered = true := by
  unfold make
  rw [failsWith_bind, failsWith_mapError, Json.asInt_stops]
  refine or_iff_left ?_
  simp only [failsWith_bind]
  rintro ⟨depth, -, h | ⟨sentence, -, h | ⟨justification, -, h | ⟨kind, -, h⟩⟩⟩⟩
  · exact shown_stops h
  · exact shown_stops h
  · exact readKind_stops h
  · exact failsWith_ok h

theorem ofJson_stops {v : Json} :
    FailsWith (ofJson v) RowError.Stops ↔ unreadable v = true := by
  have hlength : ¬FailsWith (refuse v .length : Except RowError Row) RowError.Stops :=
    refuse_stops fun _ h => by cases h
  cases v with
  | obj fields => exact make_stops
  | arr items =>
    match items with
    | [d, _, _] | [d, _, _, _] => exact make_stops
    | [] | [_] | [_, _] | _ :: _ :: _ :: _ :: _ :: _ => simp [ofJson, ofItems, unreadable, hlength]
  | str s =>
    match s with
    | [c, _, _] | [c, _, _, _] => exact make_stops
    | [] | [_] | [_, _] | _ :: _ :: _ :: _ :: _ :: _ => simp [ofJson, ofItems, unreadable, hlength]
  | null | bool b | int i | float x =>
    simp [ofJson, unreadable, RowError.Stops, LoadError.isReported]

end Row

/-! ## Documents -/

/-- An error of rows that stops the work. -/
def RowsError.Stops (e : RowsError) : Prop := (LoadError.rows e).isReported = false

namespace Document

theorem linesOfRows_cons {before : Int} {v : Json} {rest : List Json} {lines : List Line} :
    linesOfRows before (v :: rest) = .ok lines ↔ ∃ r l ls, Row.ofJson v = .ok r ∧
      r.line before = .ok l ∧ linesOfRows r.depth rest = .ok ls ∧ lines = l :: ls := by
  rw [linesOfRows]
  simp only [bind_ok, mapError_ok]
  constructor
  · rintro ⟨r, hr, l, hl, ls, hls, h⟩
    cases h
    exact ⟨r, l, ls, hr, hl, hls, rfl⟩
  · rintro ⟨r, l, ls, hr, hl, hls, rfl⟩
    exact ⟨r, hr, l, hl, ls, hls, rfl⟩

theorem linesOfRows_cons_stops {before : Int} {v : Json} {rest : List Json} :
    FailsWith (linesOfRows before (v :: rest)) RowsError.Stops ↔ Row.unreadable v = true ∨
      ∃ r l, Row.ofJson v = .ok r ∧ r.line before = .ok l ∧
        FailsWith (linesOfRows r.depth rest) RowsError.Stops := by
  rw [linesOfRows]
  simp only [failsWith_bind, failsWith_mapError, mapError_ok]
  refine or_congr Row.ofJson_stops ⟨?_, ?_⟩
  · rintro ⟨r, hr, ⟨e, -, he⟩ | ⟨l, hl, h | ⟨ls, -, h⟩⟩⟩
    · cases he
    · exact ⟨r, l, hr, hl, h⟩
    · exact absurd h failsWith_ok
  · rintro ⟨r, l, hr, hl, h⟩
    exact ⟨r, hr, .inr ⟨l, hl, .inl h⟩⟩

/-- The rows stop the work at the first that is unreadable, if all before it give lines. -/
theorem linesOfRows_stops {before : Int} {rows : List Json} :
    FailsWith (linesOfRows before rows) RowsError.Stops ↔
      ∃ read v rest lines, rows = read ++ v :: rest ∧ linesOfRows before read = .ok lines ∧
        Row.unreadable v = true := by
  induction rows generalizing before with
  | nil => simp [linesOfRows]
  | cons v rows ih =>
    rw [linesOfRows_cons_stops]
    constructor
    · rintro (hv | ⟨r, l, hr, hl, h⟩)
      · exact ⟨[], v, rows, [], rfl, rfl, hv⟩
      · obtain ⟨read, w, rest, lines, rfl, hread, hw⟩ := ih.mp h
        exact ⟨v :: read, w, rest, l :: lines, rfl,
          linesOfRows_cons.mpr ⟨r, l, lines, hr, hl, hread, rfl⟩, hw⟩
    · rintro ⟨read, w, rest, lines, hrows, hread, hw⟩
      cases read with
      | nil =>
        cases hrows
        exact .inl hw
      | cons v' read =>
        cases hrows
        obtain ⟨r, l, ls, hr, hl, hls, -⟩ := linesOfRows_cons.mp hread
        exact .inr ⟨r, l, hr, hl, ih.mpr ⟨read, w, rest, ls, rfl, hls, hw⟩⟩

theorem ofRows_stops {rows : List Json} {goal : Json} :
    FailsWith (ofRows rows goal) RowsError.Stops ↔
      FailsWith (linesOfRows 0 rows) RowsError.Stops := by
  unfold ofRows
  rw [failsWith_bind]
  refine or_iff_left ?_
  rintro ⟨lines, -, h⟩
  simp only [failsWith_bind, failsWith_mapError] at h
  rcases h with ⟨e, -, h⟩ | ⟨g, -, e, -, h⟩ <;> cases h

end Document

/-! ## Settings -/

theorem Config.readSystem_stops {v : Json} :
    FailsWith (readSystem v) (fun e => (LoadError.config e).isReported = false) ↔
      v.isTrue = true ∧ v.isText = false := by
  unfold readSystem
  cases htrue : v.isTrue with
  | false => simp
  | true =>
    cases v with
    | str s => simp [Json.isText, failsWith_mapError, LoadError.isReported, failsWith_false]
    | null | bool b | int i | float x | arr items | obj fields =>
      simp [Json.isText, LoadError.isReported]

theorem Config.ofJson_stops {fields : List (Text × Json)} :
    FailsWith (Config.ofJson (.obj fields)) (fun e => (LoadError.config e).isReported = false) ↔
      ∃ v, Json.lookup "system" fields = some v ∧ v.isTrue = true ∧ v.isText = false := by
  unfold ofJson
  rw [failsWith_bind, readSystem_stops]
  have hpure : ¬∃ system, readSystem ((Json.lookup "system" fields).getD .null) = .ok system ∧
      FailsWith (pure ⟨system, ((Json.lookup "derived" fields).getD (.bool true)).isTrue⟩ :
        Except ConfigError Config) (fun e => (LoadError.config e).isReported = false) := by
    rintro ⟨system, -, h⟩
    exact failsWith_ok h
  rw [or_iff_left hpure]
  cases Json.lookup "system" fields with
  | none => simp [Json.isTrue]
  | some v => simp

/-! ## Proof files -/

/-- The goal that a document names; what counts as false is none. -/
def ProofFile.goal (fields : List (Text × Json)) : Json :=
  let goal := (Json.lookup "goal" fields).getD .null
  if goal.isTrue then goal else .null

/-- The documents on which loading breaks off: a row is unreadable after rows that give lines, or
all is well with the lines and the goal, and the modal system is named by something that is no
text. -/
inductive ProofFile.Obstructed (fields : List (Text × Json)) : Prop where
  | row {read rest : List Json} {v : Json} {lines : List Line} :
      Json.lookup "lines" fields = some (.arr (read ++ v :: rest)) →
      Document.linesOfRows 0 read = .ok lines → Row.unreadable v = true → Obstructed fields
  | system {rows : List Json} {d : Document} {v : Json} :
      Json.lookup "lines" fields = some (.arr rows) →
      Document.ofRows rows (goal fields) = .ok d → Json.lookup "system" fields = some v →
      v.isTrue = true → v.isText = false → Obstructed fields

namespace ProofFile

variable {fields : List (Text × Json)}

theorem ofJson_rows {rows : List Json} (h : Json.lookup "lines" fields = some (.arr rows)) :
    ofJson (.obj fields) = (do
      let document ← (Document.ofRows rows (goal fields)).mapError .rows
      let config ← (Config.ofJson (.obj fields)).mapError .config
      return ⟨document, config⟩) := by
  rw [ofJson, h]
  rfl

theorem ofJson_no_rows (h : ∀ rows, Json.lookup "lines" fields ≠ some (.arr rows)) :
    ofJson (.obj fields) = .error .noLines := by
  rw [ofJson]
  split
  · rename_i rows hrows
    exact absurd hrows (h rows)
  · rfl

theorem ofJson_iff {f : ProofFile} : ofJson (.obj fields) = .ok f ↔
    ∃ rows, Json.lookup "lines" fields = some (.arr rows) ∧
      Document.ofRows rows (goal fields) = .ok f.document ∧
      Config.ofJson (.obj fields) = .ok f.config := by
  by_cases h : ∃ rows, Json.lookup "lines" fields = some (.arr rows)
  · obtain ⟨rows, h⟩ := h
    rw [ofJson_rows h, h]
    simp only [bind_ok, mapError_ok]
    constructor
    · rintro ⟨document, hd, config, hc, e⟩
      cases e
      exact ⟨rows, rfl, hd, hc⟩
    · rintro ⟨rows', e, hd, hc⟩
      cases e
      exact ⟨_, hd, _, hc, rfl⟩
  · rw [ofJson_no_rows fun rows hrows => h ⟨rows, hrows⟩]
    constructor
    · intro e
      cases e
    · rintro ⟨rows, hrows, -⟩
      exact absurd ⟨rows, hrows⟩ h

theorem ofJson_stops (fields : List (Text × Json)) :
    FailsWith (ofJson (.obj fields)) (fun e => e.isReported = false) ↔ Obstructed fields := by
  by_cases h : ∃ rows, Json.lookup "lines" fields = some (.arr rows)
  · obtain ⟨rows, h⟩ := h
    rw [ofJson_rows h]
    simp only [failsWith_bind, failsWith_mapError, mapError_ok]
    constructor
    · rintro (hrows | ⟨d, hd, hconfig | ⟨c, -, hok⟩⟩)
      · obtain ⟨read, v, rest, lines, rfl, hread, hv⟩ :=
          Document.linesOfRows_stops.mp (Document.ofRows_stops.mp hrows)
        exact .row h hread hv
      · obtain ⟨v, hv, htrue, htext⟩ := Config.ofJson_stops.mp hconfig
        exact .system h hd hv htrue htext
      · exact absurd hok failsWith_ok
    · rintro (⟨h', hread, hv⟩ | ⟨h', hd, hv, htrue, htext⟩)
      · cases h.symm.trans h'
        exact .inl (Document.ofRows_stops.mpr
          (Document.linesOfRows_stops.mpr ⟨_, _, _, _, rfl, hread, hv⟩))
      · cases h.symm.trans h'
        exact .inr ⟨_, hd, .inl (Config.ofJson_stops.mpr ⟨_, hv, htrue, htext⟩)⟩
  · rw [ofJson_no_rows fun rows hrows => h ⟨rows, hrows⟩]
    constructor
    · intro hnone
      cases failsWith_error.mp hnone
    · rintro (⟨h', -⟩ | ⟨h', -⟩) <;> exact absurd ⟨_, h'⟩ h

/-- A file that is loaded is checked, and the report is printed exactly if what it quotes can be
written. -/
theorem verified {f : ProofFile} (h : ofJson (.obj fields) = .ok f) (config : Config) (json : Bool) :
    ∃ r, verify f.document.outline config = .ok r ∧
      ((∃ t, CommandLine.reportText r json f.document.lines = .ok t ∧ t.Whole) ↔
        f.document.Printable json) := by
  obtain ⟨rows, -, hd, -⟩ := ofJson_iff.mp h
  obtain ⟨hnested, hlines⟩ := Document.ofRows_cases hd
  obtain ⟨-, r, hr, -⟩ := verify_total hnested
    (fun l hl => (Line.created_iff.mp (hlines l hl).1).2.2.rootless) config
  exact ⟨r, hr, Document.printable_iff hd hr json⟩

end ProofFile

/-! ## The command -/

namespace CommandLine

/-- Lines that are neither counted nor absent. -/
def Uncounted (fields : List (Text × Json)) : Prop :=
  ∃ v, Json.lookup "lines" fields = some v ∧ v.isTrue = true ∧ v.isScalar = true

theorem lineCount_none {fields : List (Text × Json)} :
    lineCount (.obj fields) = none ↔ Uncounted fields := by
  unfold lineCount Uncounted
  rw [show Json.get? "lines" (.obj fields) = Json.lookup "lines" fields from rfl]
  cases Json.lookup "lines" fields with
  | none => simp [Json.isTrue]
  | some v =>
    cases htrue : v.isTrue with
    | false => simp [htrue]
    | true =>
      cases v with
      | null => cases htrue
      | bool b | int i | float x => simp [htrue, Json.isScalar]
      | str s | arr items | obj fields => simp [htrue, Json.isScalar]

/-- The options of a check that the command line admits: the modal system is one of those named. -/
structure CheckOptions where
  file : String
  system : Option ModalSystem
  noDerived : Bool
  json : Bool
  verbose : Bool

namespace CheckOptions

/-- What the check of an object comes to. -/
def outcome (o : CheckOptions) (fields : List (Text × Json)) : Outcome :=
  checkData o.file (o.system.map ModalSystem.name) o.noDerived o.json o.verbose (.obj fields)

/-- The settings of a document after the options. -/
def settings (o : CheckOptions) (config : Config) : Except ConfigError Config :=
  config.override (systemSetting (o.system.map ModalSystem.name)) o.noDerived

/-- The object is loaded, and the report is that of its check. -/
def Reports (o : CheckOptions) (fields : List (Text × Json)) (r : Report) : Prop :=
  ∃ f config, ProofFile.ofJson (.obj fields) = .ok f ∧ o.settings f.config = .ok config ∧
    verify f.document.outline config = .ok r

variable {o : CheckOptions} {fields : List (Text × Json)}

theorem settings_total (o : CheckOptions) (config : Config) :
    ∃ config', o.settings config = .ok config' := by
  have hread : ∃ named, Config.readSystem (systemSetting (o.system.map ModalSystem.name)) =
      .ok named := by
    rcases o.system with _ | _ | _ | _ | _ <;> exact ⟨_, rfl⟩
  obtain ⟨named, hnamed⟩ := hread
  exact ⟨_, bind_ok.mpr ⟨named, hnamed, rfl⟩⟩

theorem Reports.unique {r r' : Report} (h : o.Reports fields r) (h' : o.Reports fields r') :
    r = r' := by
  obtain ⟨f, config, hf, hc, hr⟩ := h
  obtain ⟨f', config', hf', hc', hr'⟩ := h'
  cases hf.symm.trans hf'
  cases hc.symm.trans hc'
  cases hr.symm.trans hr'
  rfl

theorem reportOutput_iff {document : Document} {config : Config} {r : Report}
    (h : verify document.outline config = .ok r) {json verbose : Bool} {log : List String}
    {out : Output} : reportOutput document config json verbose log = .ok out ↔
      ∃ t s, reportText r json document.lines = .ok t ∧ t.written = .ok s ∧
        (printed (if r.isValid then 0 else 1) [s]).withLog verbose (log ++ passLog document.outline r) =
          out := by
  unfold reportOutput
  simp only [bind_ok, mapError_ok, h]
  constructor
  · rintro ⟨_, hr, t, ht, s, hs, hout⟩
    cases hr
    exact ⟨t, s, ht, hs, Except.ok.inj hout⟩
  · rintro ⟨t, s, ht, hs, rfl⟩
    exact ⟨r, rfl, t, ht, s, hs, rfl⟩

/-- The report is printed, and its verdict gives the exit code, or the work breaks off. -/
theorem reportOutput_cases {document : Document} {config : Config} {r : Report}
    (h : verify document.outline config = .ok r) (json verbose : Bool) (log : List String) :
    ((∃ t, reportText r json document.lines = .ok t ∧ t.Whole) ∧
      ∃ out, reportOutput document config json verbose log = .ok out ∧
        out.exitCode = if r.isValid then 0 else 1) ∨
    ((¬∃ t, reportText r json document.lines = .ok t ∧ t.Whole) ∧
      ∃ b, reportOutput document config json verbose log = .error b) := by
  cases hout : reportOutput document config json verbose log with
  | ok out =>
    obtain ⟨t, s, ht, hs, rfl⟩ := (reportOutput_iff h).mp hout
    refine .inl ⟨⟨t, ht, Text.written_iff.mp ⟨s, hs⟩⟩, _, rfl, ?_⟩
    unfold Output.withLog
    split <;> rfl
  | error b =>
    refine .inr ⟨?_, b, rfl⟩
    rintro ⟨t, ht, hwhole⟩
    obtain ⟨s, hs⟩ := Text.written_iff.mpr hwhole
    rw [(reportOutput_iff h).mpr ⟨t, s, ht, hs, rfl⟩] at hout
    cases hout

theorem outcome_uncounted (o : CheckOptions) (h : Uncounted fields) :
    ProofFile.ofJson (.obj fields) = .error .noLines ∧ o.outcome fields = .error .uncounted := by
  constructor
  · obtain ⟨v, hv, -, hscalar⟩ := h
    refine ProofFile.ofJson_no_rows fun rows hrows => ?_
    rw [hv] at hrows
    cases hrows
    cases hscalar
  · simp only [outcome, checkData, lineCount_none.mpr h]

theorem outcome_counted (o : CheckOptions) (h : ¬Uncounted fields) : ∃ log,
    (∀ e, ProofFile.ofJson (.obj fields) = .error e → o.outcome fields =
      if e.isReported then .ok ((loadFailure o.file (.document e)).withLog o.verbose log)
      else .error (.load e)) ∧
    ∀ f config, ProofFile.ofJson (.obj fields) = .ok f → o.settings f.config = .ok config →
      o.outcome fields = reportOutput f.document config o.json o.verbose log := by
  obtain ⟨count, hcount⟩ : ∃ count, lineCount (.obj fields) = some count :=
    Option.ne_none_iff_exists'.mp (mt lineCount_none.mp h)
  simp only [outcome, checkData, hcount]
  apply Exists.intro
  refine ⟨fun e he => ?_, fun f config hf hc => ?_⟩
  · rw [he]
    rfl
  · rw [settings] at hc
    simp only [hf, bind, Except.bind, hc, Except.mapError]
    rfl

/-- The check of an object whose lines are counted ends with a load failure that is printed, with
one that stops the work, with a report, or with one that cannot be printed. -/
theorem outcome_cases (o : CheckOptions) (h : ¬Uncounted fields) :
    (∃ e out, ProofFile.ofJson (.obj fields) = .error e ∧ e.isReported = true ∧
      o.outcome fields = .ok out ∧ out.exitCode = 1 ∧
      out.stdout = (loadFailure o.file (.document e)).stdout) ∨
    (∃ e, ProofFile.ofJson (.obj fields) = .error e ∧ e.isReported = false ∧
      o.outcome fields = .error (.load e)) ∨
    ∃ f r, ProofFile.ofJson (.obj fields) = .ok f ∧ o.Reports fields r ∧
      ((f.document.Printable o.json ∧ ∃ out, o.outcome fields = .ok out ∧
          out.exitCode = if r.isValid then 0 else 1) ∨
        (¬f.document.Printable o.json ∧ ∃ b, o.outcome fields = .error b)) := by
  obtain ⟨log, hfails, hloads⟩ := o.outcome_counted h
  cases hf : ProofFile.ofJson (.obj fields) with
  | error e =>
    rw [hfails e hf]
    cases hreported : e.isReported with
    | true =>
      refine .inl ⟨e, _, rfl, hreported, if_pos rfl, ?_⟩
      unfold Output.withLog
      split <;> exact ⟨rfl, rfl⟩
    | false => exact .inr (.inl ⟨e, rfl, hreported, if_neg Bool.false_ne_true⟩)
  | ok f =>
    obtain ⟨config, hc⟩ := o.settings_total f.config
    obtain ⟨r, hr, hprints⟩ := ProofFile.verified hf config o.json
    rw [hloads f config hf hc]
    refine .inr (.inr ⟨f, r, rfl, ⟨f, config, hf, hc, hr⟩, ?_⟩)
    rw [← hprints]
    exact reportOutput_cases hr o.json o.verbose log

theorem Reports.loaded {r : Report} (h : o.Reports fields r) (e : LoadError) :
    ProofFile.ofJson (.obj fields) ≠ .error e := by
  obtain ⟨f, -, hf, -⟩ := h
  rw [hf]
  exact nofun

/-- A report gives code 0 exactly if every line is valid, and else code 1. -/
theorem Reports.exitCode {r : Report} (h : o.Reports fields r) {code : Nat}
    (hcode : code = if r.isValid then 0 else 1) :
    (code = 0 ↔ ∃ r, o.Reports fields r ∧ ∀ d ∈ r.diagnostics, d.isValid = true) ∧
      (code ≠ 0 → code = 1) := by
  constructor
  · rw [hcode, ite_eq_left_iff]
    constructor
    · intro hvalid
      refine ⟨r, h, List.all_eq_true.mp ?_⟩
      by_contra hnot
      exact Nat.one_ne_zero (hvalid hnot)
    · rintro ⟨r', h', hvalid⟩ hnot
      cases h.unique h'
      exact absurd (List.all_eq_true.mpr hvalid) hnot
  · rw [hcode]
    split <;> simp

end CheckOptions

/-- The object is loaded, and what the report on it quotes cannot be written. -/
def CheckOptions.Unprintable (o : CheckOptions) (fields : List (Text × Json)) : Prop :=
  ∃ f, ProofFile.ofJson (.obj fields) = .ok f ∧ ¬f.document.Printable o.json

/-- An object is checked as a document, or its load fails, and the failure is one that is reported
unless a row or the name of the modal system obstructs the load. The command breaks off exactly on
what obstructs the load, on lines that are not counted and on a report that cannot be printed. Else it
ends with code 0 exactly if the object is checked and every line is valid, and with code 1 if not,
which is also the code of the failures that it reports. -/
theorem check_outcome (o : CheckOptions) (fields : List (Text × Json)) :
    ((∃ r, o.Reports fields r) ∨ ∃ e, ProofFile.ofJson (.obj fields) = .error e) ∧
    (FailsWith (ProofFile.ofJson (.obj fields)) (fun e => e.isReported = false) ↔
      ProofFile.Obstructed fields) ∧
    ((∃ b, o.outcome fields = .error b) ↔
      ProofFile.Obstructed fields ∨ Uncounted fields ∨ o.Unprintable fields) ∧
    ∀ out, o.outcome fields = .ok out →
      (out.exitCode = 0 ↔ ∃ r, o.Reports fields r ∧ ∀ d ∈ r.diagnostics, d.isValid = true) ∧
      (out.exitCode ≠ 0 → out.exitCode = 1) ∧
      ∀ e, ProofFile.ofJson (.obj fields) = .error e →
        out.stdout = (loadFailure o.file (.document e)).stdout := by
  have hstops := ProofFile.ofJson_stops fields
  by_cases hcount : Uncounted fields
  · obtain ⟨hload, hout⟩ := o.outcome_uncounted hcount
    refine ⟨.inr ⟨_, hload⟩, hstops, ⟨fun _ => .inr (.inl hcount), fun _ => ⟨_, hout⟩⟩, ?_⟩
    rw [hout]
    exact nofun
  rw [or_iff_right (b := o.Unprintable fields) hcount, ← hstops]
  rcases o.outcome_cases hcount with ⟨e, out, hload, hreported, hout, hexit, htext⟩ |
    ⟨e, hload, hreported, hout⟩ | ⟨f, r, hload, hr, ⟨hprints, out, hout, hexit⟩ | ⟨hnot, b, hout⟩⟩
  · rw [hout, CheckOptions.Unprintable, hload]
    refine ⟨.inr ⟨e, rfl⟩, .rfl, ?_, ?_⟩
    · simp [hreported]
    · rintro _ ⟨⟩
      refine ⟨?_, fun _ => hexit, ?_⟩
      · rw [hexit]
        refine iff_of_false Nat.one_ne_zero ?_
        rintro ⟨r, hr, -⟩
        exact hr.loaded e hload
      · rintro _ ⟨⟩
        exact htext
  · rw [hout, CheckOptions.Unprintable, hload]
    refine ⟨.inr ⟨e, rfl⟩, .rfl, ?_, nofun⟩
    simp [hreported]
  · rw [hout, CheckOptions.Unprintable, hload]
    refine ⟨.inl ⟨r, hr⟩, .rfl, ?_, ?_⟩
    · simp [hprints]
    · rintro _ ⟨⟩
      obtain ⟨hzero, hone⟩ := hr.exitCode hexit
      exact ⟨hzero, hone, nofun⟩
  · rw [hout, CheckOptions.Unprintable, hload]
    refine ⟨.inl ⟨r, hr⟩, .rfl, ?_, nofun⟩
    simp [hnot]

/-- A document of one premise, with a row that is an object and settings that are texts. -/
def premiseDocument : List (Text × Json) :=
  [("system", .str "s4"), ("goal", .str "P"),
    ("lines", .arr [.obj [("sentence", .str "P"), ("justification", .str "PR")]])]

/-- Nothing obstructs the load, and the command ends with code 0. -/
theorem check_outcome_premise : ∃ out r,
    CheckOptions.outcome ⟨"proof.json", some .k, true, false, false⟩ premiseDocument = .ok out ∧
    out.exitCode = 0 ∧ ¬ProofFile.Obstructed premiseDocument ∧
    CheckOptions.Reports ⟨"proof.json", some .k, true, false, false⟩ premiseDocument r ∧
    ∀ d ∈ r.diagnostics, d.isValid = true := by
  obtain ⟨out, hout, hexit⟩ := exists_ok
    (x := CheckOptions.outcome ⟨"proof.json", some .k, true, false, false⟩ premiseDocument)
    (p := fun out => out.exitCode = 0) (by decide +kernel)
  have hexit := of_decide_eq_true hexit
  obtain ⟨-, -, hbreaks, hends⟩ :=
    check_outcome ⟨"proof.json", some .k, true, false, false⟩ premiseDocument
  obtain ⟨r, hr, hvalid⟩ := (hends out hout).1.mp hexit
  refine ⟨out, r, hout, hexit, fun hobstructed => ?_, hr, hvalid⟩
  obtain ⟨b, hb⟩ := hbreaks.mpr (.inl hobstructed)
  rw [hout] at hb
  cases hb

/-- A number in the place of a row, a number in the place of the name of a system, and half a
surrogate pair in the place of a sentence are not reported: the work breaks off. -/
theorem check_breaks_off :
    (∃ e, ProofFile.ofJson (.obj [("lines", .arr [.int 5])]) = .error e ∧ e.isReported = false ∧
      CheckOptions.outcome ⟨"proof.json", none, false, false, false⟩ [("lines", .arr [.int 5])] =
        .error (.load e)) ∧
    (∃ e, ProofFile.ofJson (.obj [("lines", .arr []), ("system", .int 5)]) = .error e ∧
      e.isReported = false ∧
      CheckOptions.outcome ⟨"proof.json", none, false, false, false⟩
        [("lines", .arr []), ("system", .int 5)] = .error (.load e)) ∧
    ∃ e, CheckOptions.outcome ⟨"proof.json", none, false, false, false⟩
      [("lines", .arr [.arr [.int 0, .str [.half 0], .str "PR"]])] = .error (.unwritten e) :=
  ⟨⟨_, rfl, rfl, rfl⟩, ⟨_, rfl, rfl, rfl⟩, ⟨_, rfl⟩⟩

end CommandLine

end ModalFitch
