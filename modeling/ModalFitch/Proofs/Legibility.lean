import ModalFitch.Proofs.Relocation

/-! Runs of digits in justification texts, and the numbers that can be read and written.

* `Text.IsRun`: a run of digits in a text. Cutting a text into pieces makes no new runs.
* `Text.Terse`: no run is as long as the longest that can be read.
* `Text.Bounded`: every run can be read, as a number below a bound. A text with such runs is always
  read, and renumbering by at most one keeps it so for the next bound. -/

namespace ModalFitch
set_option autoImplicit false

namespace Text

/-! ## Runs -/

def IsRun (t : Text) (ds : List Char) : Prop := ofChars ds <:+: t ∧ ∀ c ∈ ds, isDigit c = true

theorem IsRun.mono {t u : Text} {ds : List Char} (h : IsRun t ds) (htu : t <:+: u) : IsRun u ds :=
  ⟨h.1.trans htu, h.2⟩

/-- A run does not reach across a character that is no digit. -/
theorem IsRun.split {x y : Text} {p : CodePoint} (hp : p.is isDigit = false) {ds : List Char}
    (h : IsRun (x ++ p :: y) ds) : IsRun x ds ∨ IsRun y ds := by
  -- What reaches to the character or beyond it begins there with a digit, or is empty.
  have hnil : ∀ {cs : List Char}, (∀ c ∈ cs, isDigit c = true) → ofChars cs <+: p :: y → cs = [] := by
    intro cs hcs hfront
    cases cs with
    | nil => rfl
    | cons c cs =>
      rw [ofChars_cons, List.cons_prefix_cons] at hfront
      have hc : (CodePoint.char c).is isDigit = true := hcs c List.mem_cons_self
      rw [hfront.1, hp] at hc
      cases hc
  obtain ⟨hrun, hdigits⟩ := h
  rcases List.infix_append_iff.mp hrun with hx | hy | ⟨l₁, l₂, e, hl₁, hl₂⟩
  · exact .inl ⟨hx, hdigits⟩
  · rcases List.infix_cons_iff.mp hy with hfront | hy
    · rw [hnil hdigits hfront]
      exact .inl ⟨List.nil_infix, by simp⟩
    · exact .inr ⟨hy, hdigits⟩
  · obtain ⟨cs₁, cs₂, rfl, rfl, rfl⟩ := List.map_eq_append_iff.mp e
    cases hnil (fun c hc => hdigits c (List.mem_append_right _ hc)) hl₂
    rw [List.append_nil]
    exact .inl ⟨hl₁.isInfix, fun c hc => hdigits c (List.mem_append_left _ hc)⟩

end Text

namespace Justification

/-- Joining dashes makes no new runs of digits. -/
theorem joinDashes_run {t : Text} {ds : List Char} (h : Text.IsRun (joinDashes t) ds) :
    Text.IsRun t ds := by
  -- A run at the front of the joined text is one at the front of the text.
  have hfront : ∀ (t : Text) (b : Bool) (cs : List Char), (∀ c ∈ cs, Text.isDigit c = true) →
      Text.ofChars cs <+: joinDashesFrom b 0 t → Text.ofChars cs <+: t := by
    intro t
    induction t with
    | nil => intro b cs _ h; exact h
    | cons p t ih =>
      intro b cs hcs h
      cases cs with
      | nil => exact List.nil_prefix
      | cons c cs =>
        rw [Text.ofChars_cons] at h ⊢
        rcases join_cases b p t with ⟨e, -⟩ | ⟨rest, -, -, -, e⟩
        · rw [e, List.cons_prefix_cons] at h
          rw [List.cons_prefix_cons]
          exact ⟨h.1, ih _ cs (fun x hx => hcs x (List.mem_cons_of_mem c hx)) h.2⟩
        · rw [e, List.cons_prefix_cons, CodePoint.char.injEq] at h
          exact absurd (hcs c List.mem_cons_self) (by rw [h.1]; decide)
  have hfrom : ∀ b t, Text.ofChars ds <:+: joinDashesFrom b 0 t → Text.ofChars ds <:+: t := by
    refine join_induction (fun _ h => h) ?_ ?_
    · intro b p t e _ ih hrun
      rw [e] at hrun
      rcases List.infix_cons_iff.mp hrun with hstart | hrun
      · exact (hfront (p :: t) b ds h.2 (e ▸ hstart)).isInfix
      · exact List.infix_cons (ih hrun)
    · intro b p t rest _ hrest e ih hrun
      rw [e] at hrun
      rcases List.infix_cons_iff.mp hrun with hstart | hrun
      · exact (hfront (p :: t) b ds h.2 (e ▸ hstart)).isInfix
      · exact List.infix_cons ((ih hrun).trans hrest.isInfix)
  exact ⟨hfrom false t h.1, h.2⟩

theorem pieces_run {t x : Text} (hx : x ∈ pieces t) {ds : List Char} (h : Text.IsRun x ds) :
    Text.IsRun t ds :=
  (joinDashes_run (h.mono (mem_pieces hx).2)).mono (trim_part t)

/-- The digits of a citation are runs of its piece. -/
theorem citationDigits?_run {x : Text} (hx : IsPiece x) {ds : List Char} {es : Option (List Char)}
    (h : citationDigits? x = some (ds, es)) :
    Text.IsRun x ds ∧ ∀ es' ∈ es, Text.IsRun x es' := by
  -- Where all are characters, the characters of a text are the text.
  have hchars : ∀ {t : Text}, (∀ p ∈ t, p.is Text.isDigit = true) →
      Text.ofChars (Text.chars t) = t ∧ ∀ c ∈ Text.chars t, Text.isDigit c = true := by
    intro t ht
    induction t with
    | nil => exact ⟨rfl, by simp [Text.chars]⟩
    | cons p t ih =>
      obtain ⟨ih₁, ih₂⟩ := ih fun q hq => ht q (List.mem_cons_of_mem p hq)
      have hp := ht p List.mem_cons_self
      cases p with
      | half _ => cases hp
      | char c =>
        refine ⟨congrArg (CodePoint.char c :: ·) ih₁, fun d hd => ?_⟩
        rcases List.mem_cons.mp hd with rfl | hd
        · exact hp
        · exact ih₂ d hd
  unfold citationDigits? at h
  rw [hx.dropLineEnd] at h
  dsimp only at h
  split at h
  · cases h
  · obtain ⟨hfirst, hdigits⟩ := hchars (t := x.takeWhile (·.is Text.isDigit)) fun p hp =>
      List.all_eq_true.mp List.all_takeWhile p hp
    have hrun : Text.IsRun x (Text.leading Text.isDigit x) :=
      ⟨by rw [Text.leading, hfirst]; exact (List.takeWhile_prefix _).isInfix, hdigits⟩
    split at h
    · cases h
      exact ⟨hrun, fun _ h => by cases h⟩
    · rename_i p second hdrop
      split at h
      · rename_i hall
        rw [Bool.and_eq_true, List.all_eq_true] at hall
        cases h
        refine ⟨hrun, fun es' hes => ?_⟩
        cases hes
        obtain ⟨hsecond, hdigits'⟩ := hchars hall.2
        have hsuffix : p :: second <:+ x := hdrop ▸ List.dropWhile_suffix _
        refine ⟨?_, hdigits'⟩
        rw [hsecond]
        exact ((List.suffix_cons p second).trans hsuffix).isInfix
      · cases h

end Justification

/-! ## Bounds -/

namespace Text

/-- The runs of digits are shorter than the longest that can be read. -/
def Terse (t : Text) : Prop := ∀ ds, IsRun t ds → ds.length < maxDigits

/-- The runs of digits can be read, as numbers below a bound. -/
def Bounded (bound : Nat) (t : Text) : Prop :=
  ∀ ds, IsRun t ds → ds.length ≤ maxDigits ∧ digitsValue ds < bound

theorem terse_of_length {t : Text} (h : t.length < maxDigits) : t.Terse := by
  intro ds hds
  have := hds.1.length_le
  rw [ofChars, List.length_map] at this
  omega

theorem Terse.bounded {t : Text} (h : t.Terse) : t.Bounded (10 ^ (maxDigits - 1)) := by
  intro ds hds
  have hlen := h ds hds
  refine ⟨hlen.le, (digitsValue_lt ds).trans_le (Nat.pow_le_pow_right (by omega) (by omega))⟩

namespace Bounded

theorem mono {b b' : Nat} {t : Text} (h : t.Bounded b) (hb : b ≤ b') : t.Bounded b' :=
  fun ds hds => ⟨(h ds hds).1, (h ds hds).2.trans_le hb⟩

theorem of_run {b : Nat} {t u : Text} (h : t.Bounded b) (hrun : ∀ ds, IsRun u ds → IsRun t ds) :
    u.Bounded b :=
  fun ds hds => h ds (hrun ds hds)

theorem nil {b : Nat} (hb : 0 < b) : Bounded b [] := by
  intro ds hds
  cases List.map_eq_nil_iff.mp (List.infix_nil.mp hds.1)
  exact ⟨Nat.zero_le _, hb⟩

theorem pos {b : Nat} {t : Text} (h : t.Bounded b) : 0 < b :=
  Nat.zero_lt_of_lt (h [] ⟨List.nil_infix, by simp⟩).2

theorem append {b : Nat} {x y : Text} (hx : x.Bounded b) (hy : y.Bounded b) {p : CodePoint}
    (hp : p.is isDigit = false) : (x ++ p :: y).Bounded b := by
  intro ds hds
  rcases hds.split hp with h | h
  · exact hx ds h
  · exact hy ds h

theorem cons {b : Nat} {t : Text} (ht : t.Bounded b) {p : CodePoint} (hp : p.is isDigit = false) :
    Bounded b (p :: t) := (nil ht.pos).append ht hp

theorem intercalate {b : Nat} (hb : 0 < b) {xs : List Text} (hxs : ∀ x ∈ xs, x.Bounded b) :
    Bounded b ((ofString ", ").intercalate xs) := by
  induction xs with
  | nil => exact nil hb
  | cons x xs ih =>
    have hx := hxs x List.mem_cons_self
    have ih := ih fun y hy => hxs y (List.mem_cons_of_mem x hy)
    cases xs with
    | nil =>
      rw [List.intercalate_singleton]
      exact hx
    | cons y ys =>
      rw [List.intercalate_cons_cons, Justification.ofString_comma, List.append_assoc]
      exact hx.append (ih.cons rfl) rfl

/-- The runs of a written number are no longer and no larger than the number. -/
theorem numeral {b n : Nat} (hn : n < b) (hlen : (Nat.toDigits 10 n).length ≤ maxDigits) :
    (Text.numeral n).Bounded b := by
  intro ds hds
  have hpart : ds <:+: Nat.toDigits 10 n := by
    have := hds.1.filterMap CodePoint.char?
    rwa [Text.numeral, ← chars, ← chars, chars_ofChars, chars_ofChars] at this
  refine ⟨hpart.length_le.trans hlen, lt_of_le_of_lt ?_ hn⟩
  obtain ⟨xs, ys, e⟩ := hpart
  rw [← digitsValue_toDigits n, ← e, digitsValue_append, digitsValue_append]
  calc digitsValue ds ≤ digitsValue xs * 10 ^ ds.length + digitsValue ds := Nat.le_add_left _ _
    _ ≤ (digitsValue xs * 10 ^ ds.length + digitsValue ds) * 10 ^ ys.length :=
        Nat.le_mul_of_pos_right _ (Nat.pow_pos (by omega))
    _ ≤ _ := Nat.le_add_right _ _

end Bounded

end Text

/-! ## Reading and renumbering -/

theorem bind_error {ε α β : Type} {x : Except ε α} {f : α → Except ε β} {e : ε} :
    (x >>= f) = .error e ↔ x = .error e ∨ ∃ a, x = .ok a ∧ f a = .error e := by
  cases x with
  | error e' => simp [bind, Except.bind]
  | ok a => simp [bind, Except.bind]

theorem mapM_exists {ε α β : Type} {f : α → Except ε β} {P : β → Prop} {xs : List α}
    (h : ∀ x ∈ xs, ∃ y, f x = .ok y ∧ P y) : ∃ ys, xs.mapM f = .ok ys ∧ ∀ y ∈ ys, P y := by
  induction xs with
  | nil => exact ⟨[], rfl, by simp⟩
  | cons x xs ih =>
    obtain ⟨y, hy, hP⟩ := h x List.mem_cons_self
    obtain ⟨ys, hys, hall⟩ := ih fun z hz => h z (List.mem_cons_of_mem x hz)
    refine ⟨y :: ys, ?_, List.forall_mem_cons.mpr ⟨hP, hall⟩⟩
    rw [List.mapM_cons]
    exact bind_ok.mpr ⟨y, hy, bind_ok.mpr ⟨ys, hys, rfl⟩⟩

/-- Line numbers grow by one at most. -/
def Change.Steps (dest : Nat → Option Nat) : Prop := ∀ n n', dest n = some n' → n' ≤ n + 1

namespace Justification

theorem citationNumbers_bounded {b : Nat} {x : Text} (hx : IsPiece x) (h : x.Bounded b)
    {digits : List Char × Option (List Char)} (hdigits : citationDigits? x = some digits) :
    ∃ start stop, citationNumbers digits = .ok (start, stop) ∧ start < b ∧ ∀ n ∈ stop, n < b := by
  obtain ⟨ds, es⟩ := digits
  obtain ⟨hds, hes⟩ := citationDigits?_run hx hdigits
  have hread : ∀ cs, Text.IsRun x cs → Text.natOfDigits cs = .ok (Text.digitsValue cs) :=
    fun cs hcs => if_pos (h cs hcs).1
  unfold citationNumbers
  rw [hread ds hds]
  cases es with
  | none => exact ⟨_, none, rfl, (h ds hds).2, fun _ hn => by cases hn⟩
  | some es =>
    have hrun := hes es rfl
    refine ⟨_, some (Text.digitsValue es), ?_, (h ds hds).2, fun n hn => ?_⟩
    · refine bind_ok.mpr ⟨_, rfl, bind_ok.mpr ⟨_, hread es hrun, rfl⟩⟩
    · cases hn
      exact (h es hrun).2

theorem readCitation_bounded {b : Nat} {x : Text} (hx : IsPiece x) (h : x.Bounded b) (index : Int)
    (e : Text.NumeralError) : readCitation index x ≠ .error (.numeral e) := by
  intro hread
  unfold readCitation at hread
  split at hread
  · cases hread
  · rename_i digits hdigits
    obtain ⟨start, stop, hn, -⟩ := citationNumbers_bounded hx h hdigits
    rw [hn] at hread
    cases stop with
    | none => cases hread
    | some stop =>
      dsimp only at hread
      split at hread <;> cases hread

theorem readCitations_bounded {b : Nat} {xs : List Text} (h : ∀ x ∈ xs, IsPiece x ∧ x.Bounded b)
    (index : Int) (e : Text.NumeralError) : readCitations index xs ≠ .error (.numeral e) := by
  induction xs generalizing index with
  | nil =>
    intro hread
    cases hread
  | cons x xs ih =>
    intro hread
    rw [readCitations] at hread
    obtain ⟨hx, hbound⟩ := h x List.mem_cons_self
    rcases bind_error.mp hread with hfirst | ⟨c, -, hread⟩
    · exact readCitation_bounded hx hbound index e hfirst
    · rcases bind_error.mp hread with hrest | ⟨cs, -, hread⟩
      · exact ih (fun y hy => h y (List.mem_cons_of_mem x hy)) (index + 1) hrest
      · cases hread

/-- A text whose runs of digits can be read is read, well or ill. -/
theorem read_bounded {b : Nat} {t : Text} (h : t.Bounded b) (e : Text.NumeralError) :
    read t ≠ .error (.numeral e) := by
  have hpieces : ∀ x ∈ pieces t, IsPiece x ∧ x.Bounded b := fun x hx =>
    ⟨(mem_pieces hx).1, h.of_run fun _ => pieces_run hx⟩
  intro hread
  unfold read at hread
  split at hread
  · cases hread
  · rename_i rule rest hp
    rcases bind_error.mp hread with hrest | ⟨cs, -, hread⟩
    · refine readCitations_bounded (fun x hx => hpieces x ?_) 0 e hrest
      rw [hp]
      exact List.mem_cons_of_mem rule hx
    · cases hread

theorem renumberPiece_bounded {dest : Nat → Option Nat} (hdest : Change.Steps dest) {b : Nat}
    (hb : b < 10 ^ Text.maxDigits) {x : Text} (hx : IsPiece x) (h : x.Bounded b) :
    ∃ y, renumberPiece (fun n => (dest n).map Nat.cast) x = .ok y ∧ y.Bounded (b + 1) := by
  have hwrite : ∀ n n', n < b → dest n = some n' → ∃ s, Text.textOfInt (n' : Int) = .ok s ∧
      (Text.ofString s).Bounded (b + 1) := by
    intro n n' hn hd
    have hle := hdest n n' hd
    have hlen : (Nat.toDigits 10 n').length ≤ Text.maxDigits :=
      (Nat.length_toDigits_le_iff (by omega) (by decide)).mpr (by omega)
    refine ⟨toString n', by rw [Text.textOfInt_natCast, if_pos hlen], ?_⟩
    rw [Text.ofString_toString]
    exact Text.Bounded.numeral (by omega) hlen
  have hdangling : dangling.Bounded (b + 1) := (Text.Bounded.nil (Nat.succ_pos b)).cons rfl
  unfold renumberPiece
  cases hdigits : citationDigits? x with
  | none => exact ⟨x, rfl, h.mono (Nat.le_succ b)⟩
  | some digits =>
    obtain ⟨start, stop, hn, hstart, hstop⟩ := citationNumbers_bounded hx h hdigits
    cases stop with
    | none =>
      cases hd : dest start with
      | none =>
        refine ⟨dangling, bind_ok.mpr ⟨_, hn, ?_⟩, hdangling⟩
        simp only [hd]
        rfl
      | some a =>
        obtain ⟨s, hs, hbound⟩ := hwrite start a hstart hd
        refine ⟨s, bind_ok.mpr ⟨_, hn, ?_⟩, hbound⟩
        simp only [hd]
        exact bind_ok.mpr ⟨s, hs, rfl⟩
    | some stop =>
      cases hd : dest start with
      | none =>
        refine ⟨dangling, bind_ok.mpr ⟨_, hn, ?_⟩, hdangling⟩
        simp only [hd]
        rfl
      | some a =>
        cases hd' : dest stop with
        | none =>
          refine ⟨dangling, bind_ok.mpr ⟨_, hn, ?_⟩, hdangling⟩
          simp only [hd, hd']
          rfl
        | some a' =>
          obtain ⟨s, hs, hbound⟩ := hwrite start a hstart hd
          obtain ⟨s', hs', hbound'⟩ := hwrite stop a' (hstop stop rfl) hd'
          refine ⟨Text.ofString (s ++ "-" ++ s'), bind_ok.mpr ⟨_, hn, ?_⟩, ?_⟩
          · simp only [hd, hd']
            exact bind_ok.mpr ⟨s, hs, bind_ok.mpr ⟨s', hs', rfl⟩⟩
          · rw [ofString_append, ofString_append, List.append_assoc]
            exact hbound.append hbound' rfl

theorem renumber_bounded {dest : Nat → Option Nat} (hdest : Change.Steps dest) {b : Nat}
    (hb : b < 10 ^ Text.maxDigits) {t : Text} (h : t.Bounded b) :
    ∃ out, renumber (fun n => (dest n).map Nat.cast) t = .ok out ∧ (out.getD t).Bounded (b + 1) := by
  have hkeep := h.mono (Nat.le_succ b)
  unfold renumber
  cases hp : pieces t with
  | nil => exact ⟨none, rfl, hkeep⟩
  | cons rule rest =>
    have hmem : ∀ x ∈ rule :: rest, x ∈ pieces t := fun x hx => hp ▸ hx
    have hpart : ∀ x ∈ rule :: rest, x.Bounded b := fun x hx =>
      h.of_run fun _ => pieces_run (hmem x hx)
    have hmoves : ∀ x ∈ rest, ∃ y, renumberPiece (fun n => (dest n).map Nat.cast) x = .ok y ∧
        y.Bounded (b + 1) := by
      intro x hx
      have hx := List.mem_cons_of_mem rule hx
      exact renumberPiece_bounded hdest hb (mem_pieces (hmem x hx)).1 (hpart x hx)
    obtain ⟨moved, hmoved, hall⟩ := mapM_exists hmoves
    by_cases e : moved = rest
    · refine ⟨none, bind_ok.mpr ⟨moved, hmoved, if_pos e⟩, hkeep⟩
    · refine ⟨_, bind_ok.mpr ⟨moved, hmoved, if_neg e⟩, ?_⟩
      rw [Option.getD_some, List.append_assoc]
      have hrule := (hpart rule List.mem_cons_self).mono (Nat.le_succ b)
      exact hrule.append (Text.Bounded.intercalate (Nat.succ_pos b) hall) rfl

end Justification

/-! ## Lines -/

namespace Line

theorem create_bounded {b : Nat} {j : Text} (h : j.Bounded b) (s : Text) (depth : Int)
    (kind : Option ScopeKind) : ∃ l, create s j depth kind = .ok l := by
  unfold create
  split
  · exact ⟨_, rfl⟩
  · exact ⟨_, rfl⟩
  · rename_i e he
    exact absurd he (Justification.read_bounded h e)

theorem withJustification_bounded {b : Nat} {text : Text} (h : text.Bounded b) (l : Line) :
    ∃ l', l.withJustification text = .ok l' := by
  unfold withJustification
  split
  · exact ⟨_, rfl⟩
  · exact ⟨_, rfl⟩
  · rename_i e he
    exact absurd he (Justification.read_bounded h e)

end Line

/-- A line whose numbers are bounded can be renumbered, and its numbers grow by one at most. -/
theorem Document.renumberLine_bounded {dest : Nat → Option Nat} (hdest : Change.Steps dest) {b : Nat}
    (hb : b < 10 ^ Text.maxDigits) {l : Line} (h : l.justificationText.Bounded b) :
    ∃ l', renumberLine (fun n => (dest n).map Nat.cast) l = .ok l' ∧
      l'.justificationText.Bounded (b + 1) := by
  obtain ⟨out, hout, hbound⟩ := Justification.renumber_bounded hdest hb h
  have hmoves : ∃ l', renumberLine (fun n => (dest n).map Nat.cast) l = .ok l' := by
    unfold renumberLine
    cases out with
    | none => exact ⟨l, bind_ok.mpr ⟨none, hout, rfl⟩⟩
    | some text =>
      have hbound : text.Bounded (b + 1) := hbound
      obtain ⟨l', hl'⟩ := Line.withJustification_bounded hbound l
      exact ⟨l', bind_ok.mpr ⟨some text, hout, hl'⟩⟩
  obtain ⟨l', hl'⟩ := hmoves
  obtain ⟨-, -, out', hout', htext⟩ := renumberLine_cases hl'
  rw [hout] at hout'
  cases hout'
  exact ⟨l', hl', htext ▸ hbound⟩

end ModalFitch
