import ModalFitch.Proofs.Intervals
import ModalFitch.Proofs.Relocation

/-! Which lists of lines nest.

A line fits by its own depth and opening and the depth of the line before it alone, so the lines of
an outline can be judged one by one, and an edit only at its seams.

* `Fits`: each line fits after the one before it.
* `Outline.build_iff_fits`: the lists that make an outline are those that fit.
* `inserted_fits_iff`: where a line may be inserted.
* `Outline.Nested.remaining_fits`: a line can be removed, with its subproof if it opens one.
* `set_fits`: so can a line be exchanged for one of the same depth that opens a subproof as it did. -/

namespace ModalFitch
set_option autoImplicit false

/-! ## Lines that fit -/

/-- A line fits after a line of a given depth: it stays there or goes up, or opens a subproof at most
one deeper. -/
def Line.Follows (l : Line) (before : Int) : Prop :=
  if l.opens.isSome then 1 ≤ l.depth ∧ l.depth ≤ before + 1 else 0 ≤ l.depth ∧ l.depth ≤ before

/-- Each of the lines fits after the one before it, the first after a line of the given depth. -/
def Fits (before : Int) : List Line → Prop
  | [] => True
  | l :: rest => l.Follows before ∧ Fits l.depth rest

/-- The depth of the last line, or a given one where there is none. -/
def depthAfter (before : Int) (lines : List Line) : Int :=
  (lines.getLast?.map Line.depth).getD before

theorem Line.Follows.nonneg {l : Line} {before : Int} (h : l.Follows before) : 0 ≤ l.depth := by
  unfold Follows at h
  split at h <;> omega

theorem Line.Follows.mono {l : Line} {before before' : Int} (h : l.Follows before)
    (hle : before ≤ before') : l.Follows before' := by
  unfold Follows at h ⊢
  split at h
  · rename_i ho
    rw [if_pos ho]
    omega
  · rename_i ho
    rw [if_neg ho]
    omega

/-- A line that fits somewhere fits after a line that is not too high for it. -/
theorem Line.Follows.iff_le {l : Line} {before before' : Int} (h : l.Follows before) :
    l.Follows before' ↔ l.depth ≤ before' ∨ (l.opens.isSome = true ∧ l.depth ≤ before' + 1) := by
  unfold Follows at h ⊢
  split at h
  · rename_i ho
    rw [if_pos ho]
    simp only [ho, true_and]
    omega
  · rename_i ho
    rw [if_neg ho]
    simp only [ho, false_and, or_false, Bool.false_eq_true]
    omega

theorem depthAfter_cons (before : Int) (l : Line) (lines : List Line) :
    depthAfter before (l :: lines) = depthAfter l.depth lines := by
  unfold depthAfter
  rw [List.getLast?_cons]
  cases lines.getLast? <;> rfl

theorem depthAfter_take_succ (before : Int) {lines : List Line} {i : Nat} {l : Line}
    (hl : lines[i]? = some l) : depthAfter before (lines.take (i + 1)) = l.depth := by
  unfold depthAfter
  rw [List.take_add_one, hl, Option.toList_some, List.getLast?_concat]
  rfl

theorem fits_append {before : Int} {xs ys : List Line} :
    Fits before (xs ++ ys) ↔ Fits before xs ∧ Fits (depthAfter before xs) ys := by
  induction xs generalizing before with
  | nil => simp [Fits, depthAfter]
  | cons l xs ih =>
    rw [List.cons_append, Fits, Fits, ih, depthAfter_cons, and_assoc]

/-- Only the first line depends on what is before. -/
theorem Fits.rebase {before before' : Int} {lines : List Line} (h : Fits before lines)
    (hfirst : ∀ l ∈ lines.head?, l.Follows before') : Fits before' lines := by
  cases lines with
  | nil => trivial
  | cons l rest => exact ⟨hfirst l rfl, h.2⟩

theorem Fits.depthAfter_nonneg {lines : List Line} (h : Fits 0 lines) : 0 ≤ depthAfter 0 lines := by
  rcases List.eq_nil_or_concat lines with rfl | ⟨xs, l, rfl⟩
  · exact Int.le_refl 0
  · rw [List.concat_eq_append, fits_append] at h
    have := h.2.1.nonneg
    simpa [depthAfter] using this

/-- What the nesting of a line rests on. -/
def Line.shape (l : Line) : Int × Bool := (l.depth, l.opens.isSome)

theorem Line.shape_of_frame {l l' : Line} (h : l'.frame = l.frame) : l'.shape = l.shape := by
  simp only [frame, Prod.mk.injEq] at h
  unfold shape
  rw [h.2.1, h.2.2]

theorem Line.openedKind_isSome (kind : Option ScopeKind) (reading : Except ParseError Sentence) :
    (openedKind kind reading).isSome = kind.isSome := by
  rcases openedKind_cases kind reading with ⟨e, -⟩ | ⟨e, -, hk⟩
  · rw [e]
  · rw [e, hk]
    rfl

/-- Another sentence may change the kind of the subproof that a line opens, but not whether it opens
one. -/
theorem Line.withSentence_shape (l : Line) (text : Text) : (l.withSentence text).shape = l.shape := by
  have hopens := l.withSentence_opens text
  unfold shape
  rw [(l.withSentence_justification text).2, hopens]
  split
  · rename_i h
    rw [Bool.and_eq_true] at h
    rw [h.2]
    rfl
  · rw [openedKind_isSome]

theorem fits_shape {before : Int} {xs ys : List Line} (h : ys.map Line.shape = xs.map Line.shape) :
    Fits before ys ↔ Fits before xs := by
  induction xs generalizing before ys with
  | nil =>
    cases List.map_eq_nil_iff.mp h
    rfl
  | cons l xs ih =>
    obtain ⟨l', ys, rfl, hl, hys⟩ := List.map_eq_cons_iff.mp h
    obtain ⟨hdepth, hopens⟩ := Prod.mk.inj hl
    rw [Fits, Fits, ih hys, hdepth]
    unfold Line.Follows
    rw [hdepth, hopens]

/-- Each line fits after those before it. -/
theorem Fits.follows {before : Int} {lines : List Line} (h : Fits before lines) {i : Nat} {l : Line}
    (hl : lines[i]? = some l) : l.Follows (depthAfter before (lines.take i)) := by
  rw [← List.take_append_drop i lines, fits_append] at h
  rw [← List.head?_drop] at hl
  obtain ⟨rest, hrest⟩ := List.head?_eq_some_iff.mp hl
  rw [hrest] at h
  exact h.2.1

/-! ## Outlines -/

namespace Layout

theorem step_iff_follows {p : Layout} {n : Nat} {l : Line} :
    (∃ q, p.step n l = .ok q) ↔ l.Follows p.depth := by
  unfold step Line.Follows
  by_cases h0 : l.depth < 0
  · rw [if_pos h0]
    constructor
    · rintro ⟨q, hq⟩
      cases hq
    · intro h
      split at h <;> omega
  · rw [if_neg h0]
    cases l.opens with
    | none =>
      simp only [Option.isSome_none, Bool.false_eq_true, if_false]
      by_cases h1 : p.depth < l.depth
      · rw [if_pos h1]
        constructor
        · rintro ⟨q, hq⟩
          cases hq
        · intro h
          omega
      · rw [if_neg h1]
        exact ⟨fun _ => by omega, fun _ => ⟨_, rfl⟩⟩
    | some kind =>
      simp only [Option.isSome_some, if_true]
      by_cases h1 : l.depth < 1
      · rw [if_pos h1]
        constructor
        · rintro ⟨q, hq⟩
          cases hq
        · intro h
          omega
      · rw [if_neg h1]
        by_cases h2 : p.depth + 1 < l.depth
        · rw [if_pos h2]
          constructor
          · rintro ⟨q, hq⟩
            cases hq
          · intro h
            omega
        · rw [if_neg h2]
          exact ⟨fun _ => by omega, fun _ => ⟨_, rfl⟩⟩

/-- The innermost open scope after a line is at the depth of the line. -/
theorem Ordered.step_depth {p q : Layout} {n : Nat} {l : Line} (hp : p.Ordered)
    (h : p.step n l = .ok q) : q.Ordered ∧ q.depth = l.depth := by
  obtain ⟨hq, hlen, -⟩ := hp.step h
  refine ⟨hq, ?_⟩
  rw [hq.stacked.depth_eq]
  unfold chain at hlen
  rw [List.length_append, List.length_map, List.length_singleton] at hlen
  omega

theorem chains_iff_fits {p : Layout} (hp : p.Ordered) {n : Nat} {lines : List Line} :
    (∃ cs, p.chains n lines = .ok cs) ↔ Fits p.depth lines := by
  induction lines generalizing p n with
  | nil => exact ⟨fun _ => trivial, fun _ => ⟨[], rfl⟩⟩
  | cons l rest ih =>
    rw [chains, Fits, ← step_iff_follows (n := n)]
    constructor
    · rintro ⟨cs, h⟩
      obtain ⟨q, hq, h⟩ := bind_ok.mp h
      obtain ⟨cs', hcs, -⟩ := bind_ok.mp h
      obtain ⟨hordered, hdepth⟩ := hp.step_depth hq
      exact ⟨⟨q, hq⟩, hdepth ▸ (ih hordered).mp ⟨cs', hcs⟩⟩
    · rintro ⟨⟨q, hq⟩, hrest⟩
      obtain ⟨hordered, hdepth⟩ := hp.step_depth hq
      obtain ⟨cs, hcs⟩ := (ih hordered).mpr (hdepth ▸ hrest)
      exact ⟨_, bind_ok.mpr ⟨q, hq, bind_ok.mpr ⟨cs, hcs, rfl⟩⟩⟩

end Layout

namespace Outline

/-- The lists of lines that make an outline. -/
theorem build_iff_fits {lines : List Line} {goal : Option Goal} {revision : Nat} :
    (∃ o, build lines goal revision = .ok o) ↔ Fits 0 lines := by
  rw [show (0 : Int) = Layout.start.depth from rfl, ← Layout.chains_iff_fits Layout.start_ordered]
  unfold build
  constructor
  · rintro ⟨o, h⟩
    obtain ⟨cs, hcs, -⟩ := bind_ok.mp h
    exact ⟨cs, hcs⟩
  · rintro ⟨cs, hcs⟩
    exact ⟨_, bind_ok.mpr ⟨cs, hcs, rfl⟩⟩

theorem Nested.fits {o : Outline} (h : o.Nested) : Fits 0 o.lines := build_iff_fits.mp ⟨o, h⟩

end Outline

/-! ## Seams -/

/-- A line may be inserted if it fits after the line before it, and the line after it fits after
it. -/
theorem inserted_fits_iff {lines : List Line} (h : Fits 0 lines) (p : Nat) (l : Line) :
    Fits 0 (Document.inserted lines p l) ↔
      l.Follows (depthAfter 0 (lines.take (p - 1))) ∧ ∀ m ∈ lines[p - 1]?,
        m.depth ≤ l.depth ∨ (m.opens.isSome = true ∧ m.depth ≤ l.depth + 1) := by
  have hwhole := h
  rw [← List.take_append_drop (p - 1) lines, fits_append] at h
  unfold Document.inserted
  rw [fits_append, Fits, ← List.head?_drop]
  constructor
  · rintro ⟨-, hl, hrest⟩
    refine ⟨hl, fun m hm => ?_⟩
    cases hdrop : lines.drop (p - 1) with
    | nil =>
      rw [hdrop] at hm
      cases hm
    | cons m' rest =>
      rw [hdrop] at hm hrest h
      cases hm
      exact h.2.1.iff_le.mp hrest.1
  · rintro ⟨hl, hnext⟩
    refine ⟨h.1, hl, h.2.rebase fun m hm => ?_⟩
    cases hdrop : lines.drop (p - 1) with
    | nil =>
      rw [hdrop] at hm
      cases hm
    | cons m' rest =>
      have hnext := hnext m hm
      rw [hdrop] at hm h
      cases hm
      exact h.2.1.iff_le.mpr hnext

/-- Lines can be removed if what follows them fits after what is before them. -/
theorem remaining_fits {lines : List Line} (h : Fits 0 lines) {first last : Nat}
    (hseam : ∀ m ∈ lines[last]?, m.Follows (depthAfter 0 (lines.take (first - 1)))) :
    Fits 0 (Document.remaining lines first last) := by
  have hafter := h
  rw [← List.take_append_drop last lines, fits_append] at hafter
  rw [← List.take_append_drop (first - 1) lines, fits_append] at h
  unfold Document.remaining
  rw [fits_append]
  refine ⟨h.1, hafter.2.rebase fun m hm => hseam m ?_⟩
  rwa [List.head?_drop] at hm

/-- A line that is exchanged for one of the same depth and opening. -/
theorem set_fits {lines : List Line} (h : Fits 0 lines) {i : Nat} {l l' : Line}
    (hl : lines[i]? = some l) (hshape : l'.shape = l.shape) : Fits 0 (lines.set i l') :=
  (fits_shape (map_set_eq hl hshape)).mpr h

namespace Outline.Nested

variable {o : Outline} (h : o.Nested)
include h

/-- The line after a subproof is less deep than its lines, or opens another one beside it. -/
theorem after_subproof {s : Scope} (hs : o.HasScope s) (h0 : s.id ≠ 0) {m : Line}
    (hm : o.line? (s.last + 1) = some m) :
    m.depth < s.depth ∨ (m.opens.isSome = true ∧ m.depth ≤ s.depth) := by
  obtain ⟨f, a⟩ := h.along
  have hfirst := h.first_pos hs
  have hne := h.subproof_nonempty hs h0
  obtain ⟨i, hi⟩ : ∃ i, s.last = i + 1 := ⟨s.last - 1, by omega⟩
  -- The last line of the subproof stands in it, and the next one does not.
  have hlast := h.last_le hs
  obtain ⟨l, hl⟩ : ∃ l, o.line? s.last = some l := exists_line (by omega) hlast
  rw [hi] at hl hm
  obtain ⟨r, hr, hrs, henc⟩ := a.home (i := i) hl
  obtain ⟨r', hr', -, henc'⟩ := a.home (i := i + 1) hm
  have hinside : s.enclosing <:+ (f (i + 1)).chain :=
    henc ▸ h.enclosing_suffix_of hs hrs (h.encloses_of_interval hr hs (by omega) (by omega))
  have houtside : s.id ∉ (f (i + 1 + 1)).chain := by
    intro hmem
    have := (h.range hr' hs (henc' ▸ hmem)).2
    omega
  have hshort : ∀ ys, ys <:+ (f (i + 1)).chain → s.id ∉ ys → ys.length < s.enclosing.length := by
    intro ys hys hnot
    by_contra hlen
    have hsuf := List.suffix_of_suffix_length_le hinside hys (by omega)
    exact hnot (hsuf.subset (h.self_mem hs))
  have hdepth := h.scope_depth hs
  obtain ⟨hlen, ⟨kind, around, ho, -, -, hsuf, e⟩ | ⟨-, -, hsuf⟩⟩ := a.trace.line (i := i + 1) hm
  · rw [e] at hlen houtside
    have := hshort around hsuf fun hmem => houtside (List.mem_cons_of_mem _ hmem)
    rw [List.length_cons] at hlen
    exact .inr ⟨by rw [ho]; rfl, by omega⟩
  · have := hshort _ hsuf houtside
    exact .inl (by omega)

/-- What stays when a line is removed fits together. -/
theorem removal_fits {n first last : Nat}
    (hrange : Document.removalRange o n = .ok (first, last)) :
    Fits 0 (Document.remaining o.lines first last) := by
  refine remaining_fits h.fits fun m hm => ?_
  obtain ⟨rfl, l, hl, hcase⟩ := (Document.removalRange_iff h).mp hrange
  have hfollows := h.fits.follows (Outline.line?_eq_some.mp hl).2
  have hn := (Outline.line?_eq_some.mp hl).1
  have hnext := h.fits.follows hm
  unfold Line.Follows at hfollows
  rcases hcase with ⟨ho, rfl⟩ | ⟨s, ho, hscope, hs, h0, -, rfl⟩
  · rw [ho, Option.isSome_none, if_neg Bool.false_ne_true] at hfollows
    obtain ⟨i, rfl⟩ : ∃ i, last = i + 1 := ⟨last - 1, by omega⟩
    have hat : o.lines[i]? = some l := (Outline.line?_eq_some.mp hl).2
    rw [depthAfter_take_succ _ hat] at hnext
    exact hnext.mono hfollows.2
  · rw [hnext.iff_le]
    have hafter := h.after_subproof hs h0 hm
    have hdepth := h.scope_depth hs
    obtain ⟨-, l', hl', hlen⟩ := h.scopeOf_cases hscope
    rw [hl] at hl'
    cases hl'
    rw [ho, Option.isSome_some, if_pos rfl] at hfollows
    rcases hafter with hlt | ⟨hopens, hle⟩
    · exact .inl (by omega)
    · exact .inr ⟨hopens, by omega⟩

end Outline.Nested

end ModalFitch
