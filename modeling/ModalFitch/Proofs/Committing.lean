import ModalFitch.Proofs.Acceptance
import ModalFitch.Session.Desk

/-! What a desk answers to a list of edits.

* `Desk.attend`: a desk that takes one edit after the other.
* `Desk.Ready`: the edits that a desk commits.
* `edits_atomic`: the outline stays that of the lines, revisions count the committed edits, and an
  edit that is not committed changes nothing. -/

namespace ModalFitch
set_option autoImplicit false

namespace Desk

/-- The edit is answered and announced. -/
def Commits (desk : Desk) (e : Edit) : Prop :=
  ∃ reply change, (desk.handle (.edit e)).2 = ⟨.ok reply, some change⟩

/-- A desk after a list of edits, with its responses to them. -/
def attend (desk : Desk) : List Edit → Desk × List Response
  | [] => (desk, [])
  | e :: es =>
    let (next, response) := desk.handle (.edit e)
    let (last, responses) := next.attend es
    (last, response :: responses)

/-- An edit is committed, and announced with the next revision, or nothing happens at all. -/
theorem handle_edit_cases (desk : Desk) (e : Edit) :
    (∃ d change answer reply, desk.session.document.edit e = .ok (d, change, answer) ∧
      (desk.handle (.edit e)).1.session.document = d ∧
      (desk.handle (.edit e)).2 = ⟨.ok reply, some change⟩) ∨
    ∃ err, desk.session.document.edit e = .error err ∧
      desk.handle (.edit e) = (desk, .failed (.edit err)) := by
  cases h : desk.session.document.edit e with
  | error err =>
    have hs : desk.session.edit e = .error err := by
      unfold Session.edit
      rw [h]
      rfl
    refine .inr ⟨err, rfl, ?_⟩
    simp only [handle, hs]
  | ok r =>
    obtain ⟨d, change, answer⟩ := r
    have hs : ∃ s, desk.session.edit e = .ok (s, change, answer) ∧ s.document = d := by
      unfold Session.edit
      rw [h]
      exact ⟨_, rfl, rfl⟩
    obtain ⟨s, hs, rfl⟩ := hs
    cases answer with
    | line l =>
      refine .inl ⟨_, change, .line l, .line l, rfl, ?_, ?_⟩
      · simp only [handle, hs]
        rfl
      · simp only [handle, hs]
    | removed ns =>
      refine .inl ⟨_, change, .removed ns, .numbers ns, rfl, ?_, ?_⟩
      · simp only [handle, hs]
        rfl
      · simp only [handle, hs]

theorem commits_iff {desk : Desk} {e : Edit} :
    desk.Commits e ↔ ∃ r, desk.session.document.edit e = .ok r := by
  unfold Commits
  rcases desk.handle_edit_cases e with ⟨d, change, answer, reply, h, -, hr⟩ | ⟨err, h, hr⟩
  · exact ⟨fun _ => ⟨_, h⟩, fun _ => ⟨reply, change, hr⟩⟩
  · rw [hr, h]
    constructor
    · rintro ⟨reply, change, e⟩
      cases e
    · rintro ⟨r, e⟩
      cases e

/-- An edit that is not committed changes nothing and is not announced. -/
theorem handle_uncommitted {desk : Desk} {e : Edit} (h : ¬desk.Commits e) :
    ∃ err, desk.handle (.edit e) = (desk, .failed err) := by
  rcases desk.handle_edit_cases e with ⟨d, change, answer, reply, -, -, hr⟩ | ⟨err, -, hr⟩
  · exact absurd ⟨reply, change, hr⟩ h
  · exact ⟨_, hr⟩

/-- What a desk keeps through a list of edits, and what it announces. -/
structure Attended (desk desk' : Desk) (responses : List Response) : Prop where
  current : desk'.session.document.Current
  goal : desk'.session.document.goal = desk.session.document.goal
  faithful : (∀ l ∈ desk.session.document.lines, l.Faithful) →
    ∀ l ∈ desk'.session.document.lines, l.Faithful
  le : desk.session.document.revision ≤ desk'.session.document.revision
  announced : (responses.filterMap Response.change).map Change.revision =
    List.range' (desk.session.document.revision + 1)
      (desk'.session.document.revision - desk.session.document.revision)
  answered : ∀ r ∈ responses, r.reply.isOk = r.change.isSome

theorem attend_cons_desk (desk : Desk) (e : Edit) (es : List Edit) :
    (desk.attend (e :: es)).1 = ((desk.handle (.edit e)).1.attend es).1 := rfl

theorem attend_cons_responses (desk : Desk) (e : Edit) (es : List Edit) :
    (desk.attend (e :: es)).2 =
      (desk.handle (.edit e)).2 :: ((desk.handle (.edit e)).1.attend es).2 := rfl

theorem attend_attended {desk : Desk} (hd : desk.session.document.Current) (es : List Edit) :
    desk.Attended (desk.attend es).1 (desk.attend es).2 := by
  induction es generalizing desk with
  | nil =>
    refine ⟨hd, rfl, id, Nat.le_refl _, ?_, by simp [attend]⟩
    simp [attend]
  | cons e es ih =>
    rw [attend_cons_desk, attend_cons_responses]
    rcases desk.handle_edit_cases e with ⟨d, change, answer, reply, h, hdoc, hr⟩ | ⟨err, -, hr⟩
    · have hleaves := Document.edit_leaves hd.nested h
      have hnext : (desk.handle (.edit e)).1.session.document.Current := hdoc ▸ hleaves.current
      obtain ⟨hcurrent, hgoal, hfaithful, hle, hannounced, hanswered⟩ := ih hnext
      rw [hdoc] at hgoal hfaithful hle hannounced
      have hrev := hleaves.revision
      refine ⟨hcurrent, hgoal.trans hleaves.goal, fun hf => hfaithful (hleaves.faithful hf),
        by omega, ?_, ?_⟩
      · have hchange : Response.change ⟨.ok reply, some change⟩ = some change := rfl
        rw [hr, List.filterMap_cons_some hchange, List.map_cons, hannounced, hleaves.announced, hrev,
          ← List.range'_succ]
        congr 1
        omega
      · rw [hr]
        exact List.forall_mem_cons.mpr ⟨rfl, hanswered⟩
    · -- A refused edit adds a response without a change, and the desk goes on as it was.
      rw [hr]
      obtain ⟨hcurrent, hgoal, hfaithful, hle, hannounced, hanswered⟩ := ih hd
      exact ⟨hcurrent, hgoal, hfaithful, hle, hannounced, List.forall_mem_cons.mpr ⟨rfl, hanswered⟩⟩

theorem length_attend (desk : Desk) (es : List Edit) : (desk.attend es).2.length = es.length := by
  induction es generalizing desk with
  | nil => rfl
  | cons e es ih => rw [attend_cons_responses, List.length_cons, List.length_cons, ih]

/-- Edits that write no long numbers make the numbers of the document larger by one at most each. -/
theorem attend_bounded {desk : Desk} (hd : desk.session.document.Current) {es : List Edit} {b : Nat}
    (hbound : desk.session.document.Bounded b) (hlow : 10 ^ (Text.maxDigits - 1) ≤ b)
    (hb : b + es.length ≤ 10 ^ Text.maxDigits) (hes : ∀ e ∈ es, e.Terse) :
    (desk.attend es).1.session.document.Bounded (b + es.length) := by
  induction es generalizing desk b with
  | nil => exact hbound
  | cons e es ih =>
    obtain ⟨he, hes⟩ := List.forall_mem_cons.mp hes
    rw [List.length_cons] at hb ⊢
    rw [attend_cons_desk]
    rcases desk.handle_edit_cases e with ⟨d, change, answer, reply, h, hdoc, -⟩ | ⟨err, -, hr⟩
    · have hleaves := Document.edit_leaves hd.nested h
      have hnext : (desk.handle (.edit e)).1.session.document.Current := hdoc ▸ hleaves.current
      have hstep : (desk.handle (.edit e)).1.session.document.Bounded (b + 1) :=
        hdoc ▸ hbound.edit hd.nested hlow (by omega) he h
      have := ih hnext hstep (by omega) (by omega) hes
      rwa [show b + (es.length + 1) = b + 1 + es.length by omega]
    · rw [hr]
      intro l hl
      exact (ih hd hbound hlow (by omega) hes l hl).mono (by omega)

/-- The edits that a desk commits: every line can be removed and rewritten, and a line can be inserted
at every position, at any depth that fits there. -/
structure Ready (desk : Desk) : Prop where
  remove : ∀ n : Nat, 1 ≤ n → n ≤ desk.session.document.size → desk.Commits (.remove n)
  sentence : ∀ (n : Nat) (text : Text), 1 ≤ n → n ≤ desk.session.document.size →
    desk.Commits (.sentence n text)
  justification : ∀ (n : Nat) (text : Text), 1 ≤ n → n ≤ desk.session.document.size → text.Terse →
    desk.Commits (.justification n text)
  insert : ∀ (n : Nat) (s j : Text), 1 ≤ n → n ≤ desk.session.document.size + 1 → j.Terse →
    desk.Commits (.insert n s j none)
  openSubproof : ∀ (n : Nat) (s j : Text) (kind : ScopeKind), 1 ≤ n →
    n ≤ desk.session.document.size + 1 → j.Terse → desk.Commits (.openSubproof n s kind none j)
  insertAt : ∀ (n : Nat) (s j : Text) (depth : Int), 1 ≤ n → n ≤ desk.session.document.size + 1 →
    j.Terse → (desk.Commits (.insert n s j (some depth)) ↔
      (0 ≤ depth ∧ depth ≤ desk.session.document.depthOver n) ∧ desk.session.document.Admits n depth)
  openSubproofAt : ∀ (n : Nat) (s j : Text) (kind : ScopeKind) (depth : Int), 1 ≤ n →
    n ≤ desk.session.document.size + 1 → j.Terse →
    (desk.Commits (.openSubproof n s kind (some depth) j) ↔
      (1 ≤ depth ∧ depth ≤ desk.session.document.depthOver n + 1) ∧
        desk.session.document.Admits n depth)

theorem ready_of_bounded {desk : Desk} (hd : desk.session.document.outline.Nested) {b : Nat}
    (hbound : desk.session.document.Bounded b) (hb : b < 10 ^ Text.maxDigits) : desk.Ready where
  remove n h1 hn := by
    obtain ⟨⟨d', change, removed⟩, h⟩ := Document.remove_accepts hd hbound hb h1 hn
    exact commits_iff.mpr ⟨_, bind_ok.mpr ⟨_, h, rfl⟩⟩
  sentence n text h1 hn := commits_iff.mpr (Document.rewrite_accepts hd h1 hn).1
  justification n text h1 hn htext := commits_iff.mpr ((Document.rewrite_accepts hd h1 hn).2 htext)
  insert n s j h1 hn hj := by
    have h0 := Document.depthOver_nonneg hd h1 hn
    rw [commits_iff, Document.insertion_accepted_iff (.inr ⟨rfl, Document.depthBefore_eq h1 hn⟩),
      Document.place_accepts hd hbound hb h1 hn hj]
    exact ⟨⟨h0, Int.le_refl _⟩, Document.admits_depthOver hd h1 hn (Int.le_refl _)⟩
  openSubproof n s j kind h1 hn hj := by
    have h0 := Document.depthOver_nonneg hd h1 hn
    rw [commits_iff, Document.opening_accepted_iff (.inr ⟨rfl, Document.depthBefore_eq h1 hn⟩),
      Document.place_accepts hd hbound hb h1 hn hj]
    exact ⟨⟨by omega, Int.le_refl _⟩, Document.admits_depthOver hd h1 hn (by omega)⟩
  insertAt n s j depth h1 hn hj := by
    rw [commits_iff, Document.insertion_accepted_iff (.inl rfl),
      Document.place_accepts hd hbound hb h1 hn hj]
    rfl
  openSubproofAt n s j kind depth h1 hn hj := by
    rw [commits_iff, Document.opening_accepted_iff (.inl (by rw [Int.sub_add_cancel])),
      Document.place_accepts hd hbound hb h1 hn hj, Int.sub_add_cancel]
    rfl

end Desk

/-- From an accepted document on, a desk that takes any edits keeps the outline of the current lines,
counts the committed edits by its revision, and announces each of them once. An edit that is not
committed changes nothing. As long as the numbers in the justifications are not too long, lines can
be removed, rewritten and inserted wherever the nesting allows. -/
theorem edits_atomic {lines : List Line} {goal : Option Goal} {d : Document} {config : Config}
    (hd : Document.ofLines lines goal = .ok d) {es : List Edit} {desk : Desk}
    {responses : List Response} (hrun : (Desk.start d config).attend es = (desk, responses)) :
    let doc := desk.session.document
    Outline.build doc.lines goal doc.revision = .ok doc.outline ∧
      ((∀ l ∈ lines, l.Faithful) → doc.WellFormed) ∧
      responses.length = es.length ∧ (∀ r ∈ responses, r.reply.isOk = r.change.isSome) ∧
      responses.countP (·.reply.isOk) = doc.revision ∧
      (responses.filterMap Response.change).map Change.revision = List.range' 1 doc.revision ∧
      (∀ e, ¬desk.Commits e → ∃ err, desk.handle (.edit e) = (desk, .failed err)) ∧
      ((∀ l ∈ doc.lines, l.justificationText.Terse) ∨
          ((∀ l ∈ lines, l.justificationText.Terse) ∧ (∀ e ∈ es, e.Terse) ∧
            es.length < 9 * 10 ^ (Text.maxDigits - 1)) →
        desk.Ready) := by
  obtain ⟨hbuild, hgoal⟩ := Document.ofLines_iff.mp hd
  obtain ⟨hnested, hold, hgoal', hzero⟩ := Outline.build_cases hbuild
  have hcurrent : (Desk.start d config).session.document.Current := by
    show Outline.build d.lines d.goal d.revision = .ok d.outline
    rw [hgoal, ← hgoal']
    exact hnested
  have hlength := Desk.length_attend (Desk.start d config) es
  have hattended := Desk.attend_attended hcurrent es
  rw [hrun] at hlength hattended
  have hzero : (Desk.start d config).session.document.revision = 0 := hzero
  have hannounced := hattended.announced
  rw [hzero, Nat.sub_zero] at hannounced
  have hcount : responses.countP (·.reply.isOk) = desk.session.document.revision := by
    have hlen := congrArg List.length hannounced
    rw [List.length_map, List.length_filterMap_eq_countP, List.length_range'] at hlen
    rw [← hlen]
    exact List.countP_congr fun r hr => by rw [hattended.answered r hr]
  refine ⟨?_, fun hf => ⟨hattended.current.nested, hattended.faithful ?_⟩, hlength,
    hattended.answered, hcount, hannounced, fun e => Desk.handle_uncommitted, fun hterse => ?_⟩
  · have hgoal : desk.session.document.goal = goal := hattended.goal.trans hgoal
    rw [← hgoal]
    exact hattended.current
  · intro l hl
    exact hf l (hold ▸ hl)
  · -- A number with fewer digits than can be read has room for nine times the least that has as many.
    have hpow : 10 ^ Text.maxDigits = 10 ^ (Text.maxDigits - 1) * 10 := by
      rw [← Nat.pow_succ]
      congr 1
    have hpos : 0 < 10 ^ (Text.maxDigits - 1) := Nat.pow_pos (by omega)
    rcases hterse with hterse | ⟨hlines, hes, hfew⟩
    · exact Desk.ready_of_bounded hattended.current.nested
        (fun l hl => (hterse l hl).bounded) (by omega)
    · have hbound := Desk.attend_bounded hcurrent
        (fun l hl => (hlines l (hold ▸ hl)).bounded) (Nat.le_refl _) (by omega) hes
      rw [hrun] at hbound
      exact Desk.ready_of_bounded hattended.current.nested hbound (by omega)

/-- A subproof is removed, a line is inserted too deep, and a sentence is rewritten. -/
def removedThenRefused : List Edit :=
  [.remove 2, .insert 2 "P" "PR" (some 3), .sentence 1 "Q"]

theorem edits_atomic_refused : ∃ d desk responses,
    Document.ofLines dischargedInside none = .ok d ∧
      (Desk.start d ⟨some .k, false⟩).attend removedThenRefused = (desk, responses) ∧
      responses.map (·.reply.isOk) = [true, false, true] ∧ desk.session.document.revision = 2 ∧
      (responses.filterMap Response.change).map Change.revision = [1, 2] ∧ desk.Ready := by
  obtain ⟨d, hd, hreplies⟩ := exists_ok (x := Document.ofLines dischargedInside none)
    (p := fun d => ((Desk.start d ⟨some .k, false⟩).attend removedThenRefused).2.map
      (·.reply.isOk) = [true, false, true]) (by decide +kernel)
  rw [decide_eq_true_iff] at hreplies
  obtain ⟨⟨desk, responses⟩, hrun⟩ :
      ∃ r, (Desk.start d ⟨some .k, false⟩).attend removedThenRefused = r := ⟨_, rfl⟩
  rw [hrun] at hreplies
  obtain ⟨-, -, -, -, hcount, hannounced, -, hready⟩ := edits_atomic hd hrun
  have hrevision : desk.session.document.revision = 2 := by
    have hmap : (responses.map (·.reply.isOk)).countP id = responses.countP (·.reply.isOk) :=
      List.countP_map
    rw [← hcount, ← hmap, hreplies]
    rfl
  rw [hrevision] at hannounced
  refine ⟨d, desk, responses, hd, hrun, hreplies, hrevision, hannounced, hready (.inr ⟨?_, ?_, ?_⟩)⟩
  · have hshort : ∀ l ∈ dischargedInside, l.justificationText.length < Text.maxDigits := by
      decide +kernel
    exact fun l hl => Text.terse_of_length (hshort l hl)
  · have hshort : ∀ e ∈ removedThenRefused, ∀ j ∈ e.writes, j.length < Text.maxDigits := by
      decide +kernel
    exact fun e he j hj => Text.terse_of_length (hshort e he j hj)
  · have hpos : 0 < 10 ^ (Text.maxDigits - 1) := Nat.pow_pos (by omega)
    show 3 < _
    omega

end ModalFitch
