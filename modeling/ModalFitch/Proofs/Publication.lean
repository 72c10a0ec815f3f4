import ModalFitch.Proofs.Coverage
import ModalFitch.Proofs.Display

/-! Which passes are published, whatever edits, changes of the logic and other passes come between
their start and their end.

* `Session.History`: what a session can go through, with the tickets given out and the passes published.
* `Session.History.accounted`: what holds after every history, from one step to the next.
* `last_pass_published`: a pass is published exactly if it is the latest one, over the current outline
  and under the current logic. -/

namespace ModalFitch
set_option autoImplicit false

namespace Session

/-- The display has an entry for each line, numbered in order. -/
def Numbered (s : Session) : Prop :=
  s.diagnostics.map Diagnostic.number = List.range' 1 s.document.size

/-- What a session can go through: the tickets given out so far, the passes published with their
reports, and the session then. A ticket is completed at any time, any number of times or never. -/
inductive History (s₀ : Session) : List Ticket → List (Ticket × Report) → Session → Prop where
  | start : History s₀ [] [] s₀
  | edit {ts ps s s' e change answer} : History s₀ ts ps s →
      s.edit e = .ok (s', change, answer) → History s₀ ts ps s'
  | setGoal {ts ps s} (goal : Option Goal) : History s₀ ts ps s → History s₀ ts ps (s.setGoal goal)
  | setConfig {ts ps s} (config : Config) : History s₀ ts ps s →
      History s₀ ts ps (s.setConfig config)
  | begin {ts ps s} : History s₀ ts ps s → History s₀ (ts ++ [s.begin.2]) ps s.begin.1
  | complete {ts ps s t r} : History s₀ ts ps s → t ∈ ts → t.verify = .ok r →
      History s₀ ts (if (s.complete t r).2 then ps ++ [(t, r)] else ps) (s.complete t r).1

/-- The tickets are counted and none is ahead of the document, the display is numbered, and the
published passes come in order. -/
structure Accounted (ts : List Ticket) (ps : List (Ticket × Report)) (s : Session) : Prop where
  numbered : s.Numbered
  counted : ts.map Ticket.number = List.range' 1 s.latest
  issued : ∀ t ∈ ts, s.Issued t
  bounded : ∀ x ∈ ps, x.1.number ≤ s.latest ∧ x.2.revision ≤ s.document.revision
  ordered : ps.Pairwise fun x y => x.1.number ≤ y.1.number ∧ x.2.revision ≤ y.2.revision
  shown : s.report = ps.getLast?.map Prod.snd

/-! ## Entries -/

theorem numbers_allUnchecked (count : Nat) :
    (allUnchecked count).map Diagnostic.number = List.range' 1 count :=
  map_eq_range'_iff.mpr ⟨length_allUnchecked count, fun i d hd => by rw [allUnchecked_entry hd]⟩

theorem numbers_takeBack {numbers : List Nat} {ds : List Diagnostic} {count : Nat}
    (h : ds.map Diagnostic.number = List.range' 1 count) :
    (takeBack numbers ds).map Diagnostic.number = List.range' 1 count := by
  obtain ⟨hlen, hnumber⟩ := map_eq_range'_iff.mp h
  refine map_eq_range'_iff.mpr ⟨List.length_mapIdx.trans hlen, fun i d hd => ?_⟩
  obtain ⟨d', hd', rfl⟩ := takeBack_entry.mp hd
  split
  · rfl
  · exact hnumber i d' hd'

theorem edit_numbered {s s' : Session} (h : s.Numbered) {e : Edit} {change : Change}
    {answer : EditAnswer} (hedit : s.edit e = .ok (s', change, answer)) :
    s'.Numbered ∧ s'.document.revision = s.document.revision + 1 := by
  obtain ⟨d, hd, rfl⟩ := edit_ok hedit
  obtain ⟨-, lines, hbuild, hcase⟩ := Document.edit_cases hd
  obtain ⟨-, -, -, hrev⟩ := Outline.build_cases hbuild
  refine ⟨?_, hrev⟩
  show (displayAfter s.diagnostics d change).map Diagnostic.number = List.range' 1 d.size
  rcases hcase with ⟨hkind, -⟩ | ⟨n, l, l', hkind, hnumbers, hl, rfl, -⟩
  · rw [displayAfter_other hkind]
    exact numbers_allUnchecked d.size
  · have hsize : d.size = s.document.size :=
      (Outline.replace_others (Outline.line?_eq_some.mp hl).1 hbuild).1
    have hcount : s.diagnostics.length = d.size := (map_eq_range'_iff.mp h).1.trans hsize.symm
    rw [displayAfter_edit hkind hnumbers hcount, hsize]
    exact numbers_takeBack h

/-! ## Passes -/

/-- A pass over a ticket that was given out is over the current outline exactly if its report is of
the current revision. -/
theorem Issued.revision_iff {s : Session} {t : Ticket} (h : s.Issued t) {r : Report}
    (hr : t.verify = .ok r) :
    r.revision = s.document.revision ↔ t.outline = s.document.outline := by
  rw [verify_revision hr]
  exact ⟨h.2, fun e => by rw [e]; rfl⟩

namespace Accounted

variable {ts : List Ticket} {ps : List (Ticket × Report)} {s : Session} (h : Accounted ts ps s)
include h

theorem latest_iff {t : Ticket} (ht : t ∈ ts) : t.number = s.latest ↔ ts.getLast? = some t := by
  obtain ⟨hlen, hnumber⟩ := map_eq_range'_iff.mp h.counted
  rw [List.getLast?_eq_getElem?]
  constructor
  · intro hlast
    obtain ⟨i, hi⟩ := List.mem_iff_getElem?.mp ht
    have hindex : ts.length - 1 = i := by
      have := hnumber i t hi
      omega
    rw [hindex]
    exact hi
  · intro hlast
    have hpos := List.length_pos_of_mem ht
    have := hnumber _ t hlast
    omega

/-- A published pass is the check of the current outline under the current logic. -/
theorem verify_eq {t : Ticket} (ht : t ∈ ts) {r : Report} (hr : t.verify = .ok r)
    (hconfig : t.config = s.config) (hrev : r.revision = s.document.revision) :
    verify s.document.outline s.config = .ok r := by
  rw [← ((h.issued t ht).revision_iff hr).mp hrev, ← hconfig]
  exact hr

theorem edit {s' : Session} {e : Edit} {change : Change} {answer : EditAnswer}
    (hedit : s.edit e = .ok (s', change, answer)) : Accounted ts ps s' := by
  obtain ⟨hnumbered, hrev⟩ := edit_numbered h.numbered hedit
  obtain ⟨d, -, rfl⟩ := edit_ok hedit
  refine ⟨hnumbered, h.counted, fun t ht => ?_, fun x hx => ?_, h.ordered, h.shown⟩
  · have hle := (h.issued t ht).1
    exact ⟨by omega, fun e => by omega⟩
  · obtain ⟨hnumber, hle⟩ := h.bounded x hx
    exact ⟨hnumber, by omega⟩

theorem setGoal (goal : Option Goal) : Accounted ts ps (s.setGoal goal) :=
  ⟨h.numbered, h.counted, h.issued, h.bounded, h.ordered, h.shown⟩

theorem setConfig (config : Config) : Accounted ts ps (s.setConfig config) :=
  ⟨numbers_allUnchecked s.document.size, h.counted, h.issued, h.bounded, h.ordered, h.shown⟩

theorem begin : Accounted (ts ++ [s.begin.2]) ps s.begin.1 := by
  refine ⟨h.numbered, ?_, fun t ht => ?_, fun x hx => ?_, h.ordered, h.shown⟩
  · show (ts ++ [s.begin.2]).map Ticket.number = List.range' 1 (s.latest + 1)
    rw [List.map_append, h.counted, List.range'_concat, Nat.add_comm 1]
    simp [Session.begin]
  · rcases List.mem_append.mp ht with ht | ht
    · exact h.issued t ht
    · rw [List.mem_singleton.mp ht]
      exact s.begin_issued
  · obtain ⟨hnumber, hrev⟩ := h.bounded x hx
    exact ⟨Nat.le_succ_of_le hnumber, hrev⟩

theorem complete {t : Ticket} (ht : t ∈ ts) {r : Report} (hr : t.verify = .ok r) :
    Accounted ts (if (s.complete t r).2 then ps ++ [(t, r)] else ps) (s.complete t r).1 := by
  rcases s.complete_cases t r with ⟨⟨hnumber, hconfig, hrev⟩, e⟩ | ⟨-, e⟩
  · rw [e]
    -- what was published before is bounded by the latest ticket and the current revision
    refine ⟨verify_numbers (h.verify_eq ht hr hconfig hrev), h.counted, h.issued, ?_, ?_, ?_⟩
    · intro x hx
      rcases List.mem_append.mp hx with hx | hx
      · exact h.bounded x hx
      · rw [List.mem_singleton.mp hx]
        exact ⟨Nat.le_of_eq hnumber, Nat.le_of_eq hrev⟩
    · refine List.pairwise_append.mpr ⟨h.ordered, List.pairwise_singleton _ _, fun x hx y hy => ?_⟩
      rw [List.mem_singleton.mp hy, hnumber, hrev]
      exact h.bounded x hx
    · simp
  · rw [e]
    exact h

end Accounted

theorem History.accounted {d : Document} {config : Config} {ts : List Ticket}
    {ps : List (Ticket × Report)} {s : Session} (h : (Session.start d config).History ts ps s) :
    Accounted ts ps s := by
  induction h with
  | start =>
    refine ⟨numbers_allUnchecked d.size, rfl, ?_, ?_, .nil, rfl⟩
    · intro t ht
      cases ht
    · intro x hx
      cases hx
  | edit _ hedit ih => exact ih.edit hedit
  | setGoal goal _ ih => exact ih.setGoal goal
  | setConfig config _ ih => exact ih.setConfig config
  | begin _ ih => exact ih.begin
  | complete _ ht hr ih => exact ih.complete ht hr

end Session

/-- Publication after any history of a session. The display has one entry for each line, in order. A
pass is published exactly if its ticket is the latest, its outline the current one and its logic the
current one, and then the display is what a check gives now; otherwise nothing changes. The published
passes come in the order of their tickets and of their revisions, and the last one is on record. -/
theorem last_pass_published {d : Document} {config : Config} {ts : List Ticket}
    {ps : List (Ticket × Report)} {s : Session} (h : (Session.start d config).History ts ps s) :
    s.diagnostics.map Diagnostic.number = List.range' 1 s.document.size ∧
    (∀ t ∈ ts, ∀ r, t.verify = .ok r →
      ((s.complete t r).2 = true ↔
        ts.getLast? = some t ∧ t.outline = s.document.outline ∧ t.config = s.config) ∧
      ((s.complete t r).2 = true → verify s.document.outline s.config = .ok r ∧
        (s.complete t r).1 = { s with report := some r, diagnostics := r.diagnostics }) ∧
      ((s.complete t r).2 = false → (s.complete t r).1 = s)) ∧
    ps.Pairwise (fun x y => x.1.number ≤ y.1.number ∧ x.2.revision ≤ y.2.revision) ∧
    s.report = ps.getLast?.map Prod.snd := by
  have ha := h.accounted
  refine ⟨ha.numbered, fun t ht r hr => ?_, ha.ordered, ha.shown⟩
  have houtline := (ha.issued t ht).revision_iff hr
  have hlatest := ha.latest_iff ht
  rcases s.complete_cases t r with ⟨⟨hnumber, hconfig, hrev⟩, e⟩ | ⟨hstale, e⟩
  · rw [e]
    refine ⟨⟨fun _ => ⟨hlatest.mp hnumber, houtline.mp hrev, hconfig⟩, fun _ => rfl⟩, ?_, ?_⟩
    · exact fun _ => ⟨ha.verify_eq ht hr hconfig hrev, rfl⟩
    · intro hfalse
      cases hfalse
  · rw [e]
    refine ⟨⟨fun htrue => ?_, ?_⟩, fun htrue => ?_, fun _ => rfl⟩
    · cases htrue
    · rintro ⟨hlast, hsame, hconfig⟩
      exact absurd ⟨hlatest.mpr hlast, hconfig, houtline.mpr hsame⟩ hstale
    · cases htrue

def draftLines : List Line := createLines [("P", "PR", 0, none), ("Q", "R 1", 0, none)]

/-- A ticket is overtaken by an edit and a second ticket, and the logic goes to another one and back:
the second pass is published and the first one is not. -/
theorem last_pass_published_overtaken : ∃ d s t₁ t₂ r₁ r₂,
    (Session.start d ⟨none, false⟩).History [t₁, t₂] [] s ∧ t₁.verify = .ok r₁ ∧
    t₂.verify = .ok r₂ ∧ s.diagnostics.map Diagnostic.number = [1, 2, 3] ∧
    (s.complete t₁ r₁).2 = false ∧ (s.complete t₂ r₂).2 = true ∧
    (s.complete t₂ r₂).1.diagnostics = r₂.diagnostics := by
  obtain ⟨o, -, h⟩ := exists_ok (x := Outline.build draftLines none 0)
    (p := fun o => (verify o ⟨none, false⟩).toOption.any fun _ =>
      ((Session.start ⟨o, none⟩ ⟨none, false⟩).begin.1.edit (.insert 2 "P" "R 1" none)).toOption.any
        fun x => (verify x.1.document.outline ⟨none, false⟩).toOption.any fun _ =>
          x.1.document.size = 3)
    (by decide +kernel)
  obtain ⟨r₁, hr₁, h⟩ := exists_ok h
  obtain ⟨⟨s₁, change, answer⟩, hedit, h⟩ := exists_ok h
  obtain ⟨r₂, hr₂, hsize⟩ := exists_ok h
  have hlatest : s₁.latest = 1 := by
    obtain ⟨d, -, rfl⟩ := Session.edit_ok hedit
    rfl
  have hsize : s₁.document.size = 3 := of_decide_eq_true hsize
  have hhistory := (((Session.History.start.begin.edit hedit).setConfig ⟨some .k, false⟩).setConfig
    ⟨none, false⟩).begin
  obtain ⟨hnumbers, hcomplete, -⟩ := last_pass_published hhistory
  obtain ⟨hfirst, -⟩ := hcomplete _ List.mem_cons_self r₁ hr₁
  obtain ⟨hsecond, hdisplay, -⟩ := hcomplete _ (List.mem_cons_of_mem _ List.mem_cons_self) r₂ hr₂
  have htrue := hsecond.mpr ⟨rfl, rfl, rfl⟩
  refine ⟨⟨o, none⟩, _, _, _, r₁, r₂, hhistory, hr₁, hr₂, ?_, ?_, htrue, ?_⟩
  · rw [hnumbers]
    show List.range' 1 s₁.document.size = _
    rw [hsize]
    rfl
  · rw [← Bool.not_eq_true, hfirst]
    rintro ⟨hlast, -⟩
    have hnumber : s₁.latest + 1 = 0 + 1 := congrArg Ticket.number (Option.some.inj hlast)
    omega
  · rw [(hdisplay htrue).2]

end ModalFitch
