import ModalFitch.Proofs.Display
import ModalFitch.Session.Desk

/-! The verdicts on display while a desk serves requests.

Each request advances the session, and so does a list of them: the display stays in order whatever
is asked, and no verdict goes out of date as long as the edits keep what verdicts rest on apart from
citations. Passes may be completed in any order, at once, later, or never.

* `Desk.Orderly.handle`: one request.
* `Desk.Orderly.serve`, `Desk.Orderly.serve_current`: a list of requests.
* `display_current`: what a session shows after any requests.
* `display_stale`: the two edits that leave a verdict out of date. -/

namespace ModalFitch
set_option autoImplicit false

/-- The request opens no second main proof, and completes no ticket with the report on another. -/
def Request.Fair : Request → Prop
  | .edit e => e.Rootless
  | .complete ticket reportOf => ticket = reportOf
  | _ => True

namespace Desk

/-- The desk after a list of requests. -/
def serve (d : Desk) (rs : List Request) : Desk := rs.foldl (fun d r => (d.handle r).1) d

/-- What a request has to leave alone so that no verdict on display goes out of date. -/
def Admits (d : Desk) : Request → Prop
  | .edit e => d.session.Keeps e
  | _ => True

/-- Every one of the requests leaves alone what it has to when its turn comes. -/
def Steady (d : Desk) : List Request → Prop
  | [] => True
  | r :: rs => d.Admits r ∧ (d.handle r).1.Steady rs

/-- The display is in order, and no ticket is ahead of the document. -/
structure Orderly (d : Desk) : Prop where
  coherent : d.session.Coherent
  issued : ∀ t, t ∈ d.tickets ∨ t ∈ d.queue → d.session.Issued t

/-! ## Tickets -/

theorem ticket_mem {d : Desk} {i : Int} {t : Ticket} (h : d.ticket i = .ok t) : t ∈ d.tickets := by
  unfold ticket at h
  split at h
  · cases h
  · split at h
    · rename_i u hu
      cases h
      obtain ⟨k, -, hk⟩ := Option.bind_eq_some_iff.mp hu
      exact List.mem_of_getElem? hk
    · cases h

theorem reportOn_cases {d : Desk} {i : Int} {r : Report} (h : d.reportOn i = .ok r) :
    ∃ t, d.ticket i = .ok t ∧ t.verify = .ok r := by
  unfold reportOn at h
  obtain ⟨t, ht, h⟩ := bind_ok.mp h
  exact ⟨t, ht, mapError_ok.mp h⟩

theorem take_cases {d d' : Desk} {job : Int} {t : Ticket} (h : d.take job = .ok (t, d')) :
    t ∈ d.queue ∧ d'.session = d.session ∧ d'.tickets = d.tickets ∧ d'.queue ⊆ d.queue := by
  unfold take at h
  split at h
  · cases h
  split at h
  · cases h
  split at h
  · cases h
  split at h
  · cases h
  · rename_i i _ u hu
    cases h
    exact ⟨List.mem_of_getElem? hu, rfl, rfl, List.eraseIdx_subset⟩

/-! ## Requests -/

theorem handle_run (d : Desk) : (d.handle .run).1 = d.withSession d.session.run.1 := by
  simp only [handle]
  split <;> rename_i e <;> rw [e]

namespace Orderly

variable {d : Desk} (h : d.Orderly)
include h

theorem withSession {s : Session} {kept : Prop} (a : d.session.Advances s kept) :
    (d.withSession s).Orderly ∧ (kept → d.session.Current → (d.withSession s).session.Current) :=
  ⟨⟨a.coherent, fun t ht => a.issued t (h.issued t ht)⟩, a.current⟩

theorem take {d' : Desk} {job : Int} {t : Ticket} (htake : d.take job = .ok (t, d')) :
    d'.Orderly ∧ d'.session = d.session ∧ d.session.Issued t := by
  obtain ⟨hqueued, hsession, htickets, hqueue⟩ := take_cases htake
  refine ⟨⟨hsession ▸ h.coherent, fun u hu => ?_⟩, hsession, h.issued t (.inr hqueued)⟩
  rw [hsession]
  rw [htickets] at hu
  exact h.issued u (hu.imp_right fun hq => hqueue hq)

theorem begin (tickets queue : List Ticket)
    (hnew : ∀ t, t ∈ tickets ∨ t ∈ queue → (t ∈ d.tickets ∨ t ∈ d.queue) ∨ t = d.session.begin.2) :
    (Desk.mk d.session.begin.1 tickets queue).Orderly := by
  refine ⟨h.coherent.begin, fun t ht => ?_⟩
  rcases hnew t ht with hold | rfl
  · exact h.issued t hold
  · exact d.session.begin_issued

theorem complete {d' : Desk} {i : Int} {published : Bool}
    (hcomplete : d.complete i i = .ok (d', published)) {kept : Prop} :
    d'.Orderly ∧ (kept → d.session.Current → d'.session.Current) := by
  unfold Desk.complete at hcomplete
  obtain ⟨t, ht, hcomplete⟩ := bind_ok.mp hcomplete
  obtain ⟨r, hr, hcomplete⟩ := bind_ok.mp hcomplete
  cases hcomplete
  obtain ⟨u, hu, hverify⟩ := reportOn_cases hr
  rw [ht] at hu
  cases hu
  exact h.withSession
    (Session.complete_advances h.coherent (h.issued t (.inl (ticket_mem ht))) hverify)

theorem finish {t : Ticket} (ht : d.session.Issued t) {kept : Prop} :
    (d.finish t).1.Orderly ∧ (kept → d.session.Current → (d.finish t).1.session.Current) := by
  unfold Desk.finish
  split
  · exact ⟨h, fun _ hcur => hcur⟩
  · rename_i r hr
    exact h.withSession (Session.complete_advances h.coherent ht hr)

/-- One request keeps the display in order, and the verdicts up to date if it keeps what they rest
on. -/
theorem handle {r : Request} (hr : r.Fair) : (d.handle r).1.Orderly ∧
    (d.Admits r → d.session.Current → (d.handle r).1.session.Current) := by
  cases r with
  | edit e =>
    simp only [Desk.handle]
    split
    · exact ⟨h, fun _ hcur => hcur⟩
    · rename_i hedit
      exact h.withSession (Session.edit_advances h.coherent hr hedit)
    · rename_i hedit
      exact h.withSession (Session.edit_advances h.coherent hr hedit)
  | setGoal goal =>
    simp only [Desk.handle]
    split
    · exact ⟨h, fun _ hcur => hcur⟩
    · exact h.withSession (Session.setGoal_advances h.coherent _)
  | setConfig data =>
    simp only [Desk.handle]
    split
    · exact ⟨h, fun _ hcur => hcur⟩
    · exact h.withSession (Session.setConfig_advances h.coherent _)
  | run =>
    rw [d.handle_run]
    exact h.withSession (Session.run_advances h.coherent)
  | display => exact ⟨h, fun _ hcur => hcur⟩
  | begin =>
    refine ⟨h.begin _ _ fun t ht => ?_, fun _ hcur => hcur⟩
    rcases ht with ht | ht
    · exact (List.mem_append.mp ht).imp .inl List.mem_singleton.mp
    · exact .inl (.inr ht)
  | complete ticket reportOf =>
    have hsame : ticket = reportOf := hr
    subst hsame
    simp only [Desk.handle]
    split
    · exact ⟨h, fun _ hcur => hcur⟩
    · rename_i hcomplete
      exact h.complete hcomplete
  | verifyTicket i =>
    simp only [Desk.handle]
    split <;> exact ⟨h, fun _ hcur => hcur⟩
  | defer =>
    refine ⟨h.begin _ _ fun t ht => ?_, fun _ hcur => hcur⟩
    rcases ht with ht | ht
    · exact .inl (.inl ht)
    · exact (List.mem_append.mp ht).imp .inr List.mem_singleton.mp
  | work job =>
    simp only [Desk.handle]
    split
    · exact ⟨h, fun _ hcur => hcur⟩
    · rename_i htake
      obtain ⟨h', hsession, ht⟩ := h.take htake
      rw [← hsession] at ht ⊢
      exact h'.finish ht
  | cancel job | fail job =>
    simp only [Desk.handle]
    split
    · exact ⟨h, fun _ hcur => hcur⟩
    · rename_i htake
      obtain ⟨h', hsession, -⟩ := h.take htake
      exact ⟨h', fun _ hcur => hsession ▸ hcur⟩

theorem run_current : (d.serve [.run]).session.Current := by
  have hrun : d.serve [.run] = d.withSession d.session.run.1 := d.handle_run
  rw [hrun]
  exact Session.run_current h.coherent

theorem serve {rs : List Request} (hrs : ∀ r ∈ rs, r.Fair) : (d.serve rs).Orderly := by
  induction rs generalizing d with
  | nil => exact h
  | cons r rs ih =>
    exact ih (h.handle (hrs r List.mem_cons_self)).1 fun q hq => hrs q (List.mem_cons_of_mem r hq)

theorem serve_current {rs : List Request} (hrs : ∀ r ∈ rs, r.Fair) (hsteady : d.Steady rs)
    (hcur : d.session.Current) : (d.serve rs).session.Current := by
  induction rs generalizing d with
  | nil => exact hcur
  | cons r rs ih =>
    obtain ⟨h', hnext⟩ := h.handle (hrs r List.mem_cons_self)
    exact ih h' (fun q hq => hrs q (List.mem_cons_of_mem r hq)) hsteady.2 (hnext hsteady.1 hcur)

end Orderly

theorem start_orderly {d : Document} (hnested : d.outline.Nested)
    (hproper : ∀ l ∈ d.outline.lines, l.Proper) (config : Config) : (start d config).Orderly := by
  refine ⟨Session.coherent_of_blank hnested hproper rfl, fun t ht => ?_⟩
  rcases ht with ht | ht <;> cases ht

end Desk

/-- What a session shows. At first nothing is out of date; after any requests a pass that runs at
once brings all verdicts up to date, and from a display without a verdict out of date each list of
requests leads to another one if its edits keep the lone boxes that open subproofs and the premises
on display. For the edits of justifications this is exact. -/
theorem display_current {lines : List Line} {goal : Option Goal} {revision : Nat} {o : Outline}
    (hbuild : Outline.build lines goal revision = .ok o) (hlines : ∀ l ∈ lines, l.Proper)
    (next : Option Goal) (config : Config) :
    (Desk.start ⟨o, next⟩ config).session.Current ∧
    ∀ rs, (∀ r ∈ rs, r.Fair) → ∀ d, (Desk.start ⟨o, next⟩ config).serve rs = d →
      (d.serve [.run]).session.Current ∧
      (d.session.Current → ∀ later, (∀ r ∈ later, r.Fair) → d.Steady later →
        (d.serve later).session.Current) ∧
      (d.session.Current → ∀ number text s change answer,
        d.session.edit (.justification number text) = .ok (s, change, answer) →
        (s.Current ↔ d.session.KeepsPremises s)) := by
  obtain ⟨hnested, rfl, -, -⟩ := Outline.build_cases hbuild
  have hstart := Desk.start_orderly (d := ⟨o, next⟩) hnested hlines config
  refine ⟨hstart.coherent.current_of_blank rfl, ?_⟩
  rintro rs hrs d rfl
  have h := hstart.serve hrs
  refine ⟨?_, fun hcur later hlater hsteady => h.serve_current hlater hsteady hcur, ?_⟩
  · exact h.run_current
  · intro hcur number text s change answer hedit
    exact Session.justification_current_iff h.coherent hcur hedit

def chainedLines : List Line :=
  createLines [("P", "PR", 0, none), ("P → Q", "PR", 0, none), ("Q", "→E 1, 2", 0, none),
    ("P", "R 1", 0, none)]

/-- Another second line takes back the verdicts on it and on the third, and those that stay are up to
date. -/
theorem display_current_chained : ∃ o d, Outline.build chainedLines none 0 = .ok o ∧
    (Desk.start ⟨o, none⟩ ⟨none, false⟩).serve [.run, .edit (.sentence 2 "P → R")] = d ∧
    d.session.diagnostics.map Diagnostic.status = [.valid, .unchecked, .unchecked, .valid] ∧
    d.session.Current := by
  obtain ⟨o, ho, h⟩ := exists_ok (x := Outline.build chainedLines none 0)
    (p := fun o => (decide (((Desk.start ⟨o, none⟩ ⟨none, false⟩).serve
        [.run, .edit (.sentence 2 "P → R")]).session.diagnostics.map Diagnostic.status =
          [.valid, .unchecked, .unchecked, .valid])) &&
      (((Desk.start ⟨o, none⟩ ⟨none, false⟩).serve [.run]).session.document.outline.line? 2).all
        fun l => !l.opens.isSome) (by decide +kernel)
  rw [Bool.and_eq_true, decide_eq_true_iff] at h
  obtain ⟨hstatus, hopens⟩ := h
  have hlines : ∀ l ∈ chainedLines, l.Proper := Line.createLines_proper (by decide)
  obtain ⟨hstart, hserve⟩ := display_current ho hlines none ⟨none, false⟩
  obtain ⟨hrun, -, -⟩ := hserve [] (fun r hr => by cases hr) _ rfl
  have hkeeps : ((Desk.start ⟨o, none⟩ ⟨none, false⟩).serve [.run]).session.Keeps
      (.sentence 2 "P → R") := by
    intro l hl hsome
    have hl : ((Desk.start ⟨o, none⟩ ⟨none, false⟩).serve [.run]).session.document.outline.line? 2 =
      some l := hl
    rw [hl, Option.all_some, hsome] at hopens
    cases hopens
  obtain ⟨-, hlater, -⟩ := hserve [.run] (fun r hr => by cases List.mem_singleton.mp hr; trivial) _ rfl
  refine ⟨o, _, ho, rfl, hstatus, ?_⟩
  exact hlater hrun [.edit (.sentence 2 "P → R")]
    (fun r hr => by cases List.mem_singleton.mp hr; trivial) ⟨hkeeps, trivial⟩

def premiseLines : List Line := createLines [("P", "PR", 0, none), ("Q", "PR", 0, none)]

def boxedLines : List Line :=
  createLines [("□P", "PR", 0, none), ("□", "", 1, some .modal), ("P", "□E 1", 1, none)]

/-- Two edits leave a verdict out of date: the first of two premises loses its label, and the lone
box of a strict subproof becomes an assumption. -/
theorem display_stale :
    (∃ o, Outline.build premiseLines none 0 = .ok o ∧ ¬((Desk.start ⟨o, none⟩ ⟨none, false⟩).serve
      [.run, .edit (.justification 1 "")]).session.Current) ∧
    (∃ o, Outline.build boxedLines none 0 = .ok o ∧ ¬((Desk.start ⟨o, none⟩ ⟨some .k, false⟩).serve
      [.run, .edit (.sentence 2 "Q")]).session.Current) := by
  constructor
  · obtain ⟨o, ho, h⟩ := exists_ok (x := Outline.build premiseLines none 0)
      (p := fun o => decide ¬((Desk.start ⟨o, none⟩ ⟨none, false⟩).serve
        [.run, .edit (.justification 1 "")]).session.Current) (by decide +kernel)
    exact ⟨o, ho, of_decide_eq_true h⟩
  · obtain ⟨o, ho, h⟩ := exists_ok (x := Outline.build boxedLines none 0)
      (p := fun o => decide ¬((Desk.start ⟨o, none⟩ ⟨some .k, false⟩).serve
        [.run, .edit (.sentence 2 "Q")]).session.Current) (by decide +kernel)
    exact ⟨o, ho, of_decide_eq_true h⟩

end ModalFitch
