import ModalFitch.Proofs.Matching

/-! A match finds the least bindings under which a pattern is a sentence, and so does a match of
premises, one after the other, for materials.

* `Sentence.Closed`: neither the marker nor a metavariable occurs.
* `Sentence.matchWith_complete`: whatever makes the pattern the sentence extends what the match
  finds.
* `match_is_least`: both directions, for closed sentences.
* `matchPremises_complete`: whatever makes the premises the materials extends what is found. -/

namespace ModalFitch
set_option autoImplicit false

/-! ## Bindings -/

namespace Bindings

/-- One more binding is the least that gives a name its sentence. -/
theorem Extends.concat {b c : Bindings} (h : c.Extends b) {name : String} {s : Sentence}
    (hname : c.find? name = some s) : c.Extends (b ++ [(name, s)]) := by
  intro x t ht
  rw [find?_concat_eq] at ht
  rcases Option.or_eq_some_iff.mp ht with ht | ⟨-, ht⟩
  · exact h x t ht
  · split at ht
    · rename_i e
      rw [e, hname, ht]
    · cases ht

end Bindings

/-! ## Sentences -/

namespace Sentence

/-- Neither the marker nor a metavariable occurs. -/
def Closed (s : Sentence) : Prop := ∀ t ∈ s.walk, t.bindable = true

instance (s : Sentence) : Decidable s.Closed :=
  inferInstanceAs (Decidable (∀ t ∈ s.walk, t.bindable = true))

theorem self_mem_walk (s : Sentence) : s ∈ s.walk := by
  cases s <;> exact List.mem_cons_self

/-- What a metavariable stands for is a part of the instance. -/
theorem mem_walk_of_instantiate {b : Bindings} {p s : Sentence} (h : p.instantiate b = .ok s)
    {x : String} (hx : x ∈ p.metavariables) {t : Sentence} (ht : b.find? x = some t) :
    t ∈ s.walk := by
  obtain ⟨rfl, -⟩ := instantiate_iff.mp h
  clear h
  induction p with
  | metavar name =>
    rw [metavariables_metavar, List.mem_singleton] at hx
    subst hx
    rw [instantiatePartial, ht]
    exact t.self_mem_walk
  | unary op p ih => exact List.mem_cons_of_mem _ (ih hx)
  | binary op p q ihp ihq =>
    rw [metavariables_binary, List.mem_append] at hx
    apply List.mem_cons_of_mem
    rcases hx with hx | hx
    · exact List.mem_append_left _ (ihp hx)
    · exact List.mem_append_right _ (ihq hx)
  | atom name => cases hx
  | bottom => cases hx
  | marker => cases hx

/-- Where the pattern is the sentence under some bindings, a match that starts from fewer finds
bindings that they extend. Metavariables stand for sentences that can be bound. -/
theorem matchWith_complete {p s : Sentence} {b c : Bindings} (hext : c.Extends b)
    (h : p.instantiate c = .ok s)
    (hbindable : ∀ x ∈ p.metavariables, ∀ t, c.find? x = some t → t.bindable = true) :
    ∃ b', p.matchWith s b = some b' ∧ c.Extends b' := by
  induction p generalizing s b with
  | metavar name =>
    obtain ⟨rfl, hbinds⟩ := instantiate_iff.mp h
    obtain ⟨t, ht⟩ := hbinds name List.mem_cons_self
    have hs : (metavar name).instantiatePartial c = t := by rw [instantiatePartial, ht]; rfl
    rw [hs]
    have hb := hbindable name List.mem_cons_self t ht
    cases hfind : b.find? name with
    | none => exact ⟨_, matchWith_metavar.mpr ⟨hb, .inl ⟨hfind, rfl⟩⟩, hext.concat ht⟩
    | some u =>
      have e : u = t := Option.some.inj ((hext name u hfind).symm.trans ht)
      exact ⟨b, matchWith_metavar.mpr ⟨hb, .inr ⟨e ▸ hfind, rfl⟩⟩, hext⟩
  | unary op p ih =>
    obtain ⟨t, ht, e⟩ := bind_ok.mp h
    cases e
    obtain ⟨b', hb', hc⟩ := ih hext ht hbindable
    exact ⟨b', matchWith_unary.mpr ⟨t, rfl, hb'⟩, hc⟩
  | binary op p q ihp ihq =>
    rw [metavariables_binary, List.forall_mem_append] at hbindable
    obtain ⟨t, ht, h⟩ := bind_ok.mp h
    obtain ⟨u, hu, e⟩ := bind_ok.mp h
    cases e
    -- what the left side binds is what the match of the right side starts from
    obtain ⟨d, hd, hcd⟩ := ihp hext ht hbindable.1
    obtain ⟨b', hb', hc⟩ := ihq hcd hu hbindable.2
    exact ⟨b', matchWith_binary.mpr ⟨t, u, d, rfl, hd, hb'⟩, hc⟩
  | atom name =>
    cases h
    exact ⟨b, by simp [matchWith], hext⟩
  | bottom =>
    cases h
    exact ⟨b, rfl, hext⟩
  | marker =>
    cases h
    exact ⟨b, rfl, hext⟩

theorem Closed.bindable {s : Sentence} (hs : s.Closed) {p : Sentence} {c : Bindings}
    (h : p.instantiate c = .ok s) :
    ∀ x ∈ p.metavariables, ∀ t, c.find? x = some t → t.bindable = true :=
  fun _ hx t ht => hs t (mem_walk_of_instantiate h hx ht)

end Sentence

/-- A match against a closed sentence solves the equation between pattern and sentence, and solves
it in the least way. What it finds extends the bindings given, binds their names and the
metavariables of the pattern and no others, and makes the pattern the sentence. Any other extension
that makes the pattern the sentence extends what the match finds, so a match fails only where there
is none. -/
theorem match_is_least {s : Sentence} (hs : s.Closed) (p : Sentence) (b : Bindings) :
    (∀ b', p.matchWith s b = some b' → b'.Extends b ∧
      (∀ x, b'.Binds x ↔ b.Binds x ∨ x ∈ p.metavariables) ∧ p.instantiate b' = .ok s) ∧
    (∀ c : Bindings, c.Extends b → p.instantiate c = .ok s →
      ∃ b', p.matchWith s b = some b' ∧ c.Extends b') ∧
    (p.matchWith s b = none ↔ ∀ c : Bindings, c.Extends b → p.instantiate c ≠ .ok s) := by
  have hcomplete : ∀ c : Bindings, c.Extends b → p.instantiate c = .ok s →
      ∃ b', p.matchWith s b = some b' ∧ c.Extends b' :=
    fun c hext h => Sentence.matchWith_complete hext h (hs.bindable h)
  refine ⟨?_, hcomplete, ?_, ?_⟩
  · intro b' h
    obtain ⟨hgains, hinst⟩ := Sentence.matchWith_sound h
    exact ⟨hgains.kept, hgains.binds, hinst b' (.refl b')⟩
  · intro hnone c hext h
    obtain ⟨b', hb', -⟩ := hcomplete c hext h
    rw [hnone] at hb'
    cases hb'
  · intro hall
    cases h : p.matchWith s b with
    | none => rfl
    | some b' =>
      obtain ⟨hgains, hinst⟩ := Sentence.matchWith_sound h
      exact absurd (hinst b' (.refl b')) (hall b' hgains.kept)

/-- A conditional whose consequent is the left side of its antecedent. -/
def detachPattern : Sentence := .imp (.con (.metavar "A") (.metavar "B")) (.metavar "A")

/-- A repeated metavariable is bound once, and keeps the second sentence from being an instance. -/
theorem match_is_least_repeated :
    (Sentence.imp (.con (.atom "P") (.atom "Q")) (.atom "P")).Closed ∧
    detachPattern.matchWith (.imp (.con (.atom "P") (.atom "Q")) (.atom "P")) [] =
      some [("A", .atom "P"), ("B", .atom "Q")] ∧
    detachPattern.instantiate [("A", .atom "P"), ("B", .atom "Q")] =
      .ok (.imp (.con (.atom "P") (.atom "Q")) (.atom "P")) ∧
    (Sentence.imp (.con (.atom "P") (.atom "Q")) (.atom "Q")).Closed ∧
    ∀ c : Bindings,
      detachPattern.instantiate c ≠ .ok (.imp (.con (.atom "P") (.atom "Q")) (.atom "Q")) := by
  have hfound : detachPattern.matchWith (.imp (.con (.atom "P") (.atom "Q")) (.atom "P")) [] =
      some [("A", .atom "P"), ("B", .atom "Q")] := by
    decide
  have hnone : detachPattern.matchWith (.imp (.con (.atom "P") (.atom "Q")) (.atom "Q")) [] =
      none := by
    decide
  have hs : (Sentence.imp (.con (.atom "P") (.atom "Q")) (.atom "P")).Closed := by decide
  have hs' : (Sentence.imp (.con (.atom "P") (.atom "Q")) (.atom "Q")).Closed := by decide
  refine ⟨hs, hfound, ((match_is_least hs detachPattern []).1 _ hfound).2.2, hs', fun c => ?_⟩
  exact (match_is_least hs' detachPattern []).2.2.mp hnone c fun _ _ h => by cases h

/-! ## Premises under bindings -/

namespace Bindings

/-- The bindings are others on some names, and bind no more. -/
def IsOn (b θ : Bindings) (names : List String) : Prop :=
  ∀ x, b.find? x = if x ∈ names then θ.find? x else none

theorem Extends.isOn {b θ : Bindings} (h : θ.Extends b) {names : List String}
    (hnames : ∀ x, b.Binds x ↔ x ∈ names) : b.IsOn θ names := by
  intro x
  split
  · rename_i hx
    obtain ⟨s, hs⟩ := (hnames x).mpr hx
    rw [hs, h x s hs]
  · rename_i hx
    cases hs : b.find? x with
    | none => rfl
    | some s => exact absurd ((hnames x).mp ⟨s, hs⟩) hx

end Bindings

namespace Sentence

/-- A sentence that a line can have: the lone marker, or one without markers and metavariables. -/
def Stated (s : Sentence) : Prop := s = .marker ∨ s.Closed

theorem Stated.bindable {s : Sentence} (hs : s.Stated) {p : Sentence} {θ : Bindings}
    (hθ : θ.Proper) (h : p.instantiate θ = .ok s) :
    ∀ x ∈ p.metavariables, ∀ t, θ.find? x = some t → t.bindable = true := by
  rcases hs with rfl | hs
  · intro x hx t ht
    have hmem : t ∈ marker.walk := mem_walk_of_instantiate h hx ht
    rw [List.mem_singleton.mp hmem] at ht
    exact absurd ht (hθ x)
  · exact hs.bindable h

theorem variants_closed {s t : Sentence} (hs : s.Closed) (ht : t ∈ s.variants) : t.Closed := by
  unfold variants at ht
  split at ht
  · rename_i op l r
    split at ht
    · rcases List.mem_cons.mp ht with rfl | ht
      · exact hs
      · rw [List.mem_singleton.mp ht]
        intro u hu
        rcases List.mem_cons.mp hu with rfl | hu
        · rfl
        · apply hs u
          apply List.mem_cons_of_mem
          rw [List.mem_append] at hu ⊢
          exact hu.symm
    · rwa [List.mem_singleton.mp ht]
  · rwa [List.mem_singleton.mp ht]

end Sentence

/-- A sentence that a line can have, or a summary of such sentences. -/
def Material.Stated : Material → Prop
  | .sentence s => s.Stated
  | .subproof m => (∀ a ∈ m.assumption, a.Stated) ∧ ∀ r ∈ m.result, r.Stated

namespace SubproofPattern

theorem matchWith_complete {p : SubproofPattern} {m : Summary} (hm : (Material.subproof m).Stated)
    {b θ : Bindings} (hθ : θ.Proper) (hext : θ.Extends b)
    (h : Premise.Under θ (.subproof p) (.subproof m)) :
    ∃ b', p.matchWith m b = some b' ∧ θ.Extends b' := by
  obtain ⟨hk, ha, r, hr, hresult⟩ := h
  have hrs : r.Stated := hm.2 r hr
  unfold matchWith
  rw [if_pos hk, hr]
  cases hp : p.assumption with
  | none =>
    cases hma : m.assumption with
    | none => exact Sentence.matchWith_complete hext hresult (hrs.bindable hθ hresult)
    | some a =>
      rw [hp, hma] at ha
      cases ha
  | some q =>
    cases hma : m.assumption with
    | none =>
      rw [hp, hma] at ha
      cases ha
    | some a =>
      have has : a.Stated := hm.1 a hma
      have hq : q.instantiate θ = .ok a := by
        rw [hp, hma] at ha
        cases ha with
        | some hq => exact hq
      obtain ⟨d, hd, hextd⟩ := Sentence.matchWith_complete hext hq (has.bindable hθ hq)
      simp only [hd]
      exact Sentence.matchWith_complete hextd hresult (hrs.bindable hθ hresult)

end SubproofPattern

namespace Premise

theorem matchWith_complete {p : Premise} {m : Material} (hm : m.Stated) {b θ : Bindings}
    (hθ : θ.Proper) (hext : θ.Extends b) (h : p.Under θ m) :
    ∃ b', p.matchWith m b = some b' ∧ θ.Extends b' := by
  cases p with
  | line p =>
    cases m with
    | sentence s => exact Sentence.matchWith_complete hext h (hm.bindable hθ h)
    | subproof m => cases h
  | subproof p =>
    cases m with
    | sentence s => cases h
    | subproof m => exact SubproofPattern.matchWith_complete hm hθ hext h

end Premise

/-- Bindings under which the premises are the materials extend those that are found. -/
theorem matchPremises_complete {ps : List Premise} {ms : List (Nat × Material)}
    (hms : ∀ e ∈ ms, e.2.Stated) {b θ : Bindings} (hθ : θ.Proper) (hext : θ.Extends b)
    (h : List.Forall₂ (Premise.Under θ) ps (ms.map Prod.snd)) :
    ∃ b', matchPremises ps ms b = .ok b' ∧ θ.Extends b' := by
  induction ms generalizing ps b with
  | nil =>
    cases h
    exact ⟨b, rfl, hext⟩
  | cons e ms ih =>
    obtain ⟨i, m⟩ := e
    cases h with
    | cons hp hps =>
      obtain ⟨d, hd, hextd⟩ :=
        Premise.matchWith_complete (hms (i, m) List.mem_cons_self) hθ hext hp
      rw [matchPremises, hd]
      exact ih (fun e he => hms e (List.mem_cons_of_mem _ he)) hextd hps

end ModalFitch
