import Mathlib.Logic.Equiv.Basic
import ModalFitch.Proofs.Matching
import ModalFitch.Rule.Catalog

/-! Sentences put for atoms.

The patterns of the rules hold no atoms, so a pattern that matches a sentence matches all its
instances. A renaming of atoms can be undone, so under it a pattern matches nothing else.

* `Sentence.substitute`: a sentence with others put for its atoms.
* `Substitution.Renames`: different atoms become different atoms.
* `Sentence.matchWith_substitute`: a match of an instance, and the failure of one under a renaming.
* `RuleDefinition.apply_substitute`: a rule accepts the instances of what it accepts.
* `RuleDefinition.apply_rename`: what a rule says after a renaming. -/

namespace ModalFitch
set_option autoImplicit false

/-- A sentence for every atom. -/
abbrev Substitution : Type := String → Sentence

namespace Substitution

/-- No atom becomes the marker or a metavariable, as where the sentences put for atoms hold
neither. -/
def Plain (θ : Substitution) : Prop := ∀ a, (θ a).bindable = true

/-- Different atoms become different atoms. -/
def Renames (θ : Substitution) : Prop :=
  ∃ ρ : String → String, Function.Injective ρ ∧ ∀ a, θ a = .atom (ρ a)

/-- Different atoms among some become different atoms. -/
def RenamesOn (θ : Substitution) (names : List String) : Prop :=
  ∃ ρ : String → String, (∀ a ∈ names, ∀ b ∈ names, ρ a = ρ b → a = b) ∧
    ∀ a ∈ names, θ a = .atom (ρ a)

theorem Renames.plain {θ : Substitution} (hθ : θ.Renames) : θ.Plain := by
  obtain ⟨ρ, -, hatom⟩ := hθ
  intro a
  rw [hatom]
  rfl

/-- A map that keeps the names of a list apart agrees on it with one that keeps all names apart. -/
theorem exists_injective (ρ : String → String) (names : List String)
    (h : ∀ a ∈ names, ∀ b ∈ names, ρ a = ρ b → a = b) :
    ∃ σ : String → String, Function.Injective σ ∧ ∀ a ∈ names, σ a = ρ a := by
  induction names with
  | nil => exact ⟨id, Function.injective_id, fun a ha => by cases ha⟩
  | cons a names ih =>
    obtain ⟨σ, hσ, hagree⟩ := ih fun x hx y hy =>
      h x (List.mem_cons_of_mem a hx) y (List.mem_cons_of_mem a hy)
    -- exchange the image of the new name with the one that it should have
    refine ⟨Equiv.swap (σ a) (ρ a) ∘ σ, (Equiv.injective _).comp hσ, ?_⟩
    intro x hx
    show Equiv.swap (σ a) (ρ a) (σ x) = ρ x
    by_cases hxa : x = a
    · rw [hxa, Equiv.swap_apply_left]
    · have hmem : x ∈ names := (List.mem_cons.mp hx).resolve_left hxa
      rw [← hagree x hmem]
      apply Equiv.swap_apply_of_ne_of_ne
      · exact fun e => hxa (hσ e)
      · intro e
        rw [hagree x hmem] at e
        exact hxa (h x hx a List.mem_cons_self e)

theorem RenamesOn.exists_renames {θ : Substitution} {names : List String}
    (h : θ.RenamesOn names) : ∃ θ' : Substitution, θ'.Renames ∧ ∀ a ∈ names, θ a = θ' a := by
  obtain ⟨ρ, hρ, hatom⟩ := h
  obtain ⟨σ, hσ, hagree⟩ := exists_injective ρ names hρ
  refine ⟨fun a => .atom (σ a), ⟨σ, hσ, fun _ => rfl⟩, fun a ha => ?_⟩
  show θ a = .atom (σ a)
  rw [hatom a ha, hagree a ha]

end Substitution

/-! ## Sentences -/

namespace Sentence

/-- The sentence with others put for its atoms. -/
def substitute (θ : Substitution) : Sentence → Sentence
  | .atom name => θ name
  | .unary op s => .unary op (s.substitute θ)
  | .binary op l r => .binary op (l.substitute θ) (r.substitute θ)
  | s => s

/-- Whether no atom occurs, as in the patterns of rules. -/
def atomless : Sentence → Bool
  | .atom _ => false
  | .unary _ s => s.atomless
  | .binary _ l r => l.atomless && r.atomless
  | _ => true

theorem mem_atoms {s : Sentence} {a : String} : a ∈ s.atoms ↔ .atom a ∈ s.walk := by
  unfold atoms sortedNames
  rw [List.mem_mergeSort, List.mem_eraseDups, List.mem_filterMap]
  constructor
  · rintro ⟨t, ht, hname⟩
    cases t <;> simp only [atomName?] at hname <;> cases hname
    exact ht
  · intro h
    exact ⟨_, h, rfl⟩

theorem substitute_congr {θ θ' : Substitution} {s : Sentence} (h : ∀ a ∈ s.atoms, θ a = θ' a) :
    s.substitute θ = s.substitute θ' := by
  have hwalk : ∀ a, .atom a ∈ s.walk → θ a = θ' a := fun a ha => h a (mem_atoms.mpr ha)
  clear h
  induction s with
  | atom name => exact hwalk name List.mem_cons_self
  | metavar name => rfl
  | bottom => rfl
  | marker => rfl
  | unary op s ih =>
    rw [substitute, substitute, ih fun a ha => hwalk a (List.mem_cons_of_mem _ ha)]
  | binary op l r ihl ihr =>
    rw [substitute, substitute,
      ihl fun a ha => hwalk a (List.mem_cons_of_mem _ (List.mem_append_left _ ha)),
      ihr fun a ha => hwalk a (List.mem_cons_of_mem _ (List.mem_append_right _ ha))]

variable {θ : Substitution}

theorem bindable_substitute (hθ : θ.Plain) (s : Sentence) :
    (s.substitute θ).bindable = s.bindable := by
  cases s with
  | atom name => exact hθ name
  | _ => rfl

theorem substitute_eq_marker (hθ : θ.Plain) {s : Sentence} :
    s.substitute θ = .marker ↔ s = .marker := by
  cases s with
  | atom name =>
    have hname := hθ name
    constructor
    · intro h
      rw [show θ name = .marker from h] at hname
      cases hname
    · intro h
      cases h
  | _ => simp [substitute]

theorem substitute_injective (hθ : θ.Renames) : Function.Injective (substitute θ) := by
  obtain ⟨ρ, hρ, hatom⟩ := hθ
  intro s
  induction s with
  | unary op s ih =>
    intro t h
    cases t <;> simp only [substitute, hatom, unary.injEq, reduceCtorEq] at h
    rw [h.1, ih h.2]
  | binary op l r ihl ihr =>
    intro t h
    cases t <;> simp only [substitute, hatom, binary.injEq, reduceCtorEq] at h
    rw [h.1, ihl h.2.1, ihr h.2.2]
  | atom name =>
    intro t h
    cases t <;> simp only [substitute, hatom, atom.injEq, reduceCtorEq] at h
    rw [hρ h]
  | _ =>
    intro t h
    cases t <;> simp only [substitute, hatom, reduceCtorEq] at h ⊢ <;> exact h

theorem variants_substitute {s t : Sentence} (h : t ∈ s.variants) :
    t.substitute θ ∈ (s.substitute θ).variants := by
  cases s with
  | atom name =>
    rw [show t = .atom name from List.mem_singleton.mp h]
    show θ name ∈ (θ name).variants
    exact mem_variants_self _
  | binary op l r =>
    simp only [substitute, variants] at h ⊢
    split at h
    · rename_i hc
      rw [if_pos hc]
      rcases List.mem_cons.mp h with rfl | h
      · exact List.mem_cons_self
      · rw [List.mem_singleton.mp h]
        exact List.mem_cons_of_mem _ List.mem_cons_self
    · rename_i hc
      rw [if_neg hc, List.mem_singleton.mp h]
      exact List.mem_cons_self
  | _ =>
    rw [List.mem_singleton.mp h]
    exact mem_variants_self _

/-- A renaming makes no new variants. -/
theorem variants_rename (hθ : θ.Renames) {s t : Sentence} (h : t ∈ (s.substitute θ).variants) :
    ∃ u ∈ s.variants, t = u.substitute θ := by
  obtain ⟨ρ, -, hatom⟩ := hθ
  cases s with
  | binary op l r =>
    simp only [substitute, variants] at h ⊢
    split at h
    · rename_i hc
      rw [if_pos hc]
      rcases List.mem_cons.mp h with rfl | h
      · exact ⟨_, List.mem_cons_self, rfl⟩
      · rw [List.mem_singleton.mp h]
        exact ⟨_, List.mem_cons_of_mem _ List.mem_cons_self, rfl⟩
    · rename_i hc
      rw [if_neg hc]
      exact ⟨_, List.mem_cons_self, List.mem_singleton.mp h⟩
  | atom name =>
    rw [substitute, hatom] at h
    exact ⟨_, List.mem_cons_self, by rw [List.mem_singleton.mp h, substitute, hatom]⟩
  | _ => exact ⟨_, List.mem_cons_self, List.mem_singleton.mp h⟩

end Sentence

/-! ## Matches -/

namespace Bindings

def substitute (θ : Substitution) (b : Bindings) : Bindings :=
  b.map fun (name, s) => (name, s.substitute θ)

theorem find?_substitute (θ : Substitution) (b : Bindings) (name : String) :
    (b.substitute θ).find? name = (b.find? name).map (Sentence.substitute θ) := by
  unfold find? substitute
  induction b with
  | nil => rfl
  | cons entry b ih =>
    obtain ⟨x, s⟩ := entry
    rw [List.map_cons, List.lookup_cons, List.lookup_cons, ih]
    cases name == x <;> rfl

end Bindings

variable {θ : Substitution}

theorem Sentence.instantiatePartial_substitute {p : Sentence} (hp : p.atomless = true)
    (b : Bindings) :
    p.instantiatePartial (b.substitute θ) = (p.instantiatePartial b).substitute θ := by
  induction p with
  | atom name => cases hp
  | metavar name =>
    rw [instantiatePartial, instantiatePartial, Bindings.find?_substitute]
    cases b.find? name <;> rfl
  | bottom => rfl
  | marker => rfl
  | unary op p ih => rw [instantiatePartial, ih hp, instantiatePartial, substitute]
  | binary op p q ihp ihq =>
    rw [atomless, Bool.and_eq_true] at hp
    rw [instantiatePartial, ihp hp.1, ihq hp.2, instantiatePartial, substitute]

/-- Where an atom stands, a pattern other than a metavariable fails, and it fails for the new name
too. -/
theorem Sentence.matchWith_atom_substitute {p : Sentence} (hp : p.atomless = true)
    (hvar : ∀ x, p ≠ .metavar x) {name : String} {b : Bindings}
    (h : θ.Renames ∨ (p.matchWith (.atom name) b).isSome = true) :
    p.matchWith (θ name) (b.substitute θ) =
      (p.matchWith (.atom name) b).map (Bindings.substitute θ) := by
  have hnone : ∀ a (b : Bindings), p.matchWith (.atom a) b = none := by
    intro a b
    cases p with
    | atom x => cases hp
    | metavar x => exact absurd rfl (hvar x)
    | _ => rfl
  rw [hnone] at h
  obtain ⟨ρ, -, hatom⟩ := h.resolve_right (by simp)
  rw [hatom, hnone, hnone]
  rfl

/-- A match of a pattern is one of the instance too, with the instances of what it binds. Under a
renaming a match that fails still fails. -/
theorem Sentence.matchWith_substitute (hθ : θ.Plain) {p : Sentence} (hp : p.atomless = true)
    {s : Sentence} {b : Bindings} (h : θ.Renames ∨ (p.matchWith s b).isSome = true) :
    p.matchWith (s.substitute θ) (b.substitute θ) =
      (p.matchWith s b).map (Bindings.substitute θ) := by
  induction p generalizing s b with
  | atom name => cases hp
  | metavar name =>
    unfold matchWith at h ⊢
    rw [bindable_substitute hθ, Bindings.find?_substitute]
    cases hb : s.bindable with
    | false => rfl
    | true =>
      cases ht : b.find? name with
      | none => simp [Bindings.substitute]
      | some t =>
        by_cases e : t = s
        · simp [e]
        · -- only a renaming keeps the two sentences apart
          simp only [hb, ht, if_true, e, if_false, Option.isSome_none, Bool.false_eq_true,
            or_false] at h
          have hne : t.substitute θ ≠ s.substitute θ := fun e' => e (substitute_injective h e')
          simp [e, hne]
  | bottom =>
    cases s with
    | bottom => rfl
    | atom name => exact matchWith_atom_substitute hp (by simp) h
    | _ => rfl
  | marker =>
    cases s with
    | marker => rfl
    | atom name => exact matchWith_atom_substitute hp (by simp) h
    | _ => rfl
  | unary op p ih =>
    cases s with
    | unary op' s =>
      simp only [substitute, matchWith] at h ⊢
      by_cases e : op = op'
      · rw [if_pos e] at h ⊢
        rw [ih hp h, if_pos e]
      · rw [if_neg e, if_neg e]
        rfl
    | atom name => exact matchWith_atom_substitute hp (by simp) h
    | _ => rfl
  | binary op p q ihp ihq =>
    cases s with
    | binary op' s t =>
      rw [atomless, Bool.and_eq_true] at hp
      simp only [substitute, matchWith] at h ⊢
      by_cases e : op = op'
      · rw [if_pos e] at h ⊢
        rw [if_pos e]
        cases hb : p.matchWith s b with
        | none =>
          rw [hb] at h
          have hren := h.resolve_right (by simp)
          rw [ihp hp.1 (.inl hren), hb]
          rfl
        | some b' =>
          rw [hb] at h
          rw [ihp hp.1 (.inr (by rw [hb]; rfl)), hb]
          exact ihq hp.2 h
      · rw [if_neg e, if_neg e]
        rfl
    | atom name => exact matchWith_atom_substitute hp (by simp) h
    | _ => rfl

/-! ## Premises -/

def Summary.substitute (θ : Substitution) (s : Summary) : Summary :=
  { s with
    assumption := s.assumption.map (Sentence.substitute θ),
    result := s.result.map (Sentence.substitute θ) }

@[simp]
theorem Summary.substitute_kind (s : Summary) : (s.substitute θ).kind = s.kind := rfl

@[simp]
theorem Summary.substitute_assumption (s : Summary) :
    (s.substitute θ).assumption = s.assumption.map (Sentence.substitute θ) := rfl

@[simp]
theorem Summary.substitute_result (s : Summary) :
    (s.substitute θ).result = s.result.map (Sentence.substitute θ) := rfl

def Material.substitute (θ : Substitution) : Material → Material
  | .sentence s => .sentence (s.substitute θ)
  | .subproof s => .subproof (s.substitute θ)

def Premise.atomless : Premise → Bool
  | .line p => p.atomless
  | .subproof p => p.result.atomless && p.assumption.all Sentence.atomless

theorem SubproofPattern.matchWith_substitute (hθ : θ.Plain) {p : SubproofPattern}
    (hp : (Premise.subproof p).atomless = true) {s : Summary} {b : Bindings}
    (h : θ.Renames ∨ (p.matchWith s b).isSome = true) :
    p.matchWith (s.substitute θ) (b.substitute θ) =
      (p.matchWith s b).map (Bindings.substitute θ) := by
  rw [Premise.atomless, Bool.and_eq_true] at hp
  obtain ⟨hresult, hassumption⟩ := hp
  unfold matchWith at h ⊢
  rw [Summary.substitute_kind, Summary.substitute_assumption, Summary.substitute_result]
  by_cases hk : s.kind = p.kind
  · rw [if_pos hk] at h ⊢
    rw [if_pos hk]
    cases hr : s.result with
    | none => cases p.assumption <;> cases s.assumption <;> rfl
    | some r =>
      cases ha : p.assumption with
      | none =>
        cases ha' : s.assumption with
        | none =>
          rw [hr, ha, ha'] at h
          exact Sentence.matchWith_substitute hθ hresult h
        | some a' => rfl
      | some a =>
        cases ha' : s.assumption with
        | none => rfl
        | some a' =>
          rw [ha] at hassumption
          rw [hr, ha, ha'] at h
          simp only [Option.map_some] at h ⊢
          cases hb : a.matchWith a' b with
          | none =>
            rw [hb] at h
            have hren := h.resolve_right (by simp)
            rw [Sentence.matchWith_substitute hθ hassumption (.inl hren), hb]
            rfl
          | some b' =>
            rw [hb] at h
            rw [Sentence.matchWith_substitute hθ hassumption (.inr (by rw [hb]; rfl)), hb]
            exact Sentence.matchWith_substitute hθ hresult h
  · rw [if_neg hk, if_neg hk]
    rfl

theorem Premise.matchWith_substitute (hθ : θ.Plain) {p : Premise} (hp : p.atomless = true)
    {m : Material} {b : Bindings} (h : θ.Renames ∨ (p.matchWith m b).isSome = true) :
    p.matchWith (m.substitute θ) (b.substitute θ) =
      (p.matchWith m b).map (Bindings.substitute θ) := by
  cases p with
  | line p =>
    cases m with
    | sentence s => exact Sentence.matchWith_substitute hθ hp h
    | subproof s => rfl
  | subproof p =>
    cases m with
    | sentence s => rfl
    | subproof s => exact SubproofPattern.matchWith_substitute hθ hp h

theorem matchPremises_substitute (hθ : θ.Plain) {ps : List Premise}
    (hps : ps.all Premise.atomless = true) {ms : List (Nat × Material)} {b : Bindings}
    (h : θ.Renames ∨ ∃ b', matchPremises ps ms b = .ok b') :
    matchPremises ps (ms.map (Prod.map id (Material.substitute θ))) (b.substitute θ) =
      (matchPremises ps ms b).map (Bindings.substitute θ) := by
  induction ps generalizing ms b with
  | nil => rfl
  | cons p ps ih =>
    cases ms with
    | nil => rfl
    | cons im ms =>
      obtain ⟨i, m⟩ := im
      rw [List.all_cons, Bool.and_eq_true] at hps
      rw [List.map_cons, Prod.map_apply, matchPremises, matchPremises]
      rw [matchPremises] at h
      cases hb : p.matchWith m b with
      | none =>
        rw [hb] at h
        have hren := h.resolve_right (by rintro ⟨b', hb'⟩; cases hb')
        rw [Premise.matchWith_substitute hθ hps.1 (.inl hren), hb]
        rfl
      | some b' =>
        rw [hb] at h
        rw [Premise.matchWith_substitute hθ hps.1 (.inr (by rw [hb]; rfl)), hb]
        exact ih hps.2 h

/-! ## Orders -/

section Orders

variable {α β : Type} (f : α → β)

theorem selections_map (xs : List α) :
    selections (xs.map f) = (selections xs).map (Prod.map f (List.map f)) := by
  induction xs with
  | nil => rfl
  | cons x xs ih =>
    rw [List.map_cons, selections, selections, ih, List.map_cons, List.map_map, List.map_map]
    rfl

theorem arrangements_map (n : Nat) (xs : List α) :
    arrangements n (xs.map f) = (arrangements n xs).map (List.map f) := by
  induction n generalizing xs with
  | zero => rfl
  | succ n ih =>
    rw [arrangements, arrangements, selections_map, List.flatMap_map, List.map_flatMap]
    congr 1
    funext selection
    obtain ⟨y, ys⟩ := selection
    simp only [Prod.map_apply, ih, List.map_map]
    rfl

theorem orders_map (xs : List α) : orders (xs.map f) = (orders xs).map (List.map f) := by
  unfold orders
  rw [List.length_map, arrangements_map]

end Orders

/-! ## Rules -/

def Attempt.substitute (θ : Substitution) : Attempt → Attempt
  | .premise index => .premise index
  | .conclusion expected => .conclusion (expected.substitute θ)
  | .fits b => .fits (b.substitute θ)

theorem Attempt.findSome?_substitute {α : Type} {f : Attempt → Option α} {g : α → α}
    (h : ∀ a, f (a.substitute θ) = (f a).map g) (tried : List Attempt) :
    (tried.map (Attempt.substitute θ)).findSome? f = (tried.findSome? f).map g := by
  induction tried with
  | nil => rfl
  | cons a tried ih =>
    rw [List.map_cons, List.findSome?_cons, List.findSome?_cons, h a, ih]
    cases f a <;> rfl

def Schema.atomless (s : Schema) : Bool :=
  s.conclusion.atomless && s.premises.all Premise.atomless

/-- The patterns of all the rules are made of metavariables. -/
theorem Catalog.definitions_atomless {d : RuleDefinition} (h : d ∈ definitions) :
    ∀ s ∈ d.schemas, s.atomless = true := by
  have hall : ∀ d ∈ definitions, ∀ s ∈ d.schemas, s.atomless = true := by
    decide
  exact hall d h

namespace RuleDefinition

variable {d : RuleDefinition} {s : Schema}

/-- A conclusion fits the sentence itself or, where the rule allows it, the commuted sentence. -/
theorem concludes_iff {b : Bindings} {sentence : Sentence} :
    d.concludes s b sentence = true ↔
      ∃ c, (c = sentence ∨ d.equivalence = .commuted ∧ c ∈ sentence.variants) ∧
        (s.conclusion.matchWith c b).isSome = true := by
  unfold concludes
  rw [List.any_eq_true]
  apply exists_congr
  intro c
  apply and_congr_left
  intro _
  cases d.equivalence with
  | structural => simp
  | commuted =>
    constructor
    · exact fun hc => .inr ⟨rfl, hc⟩
    · rintro (rfl | ⟨-, hc⟩)
      · exact Sentence.mem_variants_self c
      · exact hc

theorem concludes_substitute (hθ : θ.Plain) (hs : s.atomless = true) {b : Bindings}
    {sentence : Sentence} (h : θ.Renames ∨ d.concludes s b sentence = true) :
    d.concludes s (b.substitute θ) (sentence.substitute θ) = d.concludes s b sentence := by
  rw [Schema.atomless, Bool.and_eq_true] at hs
  rw [Bool.eq_iff_iff]
  constructor
  · intro hconc
    refine h.elim (fun hren => ?_) id
    obtain ⟨c, hc, hm⟩ := concludes_iff.mp hconc
    -- what a renamed sentence offers is what the sentence offers, renamed
    obtain ⟨u, hu, rfl⟩ : ∃ u, (u = sentence ∨ d.equivalence = .commuted ∧ u ∈ sentence.variants) ∧
        c = u.substitute θ := by
      rcases hc with rfl | ⟨hcomm, hc⟩
      · exact ⟨sentence, .inl rfl, rfl⟩
      · obtain ⟨u, hu, e⟩ := Sentence.variants_rename hren hc
        exact ⟨u, .inr ⟨hcomm, hu⟩, e⟩
    rw [Sentence.matchWith_substitute hθ hs.1 (.inl hren), Option.isSome_map] at hm
    exact concludes_iff.mpr ⟨u, hu, hm⟩
  · intro hconc
    obtain ⟨c, hc, hm⟩ := concludes_iff.mp hconc
    refine concludes_iff.mpr ⟨c.substitute θ, ?_, ?_⟩
    · rcases hc with rfl | ⟨hcomm, hc⟩
      · exact .inl rfl
      · exact .inr ⟨hcomm, Sentence.variants_substitute hc⟩
    · rw [Sentence.matchWith_substitute hθ hs.1 (.inr hm), Option.isSome_map]
      exact hm

theorem attempt_substitute (hθ : θ.Plain) (hs : s.atomless = true)
    {ms : List (Nat × Material)} {sentence : Sentence}
    (h : θ.Renames ∨ ∃ b, d.attempt s ms sentence = .fits b) :
    d.attempt s (ms.map (Prod.map id (Material.substitute θ))) (sentence.substitute θ) =
      (d.attempt s ms sentence).substitute θ := by
  have hparts := hs
  rw [Schema.atomless, Bool.and_eq_true] at hparts
  have hprem : matchPremises s.premises (ms.map (Prod.map id (Material.substitute θ))) [] =
      (matchPremises s.premises ms []).map (Bindings.substitute θ) :=
    matchPremises_substitute hθ hparts.2 <| h.imp_right fun ⟨b, hb⟩ => ⟨b, (attempt_fits hb).1⟩
  unfold attempt
  rw [hprem]
  cases hb : matchPremises s.premises ms [] with
  | error i => rfl
  | ok b =>
    have hconc : d.concludes s (b.substitute θ) (sentence.substitute θ) =
        d.concludes s b sentence := by
      refine concludes_substitute hθ hs (h.imp_right fun ⟨b', hb'⟩ => ?_)
      obtain ⟨hb₁, hc⟩ := attempt_fits hb'
      rw [hb] at hb₁
      cases hb₁
      exact hc
    simp only [Except.map, hconc, Sentence.instantiatePartial_substitute hparts.1]
    split <;> rfl

/-- After a substitution the materials are tried in the same orders. -/
theorem attempts_map (f : Material → Material) (materials : List Material) (sentence : Sentence) :
    d.attempts (materials.map f) sentence =
      (d.schemas.filter fun s => s.premises.length = materials.length).flatMap fun s =>
        (if d.unordered then orders (materials.mapIdx fun i m => (i, m))
          else [materials.mapIdx fun i m => (i, m)]).map fun ms =>
            d.attempt s (ms.map (Prod.map id f)) sentence := by
  have hindexed : (materials.map f).mapIdx (fun i m => (i, m)) =
      (materials.mapIdx fun i m => (i, m)).map (Prod.map id f) := by
    apply List.ext_getElem?
    intro i
    rw [List.getElem?_mapIdx, List.getElem?_map, List.getElem?_map, List.getElem?_mapIdx,
      Option.map_map, Option.map_map]
    rfl
  unfold attempts
  simp only [List.length_map, hindexed, orders_map]
  cases d.unordered with
  | true => simp only [if_true, List.map_map]; rfl
  | false => rfl

theorem exists_apply_iff {materials : List Material} {sentence : Sentence} :
    (∃ b, d.apply materials sentence = .ok b) ↔
      d.arities.contains materials.length = true ∧
        ∃ b, .fits b ∈ d.attempts materials sentence := by
  unfold apply
  cases hlen : d.arities.contains materials.length with
  | false => simp
  | true =>
    simp only [if_true, true_and]
    constructor
    · rintro ⟨b, hb⟩
      split at hb
      · rename_i b₁ hfound
        obtain ⟨a, hmem, ha⟩ := List.exists_of_findSome?_eq_some hfound
        cases a <;> cases ha
        exact ⟨b₁, hmem⟩
      · split at hb <;> cases hb
    · rintro ⟨b, hmem⟩
      split
      · exact ⟨_, rfl⟩
      · rename_i hnone
        cases List.findSome?_eq_none_iff.mp hnone _ hmem

/-- A rule that accepts a sentence accepts its instances from those of the materials. -/
theorem apply_substitute (hθ : θ.Plain) (hd : ∀ s ∈ d.schemas, s.atomless = true)
    {materials : List Material} {sentence : Sentence}
    (h : ∃ b, d.apply materials sentence = .ok b) :
    ∃ b, d.apply (materials.map (Material.substitute θ)) (sentence.substitute θ) = .ok b := by
  rw [exists_apply_iff] at h ⊢
  obtain ⟨hlen, b, hmem⟩ := h
  rw [List.length_map, attempts_map]
  refine ⟨hlen, b.substitute θ, ?_⟩
  obtain ⟨s, hs, hmem⟩ := List.mem_flatMap.mp hmem
  obtain ⟨ms, hms, hfits⟩ := List.mem_map.mp hmem
  refine List.mem_flatMap.mpr ⟨s, hs, List.mem_map.mpr ⟨ms, hms, ?_⟩⟩
  rw [attempt_substitute hθ (hd s (List.mem_of_mem_filter hs)) (.inr ⟨b, hfits⟩), hfits]
  rfl

theorem attempts_rename (hθ : θ.Renames) (hd : ∀ s ∈ d.schemas, s.atomless = true)
    (materials : List Material) (sentence : Sentence) :
    d.attempts (materials.map (Material.substitute θ)) (sentence.substitute θ) =
      (d.attempts materials sentence).map (Attempt.substitute θ) := by
  rw [attempts_map]
  unfold attempts
  rw [List.map_flatMap]
  apply List.flatMap_congr
  intro s hs
  rw [List.map_map]
  apply List.map_congr_left
  intro ms _
  exact attempt_substitute hθ.plain (hd s (List.mem_of_mem_filter hs)) (.inl hθ)

/-- A renaming changes neither whether a rule accepts a sentence nor why it does not: the reason and
the citation that it points at are the same. -/
theorem apply_rename (hθ : θ.Renames) (hd : ∀ s ∈ d.schemas, s.atomless = true)
    (materials : List Material) (sentence : Sentence) :
    (d.apply (materials.map (Material.substitute θ)) (sentence.substitute θ)).mapError
        (fun e => (e.reason, e.index)) =
      ((d.apply materials sentence).map (Bindings.substitute θ)).mapError
        fun e => (e.reason, e.index) := by
  unfold apply
  rw [List.length_map, attempts_rename hθ hd]
  cases d.arities.contains materials.length with
  | false => rfl
  | true =>
    simp only [if_true]
    rw [Attempt.findSome?_substitute (g := Bindings.substitute θ) (by intro a; cases a <;> rfl),
      Attempt.findSome?_substitute (g := Sentence.substitute θ) (by intro a; cases a <;> rfl),
      Attempt.findSome?_substitute (g := id) (by intro a; cases a <;> rfl), Option.map_id_apply]
    split
    · rename_i hfound
      obtain ⟨b, hb, rfl⟩ := Option.map_eq_some_iff.mp hfound
      rw [hb]
      rfl
    · rename_i hnone
      rw [Option.map_eq_none_iff.mp hnone]
      split
      · rename_i hfound
        obtain ⟨e, he, -⟩ := Option.map_eq_some_iff.mp hfound
        simp only [he]
        rfl
      · rename_i hnone
        simp only [Option.map_eq_none_iff.mp hnone]
        rfl

end RuleDefinition

end ModalFitch
