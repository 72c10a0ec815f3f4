import ModalFitch.Proofs.LeastMatch
import ModalFitch.Proofs.Substitution

/-! A rule decides whether a sentence is an instance of one of its schemas.

Each attempt of a rule is a choice of a schema and of an order of the materials. The attempts come
in the order of the choices, each of which is tried once, so that the attempt that decides is the
first that can.

* `mem_orders_iff`, `orders_rising`: the orders of a list, by their first difference.
* `RuleDefinition.Supports`, `RuleDefinition.Yields`: a choice and bindings that make the materials
  the premises of a schema, and the sentence its conclusion.
* `apply_decides`: what a rule says of a sentence. -/

namespace ModalFitch
set_option autoImplicit false

/-! ## Orders -/

section Orders

variable {α : Type}

theorem selections_fst (xs : List α) : (selections xs).map Prod.fst = xs := by
  induction xs with
  | nil => rfl
  | cons x xs ih =>
    rw [selections, List.map_cons, List.map_map]
    exact congrArg (x :: ·) ih

theorem selections_sublist {xs ys : List α} {y : α} (h : (y, ys) ∈ selections xs) :
    ys.Sublist xs := by
  induction xs generalizing y ys with
  | nil => cases h
  | cons x xs ih =>
    rcases List.mem_cons.mp h with e | h
    · cases e
      exact List.sublist_cons_self x xs
    · obtain ⟨⟨z, zs⟩, hz, e⟩ := List.mem_map.mp h
      cases e
      exact (ih hz).cons_cons x

theorem mem_arrangements_of_perm {xs ys : List α} (h : ys.Perm xs) :
    ys ∈ arrangements xs.length xs := by
  induction ys generalizing xs with
  | nil =>
    cases h.nil_eq
    exact List.mem_cons_self
  | cons y ys ih =>
    have hy : y ∈ (selections xs).map Prod.fst := by
      rw [selections_fst]
      exact h.subset List.mem_cons_self
    obtain ⟨⟨z, ws⟩, hws, rfl⟩ := List.mem_map.mp hy
    have hrest : (z :: ws).Perm xs := perm_of_mem_selections hws
    have hlen : xs.length = ws.length + 1 := by rw [← hrest.length_eq, List.length_cons]
    rw [hlen, arrangements]
    refine List.mem_flatMap.mpr ⟨(z, ws), hws, List.mem_map.mpr ⟨ys, ?_, rfl⟩⟩
    exact ih (h.trans hrest.symm).cons_inv

theorem mem_orders_iff {xs ys : List α} : ys ∈ orders xs ↔ ys.Perm xs :=
  ⟨perm_of_mem_orders, mem_arrangements_of_perm⟩

theorem arrangements_rising {xs : List Nat} (h : xs.Pairwise (· < ·)) (n : Nat) :
    (arrangements n xs).Pairwise (· < ·) := by
  induction n generalizing xs with
  | zero => exact List.pairwise_singleton _ _
  | succ n ih =>
    rw [arrangements, List.pairwise_flatMap]
    constructor
    · rintro ⟨y, ys⟩ hy
      rw [List.pairwise_map]
      refine (ih (h.sublist (selections_sublist hy))).imp fun hlt => ?_
      exact List.cons_lt_cons_iff.mpr (.inr ⟨rfl, hlt⟩)
    · -- orders that start with an earlier element come first
      have hfst : (selections xs).Pairwise fun e e' => e.1 < e'.1 := by
        rw [← selections_fst xs, List.pairwise_map] at h
        exact h
      refine hfst.imp fun hlt zs hzs zs' hzs' => ?_
      obtain ⟨ws, -, rfl⟩ := List.mem_map.mp hzs
      obtain ⟨ws', -, rfl⟩ := List.mem_map.mp hzs'
      exact List.cons_lt_cons_iff.mpr (.inl hlt)

theorem orders_rising (count : Nat) : (orders (List.range count)).Pairwise (· < ·) :=
  arrangements_rising List.pairwise_lt_range _

end Orders

/-! ## Choices -/

/-- One of the schemas of a rule, and an order of the materials, both by place. -/
structure Choice where
  schema : Nat
  order : List Nat
deriving DecidableEq, Repr

namespace Choice

/-- Earlier schemas come first, and for one schema the orders by their first difference. -/
def Before (c c' : Choice) : Prop :=
  c.schema < c'.schema ∨ c.schema = c'.schema ∧ c.order < c'.order

/-- The first choice with a property. -/
def IsFirst (P : Choice → Prop) (c : Choice) : Prop := P c ∧ ∀ c', P c' → c' = c ∨ c.Before c'

end Choice

namespace RuleDefinition

/-- Under the bindings, which bind no name to the marker, the premises of the chosen schema are the
materials in the chosen order. Only a rule without an order has a choice there. -/
structure Supports (d : RuleDefinition) (materials : List Material) (c : Choice) (s : Schema)
    (θ : Bindings) : Prop where
  schema : d.schemas[c.schema]? = some s
  order : c.order.Perm (List.range materials.length)
  given : d.unordered = false → c.order = List.range materials.length
  proper : θ.Proper
  premises : List.Forall₂ (fun p i => ∃ m, materials[i]? = some m ∧ p.Under θ m) s.premises c.order

/-- Under the bindings also the conclusion is the sentence or, where the rule allows it, the
commuted sentence. -/
structure Yields (d : RuleDefinition) (materials : List Material) (sentence : Sentence) (c : Choice)
    (s : Schema) (θ : Bindings) : Prop extends d.Supports materials c s θ where
  conclusion : ∃ t, s.conclusion.instantiate θ = .ok t ∧
    (t = sentence ∨ d.equivalence = .commuted ∧ t ∈ sentence.variants)

end RuleDefinition

/-! ## Trials -/

/-- An attempt before it is made: the choice, the schema, and the materials with their places in
the order of the choice. -/
structure Trial where
  choice : Choice
  schema : Schema
  materials : List (Nat × Material)

theorem indexed_fst (materials : List Material) :
    (indexed materials).map Prod.fst = List.range materials.length := by
  simp [indexed, List.mapIdx_eq_zipIdx_map, Function.comp_def, List.range_eq_range']

theorem mem_indexed {materials : List Material} {e : Nat × Material} (h : e ∈ indexed materials) :
    materials[e.1]? = some e.2 := by
  obtain ⟨i, hi, rfl⟩ := List.mem_mapIdx.mp h
  exact List.getElem?_eq_getElem hi

theorem forall₂_congr_mem {α β : Type} {R S : α → β → Prop} {as : List α} {bs : List β}
    (h : ∀ b ∈ bs, ∀ a, R a b ↔ S a b) : List.Forall₂ R as bs ↔ List.Forall₂ S as bs := by
  induction bs generalizing as with
  | nil => rw [List.forall₂_nil_right_iff, List.forall₂_nil_right_iff]
  | cons b bs ih =>
    simp only [List.forall₂_cons_right_iff, h b List.mem_cons_self,
      ih fun b' hb' => h b' (List.mem_cons_of_mem b hb')]

/-- What the first trial with an answer answers. -/
theorem Trial.findSome?_first {α : Type} {trials : List Trial} {f : Trial → Option α} {a : α}
    (hrising : trials.Pairwise fun t t' => t.choice.Before t'.choice)
    (h : trials.findSome? f = some a) : ∃ t ∈ trials, f t = some a ∧
      ∀ t' ∈ trials, f t' ≠ none → t'.choice = t.choice ∨ t.choice.Before t'.choice := by
  obtain ⟨before, t, after, rfl, ht, hnone⟩ := List.findSome?_eq_some_iff.mp h
  refine ⟨t, List.mem_append_right _ List.mem_cons_self, ht, fun t' ht' hsome => ?_⟩
  rcases List.mem_append.mp ht' with hbefore | hrest
  · exact absurd (hnone t' hbefore) hsome
  · rcases List.mem_cons.mp hrest with rfl | hafter
    · exact .inl rfl
    · exact .inr ((List.pairwise_cons.mp (List.pairwise_append.mp hrising).2.1).1 t' hafter)

namespace RuleDefinition

variable (d : RuleDefinition) (materials : List Material)

theorem mem_arities {n : Nat} : n ∈ d.arities ↔ ∃ s ∈ d.schemas, s.premises.length = n := by
  rw [arities, List.mem_mergeSort, List.mem_eraseDups, List.mem_map]

/-- The orders in which a rule takes the materials. -/
def arranged : List (List (Nat × Material)) :=
  if d.unordered then orders (indexed materials) else [indexed materials]

/-- The trials of a rule, in the order of its attempts. -/
def trials : List Trial :=
  (d.schemas.zipIdx.filter fun e => e.1.premises.length = materials.length).flatMap fun e =>
    (d.arranged materials).map fun ms => ⟨⟨e.2, ms.map Prod.fst⟩, e.1, ms⟩

theorem attempts_eq (sentence : Sentence) : d.attempts materials sentence =
    (d.trials materials).map fun t => d.attempt t.schema t.materials sentence := by
  have hschemas : (d.schemas.filter fun s => s.premises.length = materials.length) =
      (d.schemas.zipIdx.filter fun e => e.1.premises.length = materials.length).map Prod.fst := by
    conv_lhs => rw [← List.zipIdx_map_fst 0 d.schemas, List.filter_map]
    rfl
  unfold attempts trials
  rw [hschemas, List.flatMap_map, List.map_flatMap]
  simp only [List.map_map]
  rfl

variable {d materials}

theorem perm_of_mem_arranged {ms : List (Nat × Material)} (h : ms ∈ d.arranged materials) :
    ms.Perm (indexed materials) := by
  unfold arranged at h
  split at h
  · exact perm_of_mem_orders h
  · rw [List.mem_singleton.mp h]

theorem arranged_rising :
    (d.arranged materials).Pairwise fun ms ms' => ms.map Prod.fst < ms'.map Prod.fst := by
  unfold arranged
  split
  · rw [← List.pairwise_map, ← orders_map, indexed_fst]
    exact orders_rising _
  · exact List.pairwise_singleton _ _

/-- The orders that a rule takes are those among which it has a choice. -/
theorem mem_arranged_iff {order : List Nat} :
    order ∈ (d.arranged materials).map (List.map Prod.fst) ↔
      order.Perm (List.range materials.length) ∧
        (d.unordered = false → order = List.range materials.length) := by
  rw [← indexed_fst]
  unfold arranged
  cases d.unordered with
  | true =>
    rw [if_pos rfl, ← orders_map, mem_orders_iff]
    simp
  | false =>
    simp only [Bool.false_eq_true, if_false, List.map_cons, List.map_nil, List.mem_singleton,
      forall_const]
    constructor
    · rintro rfl
      exact ⟨.refl _, rfl⟩
    · exact And.right

theorem mem_trials {t : Trial} : t ∈ d.trials materials ↔
    d.schemas[t.choice.schema]? = some t.schema ∧ t.schema.premises.length = materials.length ∧
      t.materials ∈ d.arranged materials ∧ t.choice.order = t.materials.map Prod.fst := by
  unfold trials
  rw [List.mem_flatMap]
  constructor
  · rintro ⟨e, he, ht⟩
    obtain ⟨hmem, hlen⟩ := List.mem_filter.mp he
    obtain ⟨ms, hms, rfl⟩ := List.mem_map.mp ht
    exact ⟨List.mem_zipIdx_iff_getElem?.mp hmem, of_decide_eq_true hlen, hms, rfl⟩
  · rintro ⟨hs, hlen, hms, horder⟩
    refine ⟨(t.schema, t.choice.schema), List.mem_filter.mpr ⟨?_, decide_eq_true hlen⟩,
      List.mem_map.mpr ⟨t.materials, hms, ?_⟩⟩
    · exact List.mk_mem_zipIdx_iff_getElem?.mpr hs
    · rw [← horder]

theorem trials_rising :
    (d.trials materials).Pairwise fun t t' => t.choice.Before t'.choice := by
  unfold trials
  rw [List.pairwise_flatMap]
  constructor
  · rintro ⟨s, i⟩ -
    rw [List.pairwise_map]
    exact arranged_rising.imp fun h => .inr ⟨rfl, h⟩
  · have hrising : d.schemas.zipIdx.Pairwise fun e e' => e.2 < e'.2 := by
      rw [← List.pairwise_map, List.zipIdx_map_snd]
      exact List.pairwise_lt_range' 1
    refine (hrising.filter _).imp fun hlt t ht t' ht' => ?_
    obtain ⟨ms, -, rfl⟩ := List.mem_map.mp ht
    obtain ⟨ms', -, rfl⟩ := List.mem_map.mp ht'
    exact .inl hlt

/-! ## What an attempt finds -/

/-- At the choice of a trial the premises are its materials. -/
theorem supports_iff {t : Trial} (ht : t ∈ d.trials materials) {θ : Bindings} :
    d.Supports materials t.choice t.schema θ ↔
      θ.Proper ∧ List.Forall₂ (Premise.Under θ) t.schema.premises (t.materials.map Prod.snd) := by
  obtain ⟨hs, -, hms, horder⟩ := mem_trials.mp ht
  have hplaces : ∀ e ∈ t.materials, materials[e.1]? = some e.2 := fun e he =>
    mem_indexed ((perm_of_mem_arranged hms).subset he)
  have hmem := mem_arranged_iff.mp (List.mem_map_of_mem hms)
  have hpremises : List.Forall₂ (fun p i => ∃ m, materials[i]? = some m ∧ p.Under θ m)
      t.schema.premises t.choice.order ↔
        List.Forall₂ (Premise.Under θ) t.schema.premises (t.materials.map Prod.snd) := by
    rw [horder, List.forall₂_map_right_iff, List.forall₂_map_right_iff]
    refine forall₂_congr_mem fun e he p => ?_
    simp [hplaces e he]
  constructor
  · intro h
    exact ⟨h.proper, hpremises.mp h.premises⟩
  · rintro ⟨hθ, h⟩
    rw [← horder] at hmem
    exact ⟨hs, hmem.1, hmem.2, hθ, hpremises.mpr h⟩

/-- Each choice that supports a sentence is tried. -/
theorem Supports.exists_trial {c : Choice} {s : Schema} {θ : Bindings}
    (h : d.Supports materials c s θ) :
    ∃ t ∈ d.trials materials, t.choice = c ∧ t.schema = s := by
  obtain ⟨ms, hms, horder⟩ := List.mem_map.mp (mem_arranged_iff.mpr ⟨h.order, h.given⟩)
  refine ⟨⟨c, s, ms⟩, mem_trials.mpr ⟨h.schema, ?_, hms, horder.symm⟩, rfl, rfl⟩
  rw [h.premises.length_eq, h.order.length_eq, List.length_range]

section Attempts

variable {t : Trial} (ht : t ∈ d.trials materials) {sentence : Sentence} {b θ : Bindings}
include ht

theorem premises_length : t.schema.premises.length = t.materials.length := by
  obtain ⟨-, hlen, hms, -⟩ := mem_trials.mp ht
  rw [hlen, (perm_of_mem_arranged hms).length_eq, indexed, List.length_mapIdx]

/-- Premises that fit support the choice under all bindings that extend those found. -/
theorem supports_of_matchPremises (h : matchPremises t.schema.premises t.materials [] = .ok b)
    (hext : θ.Extends b) (hθ : θ.Proper) : d.Supports materials t.choice t.schema θ :=
  (supports_iff ht).mpr ⟨hθ, (matchPremises_sound h (premises_length ht)).2 θ hext⟩

theorem matchPremises_of_supports (hmaterials : ∀ m ∈ materials, m.Stated)
    (h : d.Supports materials t.choice t.schema θ) :
    ∃ b, matchPremises t.schema.premises t.materials [] = .ok b ∧ θ.Extends b := by
  obtain ⟨hθ, hpremises⟩ := (supports_iff ht).mp h
  refine matchPremises_complete (fun e he => ?_) hθ (fun x s hs => nomatch hs) hpremises
  have hplace := mem_indexed ((perm_of_mem_arranged (mem_trials.mp ht).2.2.1).subset he)
  exact hmaterials e.2 (List.mem_of_getElem? hplace)

/-- The bindings that are found are on the metavariables of the premises. -/
theorem isOn_of_matchPremises (h : matchPremises t.schema.premises t.materials [] = .ok b)
    (hext : θ.Extends b) : b.IsOn θ t.schema.bound := by
  refine hext.isOn fun x => ?_
  rw [(matchPremises_sound h (premises_length ht)).1.binds]
  exact or_iff_right fun ⟨s, hs⟩ => nomatch hs

theorem concludes_iff_yields (hmaterials : ∀ m ∈ materials, m.Stated) (hsentence : sentence.Closed)
    (h : matchPremises t.schema.premises t.materials [] = .ok b) :
    d.concludes t.schema b sentence = true ↔
      ∃ θ, d.Yields materials sentence t.choice t.schema θ := by
  rw [concludes_iff]
  constructor
  · rintro ⟨c, hc, hmatch⟩
    obtain ⟨θ, hθ⟩ := Option.isSome_iff_exists.mp hmatch
    have hfirst := (matchPremises_sound h (premises_length ht)).1
    obtain ⟨hgains, hinst⟩ := Sentence.matchWith_sound hθ
    have hproper : θ.Proper := hgains.proper (hfirst.proper fun x hx => nomatch hx)
    exact ⟨θ, ⟨supports_of_matchPremises ht h hgains.kept hproper, c, hinst θ (.refl θ), hc⟩⟩
  · rintro ⟨θ, hsupports, c, hinst, hc⟩
    obtain ⟨b', hb', hext⟩ := matchPremises_of_supports ht hmaterials hsupports
    cases h.symm.trans hb'
    have hclosed : c.Closed := by
      rcases hc with rfl | ⟨-, hc⟩
      · exact hsentence
      · exact Sentence.variants_closed hsentence hc
    refine ⟨c, hc, ?_⟩
    obtain ⟨b', hb', -⟩ := Sentence.matchWith_complete hext hinst
      (Sentence.Stated.bindable (.inr hclosed) hsupports.proper hinst)
    rw [hb']
    rfl

theorem attempt_fits_iff (hmaterials : ∀ m ∈ materials, m.Stated) (hsentence : sentence.Closed) :
    (∃ b, d.attempt t.schema t.materials sentence = .fits b) ↔
      ∃ θ, d.Yields materials sentence t.choice t.schema θ := by
  constructor
  · rintro ⟨b, hb⟩
    obtain ⟨hpremises, hconcludes⟩ := attempt_fits hb
    exact (concludes_iff_yields ht hmaterials hsentence hpremises).mp hconcludes
  · rintro ⟨θ, h⟩
    obtain ⟨b, hb, -⟩ := matchPremises_of_supports ht hmaterials h.toSupports
    refine ⟨b, ?_⟩
    rw [attempt, hb]
    exact if_pos ((concludes_iff_yields ht hmaterials hsentence hb).mpr ⟨θ, h⟩)

theorem attempt_premise_iff (hmaterials : ∀ m ∈ materials, m.Stated) :
    (∃ i, d.attempt t.schema t.materials sentence = .premise i) ↔
      ∀ θ, ¬d.Supports materials t.choice t.schema θ := by
  constructor
  · rintro ⟨i, hi⟩ θ h
    obtain ⟨b, hb, -⟩ := matchPremises_of_supports ht hmaterials h
    simp only [attempt, hb] at hi
    split at hi <;> cases hi
  · intro hnone
    cases hb : matchPremises t.schema.premises t.materials [] with
    | error i => exact ⟨i, by rw [attempt, hb]⟩
    | ok b =>
      have hproper : b.Proper :=
        (matchPremises_sound hb (premises_length ht)).1.proper fun x hx => nomatch hx
      exact absurd (supports_of_matchPremises ht hb (.refl b) hproper) (hnone b)

end Attempts

/-! ## What a rule says -/

/-- The bindings that a rule returns are those of the first trial that fits. -/
theorem apply_ok_first {sentence : Sentence} {b : Bindings}
    (h : d.apply materials sentence = .ok b) : ∃ t ∈ d.trials materials,
      d.attempt t.schema t.materials sentence = .fits b ∧ ∀ t' ∈ d.trials materials,
        (∃ b', d.attempt t'.schema t'.materials sentence = .fits b') →
          t'.choice = t.choice ∨ t.choice.Before t'.choice := by
  unfold apply at h
  split at h
  · simp only at h
    split at h
    · rename_i b' hfound
      cases h
      rw [attempts_eq, List.findSome?_map] at hfound
      obtain ⟨t, ht, hfits, hfirst⟩ := Trial.findSome?_first trials_rising hfound
      refine ⟨t, ht, ?_, fun t' ht' ⟨b', hb'⟩ => hfirst t' ht' ?_⟩
      · rw [Function.comp_apply] at hfits
        split at hfits
        · rename_i b' hb'
          cases hfits
          exact hb'
        · cases hfits
      · rw [Function.comp_apply, hb']
        exact Option.some_ne_none b'
    · split at h <;> cases h
  · cases h

/-- A rule that refuses a sentence does so for a conclusion where the premises fit in some trial,
and else for the materials. -/
theorem apply_error_reason {sentence : Sentence} {e : CheckError}
    (h : d.apply materials sentence = .error e) :
    (e.reason = .conclusionMismatch ∧ ∃ t ∈ d.trials materials,
      ∀ i, d.attempt t.schema t.materials sentence ≠ .premise i) ∨
    (e.reason = .noMatchingRule ∧ ∀ t ∈ d.trials materials,
      ∃ i, d.attempt t.schema t.materials sentence = .premise i) := by
  unfold apply at h
  split at h
  · simp only [attempts_eq, List.findSome?_map] at h
    split at h
    · cases h
    · rename_i hnofit
      split at h
      · rename_i x hfound
        cases h
        obtain ⟨t, ht, hx⟩ := List.exists_of_findSome?_eq_some hfound
        refine .inl ⟨rfl, t, ht, fun i hi => ?_⟩
        rw [Function.comp_apply, hi] at hx
        cases hx
      · rename_i hnoconclusion
        cases h
        refine .inr ⟨rfl, fun t ht => ?_⟩
        have hfits := List.findSome?_eq_none_iff.mp hnofit t ht
        have hconclusion := List.findSome?_eq_none_iff.mp hnoconclusion t ht
        rw [Function.comp_apply] at hfits hconclusion
        cases ha : d.attempt t.schema t.materials sentence with
        | premise i => exact ⟨i, rfl⟩
        | conclusion x =>
          rw [ha] at hconclusion
          cases hconclusion
        | fits b =>
          rw [ha] at hfits
          cases hfits
  · rename_i harity
    cases h
    refine .inr ⟨rfl, fun t ht => absurd ?_ harity⟩
    obtain ⟨hs, hlen, -⟩ := mem_trials.mp ht
    rw [List.contains_iff_mem, mem_arities]
    exact ⟨t.schema, List.mem_of_getElem? hs, hlen⟩

end RuleDefinition

/-- A rule decides whether a sentence follows from materials by one of its schemas. It accepts the
sentence if and only if some choice and bindings yield it, and the bindings that it returns are then
those of the first such choice, on the metavariables of the premises. Where it refuses, it does so
for the conclusion if some choice supports a sentence, and for the materials if none does. -/
theorem apply_decides (d : RuleDefinition) {materials : List Material}
    (hmaterials : ∀ m ∈ materials, m.Stated) {sentence : Sentence} (hsentence : sentence.Closed) :
    ((∃ b, d.apply materials sentence = .ok b) ↔ ∃ c s θ, d.Yields materials sentence c s θ) ∧
    (∀ b, d.apply materials sentence = .ok b → ∃ c s, d.schemas[c.schema]? = some s ∧
      c.IsFirst (fun c => ∃ s θ, d.Yields materials sentence c s θ) ∧
      ∀ θ, d.Yields materials sentence c s θ → b.IsOn θ s.bound) ∧
    ∀ e, d.apply materials sentence = .error e →
      (e.reason = .conclusionMismatch ∧ ∃ c s θ, d.Supports materials c s θ) ∨
      (e.reason = .noMatchingRule ∧ ∀ c s θ, ¬d.Supports materials c s θ) := by
  refine ⟨⟨?_, ?_⟩, ?_, ?_⟩
  · rintro ⟨b, hb⟩
    obtain ⟨t, ht, hfits, -⟩ := RuleDefinition.apply_ok_first hb
    exact ⟨t.choice, t.schema,
      (RuleDefinition.attempt_fits_iff ht hmaterials hsentence).mp ⟨b, hfits⟩⟩
  · rintro ⟨c, s, θ, h⟩
    obtain ⟨t, ht, rfl, rfl⟩ := h.toSupports.exists_trial
    obtain ⟨b, hb⟩ := (RuleDefinition.attempt_fits_iff ht hmaterials hsentence).mpr ⟨θ, h⟩
    obtain ⟨hs, hlen, -⟩ := RuleDefinition.mem_trials.mp ht
    rw [RuleDefinition.exists_apply_iff, List.contains_iff_mem, RuleDefinition.mem_arities,
      RuleDefinition.attempts_eq]
    exact ⟨⟨t.schema, List.mem_of_getElem? hs, hlen⟩, b, List.mem_map.mpr ⟨t, ht, hb⟩⟩
  · intro b hb
    obtain ⟨t, ht, hfits, hfirst⟩ := RuleDefinition.apply_ok_first hb
    have hyields := (RuleDefinition.attempt_fits_iff ht hmaterials hsentence).mp ⟨b, hfits⟩
    refine ⟨t.choice, t.schema, (RuleDefinition.mem_trials.mp ht).1, ⟨⟨t.schema, hyields⟩, ?_⟩, ?_⟩
    · rintro c ⟨s, θ, h⟩
      obtain ⟨t', ht', rfl, rfl⟩ := h.toSupports.exists_trial
      exact hfirst t' ht' ((RuleDefinition.attempt_fits_iff ht' hmaterials hsentence).mpr ⟨θ, h⟩)
    · intro θ h
      obtain ⟨b', hb', hext⟩ :=
        RuleDefinition.matchPremises_of_supports ht hmaterials h.toSupports
      cases (RuleDefinition.attempt_fits hfits).1.symm.trans hb'
      exact RuleDefinition.isOn_of_matchPremises ht hb' hext
  · intro e he
    rcases RuleDefinition.apply_error_reason he with ⟨hreason, t, ht, hfits⟩ | ⟨hreason, hnone⟩
    · refine .inl ⟨hreason, t.choice, t.schema, ?_⟩
      by_contra hnot
      obtain ⟨i, hi⟩ := (RuleDefinition.attempt_premise_iff ht hmaterials).mpr
        (not_exists.mp hnot)
      exact hfits i hi
    · refine .inr ⟨hreason, fun c s θ h => ?_⟩
      obtain ⟨t, ht, rfl, rfl⟩ := h.exists_trial
      exact (RuleDefinition.attempt_premise_iff ht hmaterials).mp (hnone t ht) θ h

/-- A biconditional after its right side. -/
def rightSideFirst : List Material :=
  [.sentence (.atom "Q"), .sentence (.bic (.atom "P") (.atom "Q"))]

/-- The left side follows by the second schema from the materials in the other order, and a third
sentence fails at the conclusion. -/
theorem apply_decides_right_side_first :
    ∃ d, Catalog.definitionOf? .biconditionalElim = some d ∧ (∀ m ∈ rightSideFirst, m.Stated) ∧
      (Sentence.atom "P").Closed ∧ (∃ c s, d.schemas[c.schema]? = some s ∧
        c.IsFirst (fun c => ∃ s θ, d.Yields rightSideFirst (.atom "P") c s θ) ∧
        ∀ θ, d.Yields rightSideFirst (.atom "P") c s θ →
          Bindings.IsOn [("A", .atom "P"), ("B", .atom "Q")] θ s.bound) ∧
      (Sentence.atom "R").Closed ∧ (∃ c s θ, d.Supports rightSideFirst c s θ) ∧
      ∀ c s θ, ¬d.Yields rightSideFirst (.atom "R") c s θ := by
  have hmaterials : ∀ m ∈ rightSideFirst, m.Stated := by
    intro m hm
    rcases List.mem_cons.mp hm with rfl | hm
    · exact .inr (by decide)
    · rw [List.mem_singleton.mp hm]
      exact .inr (by decide)
  have hp : (Sentence.atom "P").Closed := by decide
  have hr : (Sentence.atom "R").Closed := by decide
  obtain ⟨d, hd, hfits, hfails⟩ : ∃ d, Catalog.definitionOf? .biconditionalElim = some d ∧
      d.apply rightSideFirst (.atom "P") = .ok [("A", .atom "P"), ("B", .atom "Q")] ∧
      d.apply rightSideFirst (.atom "R") =
        .error ⟨.conclusion .biconditionalElim (.atom "P") (.atom "R"), none⟩ :=
    ⟨_, rfl, by decide +kernel, by decide +kernel⟩
  refine ⟨d, hd, hmaterials, hp, (apply_decides d hmaterials hp).2.1 _ hfits, hr, ?_, ?_⟩
  · rcases (apply_decides d hmaterials hr).2.2 _ hfails with ⟨-, h⟩ | ⟨h, -⟩
    · exact h
    · cases h
  · intro c s θ h
    obtain ⟨b, hb⟩ := (apply_decides d hmaterials hr).1.mpr ⟨c, s, θ, h⟩
    rw [hfails] at hb
    cases hb

end ModalFitch
