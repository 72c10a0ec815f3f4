import ModalFitch.Proofs.Citing

/-! What a match of patterns against cited material says.

* `Bindings.Gains`: what a match adds to the bindings that it starts from.
* `Sentence.matchWith_sound`: under the bindings of a match, and under all that extend them, the
  pattern is the sentence.
* `Premise.Under`, `matchPremises_sound`: the same for premises and materials.
* `RuleDefinition.apply_cases`: where a rule accepts a sentence, some schema, some order of the
  materials and some bindings make the materials its premises and the sentence its conclusion. -/

namespace ModalFitch
set_option autoImplicit false

/-! ## Bindings -/

/-- The bindings keep those made before. -/
def Bindings.Extends (b' b : Bindings) : Prop := ∀ x s, b.find? x = some s → b'.find? x = some s

namespace Bindings

theorem Extends.refl (b : Bindings) : b.Extends b := fun _ _ h => h

theorem Extends.trans {a b c : Bindings} (hab : a.Extends b) (hbc : b.Extends c) : a.Extends c :=
  fun x s h => hab x s (hbc x s h)

/-- The name has a sentence. -/
def Binds (b : Bindings) (x : String) : Prop := ∃ s, b.find? x = some s

theorem find?_concat_eq (b : Bindings) (name : String) (s : Sentence) (x : String) :
    find? (b ++ [(name, s)]) x = (b.find? x).or (if x = name then some s else none) := by
  unfold find?
  rw [List.lookup_append]
  by_cases e : x = name
  · rw [if_pos e, e, List.lookup_cons_self]
  · rw [if_neg e, List.lookup_cons, beq_eq_false_iff_ne.mpr e]
    rfl

theorem binds_concat {b : Bindings} {name : String} {s : Sentence} {x : String} :
    Binds (b ++ [(name, s)]) x ↔ b.Binds x ∨ x = name := by
  unfold Binds
  rw [find?_concat_eq]
  cases b.find? x with
  | some t => simp
  | none => by_cases e : x = name <;> simp [e]

theorem Extends.binds {b c : Bindings} (h : c.Extends b) {x : String} (hx : b.Binds x) :
    c.Binds x := by
  obtain ⟨s, hs⟩ := hx
  exact ⟨s, h x s hs⟩

/-- No name has the marker. -/
def Proper (b : Bindings) : Prop := ∀ x, b.find? x ≠ some .marker

/-- Bindings that a match adds: those made before are kept, no name gets the marker, and the names
that are bound are the old ones and some more. -/
structure Gains (b b' : Bindings) (names : List String) : Prop where
  kept : b'.Extends b
  proper : b.Proper → b'.Proper
  binds : ∀ x, b'.Binds x ↔ b.Binds x ∨ x ∈ names

theorem Gains.refl {b : Bindings} {names : List String} (h : ∀ x ∈ names, b.Binds x) :
    b.Gains b names :=
  ⟨.refl b, id, fun x => ⟨.inl, fun hx => hx.elim id (h x)⟩⟩

theorem Gains.trans {b c d : Bindings} {names more all : List String} (h : b.Gains c names)
    (h' : c.Gains d more) (hall : ∀ x, x ∈ all ↔ x ∈ names ∨ x ∈ more) : b.Gains d all where
  kept := h'.kept.trans h.kept
  proper hb := h'.proper (h.proper hb)
  binds x := by rw [h'.binds, h.binds, hall, or_assoc]

theorem gains_concat {s : Sentence} (hs : s ≠ .marker) (b : Bindings) (name : String) :
    b.Gains (b ++ [(name, s)]) [name] where
  kept x t h := by rw [find?_concat_eq, h, Option.some_or]
  proper hb x hx := by
    rw [find?_concat_eq] at hx
    rcases Option.or_eq_some_iff.mp hx with hx | ⟨-, hx⟩
    · exact hb x hx
    · split at hx
      · exact hs (Option.some.inj hx)
      · cases hx
  binds x := by rw [binds_concat, List.mem_singleton]

end Bindings

/-! ## Sentences -/

namespace Sentence

@[simp]
theorem metavariables_metavar (x : String) : (metavar x).metavariables = [x] := rfl

@[simp]
theorem metavariables_unary (op : UnaryOp) (p : Sentence) :
    (unary op p).metavariables = p.metavariables := rfl

@[simp]
theorem metavariables_binary (op : BinaryOp) (p q : Sentence) :
    (binary op p q).metavariables = p.metavariables ++ q.metavariables := by
  show (p.walk ++ q.walk).filterMap metavarName? = _
  rw [List.filterMap_append]
  rfl

/-- A pattern has an instance where all its metavariables are bound. -/
theorem instantiate_iff {b : Bindings} {p s : Sentence} :
    p.instantiate b = .ok s ↔
      p.instantiatePartial b = s ∧ ∀ x ∈ p.metavariables, b.Binds x := by
  induction p generalizing s with
  | metavar name =>
    simp only [instantiate, instantiatePartial, metavariables_metavar, List.mem_singleton,
      forall_eq, Bindings.Binds]
    cases b.find? name <;> simp
  | unary op p ih =>
    simp only [instantiate, instantiatePartial, metavariables_unary, bind_ok, ih]
    constructor
    · rintro ⟨t, ⟨rfl, hbinds⟩, e⟩
      cases e
      exact ⟨rfl, hbinds⟩
    · rintro ⟨rfl, hbinds⟩
      exact ⟨_, ⟨rfl, hbinds⟩, rfl⟩
  | binary op p q ihp ihq =>
    simp only [instantiate, instantiatePartial, metavariables_binary, List.forall_mem_append,
      bind_ok, ihp, ihq]
    constructor
    · rintro ⟨t, ⟨rfl, hp⟩, u, ⟨rfl, hq⟩, e⟩
      cases e
      exact ⟨rfl, hp, hq⟩
    · rintro ⟨rfl, hp, hq⟩
      exact ⟨_, ⟨rfl, hp⟩, _, ⟨rfl, hq⟩, rfl⟩
  | atom name => simp [instantiate, instantiatePartial, metavariables, walk, metavarName?]
  | bottom => simp [instantiate, instantiatePartial, metavariables, walk, metavarName?]
  | marker => simp [instantiate, instantiatePartial, metavariables, walk, metavarName?]

/-! ### Matches -/

theorem matchWith_metavar {name : String} {s : Sentence} {b b' : Bindings} :
    (metavar name).matchWith s b = some b' ↔ s.bindable = true ∧
      (b.find? name = none ∧ b' = b ++ [(name, s)] ∨ b.find? name = some s ∧ b' = b) := by
  unfold matchWith
  cases s.bindable with
  | false => simp
  | true =>
    cases b.find? name with
    | none => simp [eq_comm]
    | some t =>
      by_cases e : t = s
      · simp [e, eq_comm]
      · simp [e]

theorem matchWith_unary {op : UnaryOp} {p s : Sentence} {b b' : Bindings} :
    (unary op p).matchWith s b = some b' ↔ ∃ t, s = .unary op t ∧ p.matchWith t b = some b' := by
  cases s with
  | unary op' t =>
    simp only [matchWith]
    by_cases e : op = op'
    · simp [e]
    · simp [e, eq_comm]
  | _ => simp [matchWith]

theorem matchWith_binary {op : BinaryOp} {p q s : Sentence} {b b' : Bindings} :
    (binary op p q).matchWith s b = some b' ↔ ∃ t u c, s = .binary op t u ∧
      p.matchWith t b = some c ∧ q.matchWith u c = some b' := by
  cases s with
  | binary op' t u =>
    simp only [matchWith]
    by_cases e : op = op'
    · cases hp : p.matchWith t b <;> simp [e, hp]
    · simp [e, eq_comm]
  | _ => simp [matchWith]

/-- Under what a match finds, and under more, the pattern is the sentence. What it finds is the
bindings that it starts from with the metavariables of the pattern. -/
theorem matchWith_sound {p s : Sentence} {b b' : Bindings} (h : p.matchWith s b = some b') :
    b.Gains b' p.metavariables ∧ ∀ c : Bindings, c.Extends b' → p.instantiate c = .ok s := by
  induction p generalizing s b b' with
  | metavar name =>
    have hinst : ∀ c : Bindings, c.find? name = some s → (metavar name).instantiate c = .ok s := by
      intro c hc
      rw [instantiate, hc]
    rw [metavariables_metavar]
    obtain ⟨hs, ⟨hname, rfl⟩ | ⟨hname, rfl⟩⟩ := matchWith_metavar.mp h
    · have hnew : Bindings.find? (b ++ [(name, s)]) name = some s := by
        rw [Bindings.find?_concat_eq, hname, Option.none_or, if_pos rfl]
      refine ⟨Bindings.gains_concat ?_ b name, fun c hc => hinst c (hc name s hnew)⟩
      rintro rfl
      cases hs
    · refine ⟨.refl fun x hx => ?_, fun c hc => hinst c (hc name s hname)⟩
      rw [List.mem_singleton.mp hx]
      exact ⟨s, hname⟩
  | unary op p ih =>
    obtain ⟨t, rfl, hp⟩ := matchWith_unary.mp h
    obtain ⟨hgains, hp⟩ := ih hp
    exact ⟨hgains, fun c hc => bind_ok.mpr ⟨t, hp c hc, rfl⟩⟩
  | binary op p q ihp ihq =>
    obtain ⟨t, u, d, rfl, hp, hq⟩ := matchWith_binary.mp h
    obtain ⟨hgains, hp⟩ := ihp hp
    obtain ⟨hmore, hq⟩ := ihq hq
    refine ⟨hgains.trans hmore fun x => ?_, fun c hc => ?_⟩
    · rw [metavariables_binary, List.mem_append]
    · exact bind_ok.mpr ⟨t, hp c (hc.trans hmore.kept), bind_ok.mpr ⟨u, hq c hc, rfl⟩⟩
  | atom name =>
    cases s <;> simp only [matchWith, reduceCtorEq] at h
    split at h
    · rename_i e
      cases h
      exact ⟨.refl nofun, fun _ _ => e ▸ rfl⟩
    · cases h
  | bottom =>
    cases s <;> cases h
    exact ⟨.refl nofun, fun _ _ => rfl⟩
  | marker =>
    cases s <;> cases h
    exact ⟨.refl nofun, fun _ _ => rfl⟩

/-- The pattern under some bindings is the sentence, which is the marker only if the pattern is. -/
def Fits (b : Bindings) (p s : Sentence) : Prop :=
  p.instantiatePartial b = s ∧ (s = .marker → p = .marker)

theorem fits_of_instantiate {b : Bindings} (hb : b.Proper) {p s : Sentence}
    (h : p.instantiate b = .ok s) : p.Fits b s := by
  obtain ⟨rfl, hbinds⟩ := instantiate_iff.mp h
  refine ⟨rfl, fun hmarker => ?_⟩
  cases p with
  | marker => rfl
  | metavar name =>
    obtain ⟨t, ht⟩ := hbinds name List.mem_cons_self
    rw [instantiatePartial, ht] at hmarker
    exact absurd (hmarker ▸ ht) (hb name)
  | _ => cases hmarker

theorem mem_variants_self (s : Sentence) : s ∈ s.variants := by
  unfold variants
  split
  · split <;> simp
  · simp

end Sentence

/-! ## Premises -/

/-- The premise under some bindings is the material. -/
def Premise.Instance (b : Bindings) : Premise → Material → Prop
  | .line p, .sentence s => p.Fits b s
  | .subproof p, .subproof s =>
    s.kind = p.kind ∧ s.assumption = p.assumption.map (·.instantiatePartial b) ∧
      ∃ r, s.result = some r ∧ p.result.Fits b r
  | _, _ => False

/-- The pattern of the sentence that a premise asks for. -/
def Premise.asks : Premise → Sentence
  | .line p => p
  | .subproof p => p.result

/-- The premise under some bindings is the material. A subproof has the kind asked for, an
assumption where one is asked for and else none, and a result. -/
def Premise.Under (θ : Bindings) : Premise → Material → Prop
  | .line p, .sentence s => p.instantiate θ = .ok s
  | .subproof p, .subproof m => m.kind = p.kind ∧
    Option.Rel (fun q a => Sentence.instantiate θ q = .ok a) p.assumption m.assumption ∧
    ∃ r, m.result = some r ∧ p.result.instantiate θ = .ok r
  | _, _ => False

namespace SubproofPattern

theorem mem_metavariables {p : SubproofPattern} {x : String} : x ∈ p.metavariables ↔
    x ∈ (p.assumption.map Sentence.metavariables).getD [] ∨ x ∈ p.result.metavariables := by
  unfold metavariables
  rw [List.mem_append, or_comm]

theorem matchWith_sound {p : SubproofPattern} {m : Summary} {b b' : Bindings}
    (h : p.matchWith m b = some b') : b.Gains b' p.metavariables ∧
      ∀ c : Bindings, c.Extends b' → Premise.Under c (.subproof p) (.subproof m) := by
  unfold matchWith at h
  split at h
  · rename_i hk
    split at h
    · rename_i r hp ha hr
      obtain ⟨hgains, hresult⟩ := Sentence.matchWith_sound h
      refine ⟨⟨hgains.kept, hgains.proper, fun x => ?_⟩, fun c hc => ⟨hk, ?_, r, hr, hresult c hc⟩⟩
      · rw [hgains.binds, mem_metavariables, hp]
        simp
      · rw [hp, ha]
        exact .none
    · rename_i q a r hp ha hr
      split at h
      · rename_i d hd
        obtain ⟨hgains, hassumption⟩ := Sentence.matchWith_sound hd
        obtain ⟨hmore, hresult⟩ := Sentence.matchWith_sound h
        refine ⟨hgains.trans hmore fun x => ?_, fun c hc => ⟨hk, ?_, r, hr, hresult c hc⟩⟩
        · rw [mem_metavariables, hp]
          rfl
        · rw [hp, ha]
          exact .some (hassumption c (hc.trans hmore.kept))
      · cases h
    · cases h
  · cases h

end SubproofPattern

namespace Premise

theorem matchWith_sound {p : Premise} {m : Material} {b b' : Bindings}
    (h : p.matchWith m b = some b') :
    b.Gains b' p.metavariables ∧ ∀ c : Bindings, c.Extends b' → p.Under c m := by
  unfold matchWith at h
  split at h
  · exact Sentence.matchWith_sound h
  · exact SubproofPattern.matchWith_sound h
  · cases h

/-- What a premise asks for under bindings without the marker is an instance of it. -/
theorem Under.instance {θ : Bindings} (hθ : θ.Proper) {p : Premise} {m : Material}
    (h : p.Under θ m) : p.Instance θ m := by
  cases p with
  | line p =>
    cases m with
    | sentence s => exact Sentence.fits_of_instantiate hθ h
    | subproof m => cases h
  | subproof p =>
    cases m with
    | sentence s => cases h
    | subproof m =>
      obtain ⟨hk, ha, r, hr, hresult⟩ := h
      refine ⟨hk, ?_, r, hr, Sentence.fits_of_instantiate hθ hresult⟩
      generalize p.assumption = asked at ha ⊢
      generalize m.assumption = given at ha ⊢
      cases ha with
      | none => rfl
      | some ha => rw [Option.map_some, (Sentence.instantiate_iff.mp ha).1]

end Premise

theorem matchPremises_sound {ps : List Premise} {ms : List (Nat × Material)} {b b' : Bindings}
    (h : matchPremises ps ms b = .ok b') (hlen : ps.length = ms.length) :
    b.Gains b' (ps.flatMap Premise.metavariables) ∧
      ∀ c : Bindings, c.Extends b' → List.Forall₂ (Premise.Under c) ps (ms.map Prod.snd) := by
  induction ps generalizing ms b with
  | nil =>
    cases ms with
    | nil =>
      cases h
      exact ⟨⟨.refl _, id, fun x => by simp⟩, fun _ _ => .nil⟩
    | cons e ms => cases hlen
  | cons p ps ih =>
    cases ms with
    | nil => cases hlen
    | cons e ms =>
      obtain ⟨i, m⟩ := e
      unfold matchPremises at h
      split at h
      · rename_i d hd
        obtain ⟨hgains, hp⟩ := Premise.matchWith_sound hd
        obtain ⟨hmore, hps⟩ := ih h (by simpa using hlen)
        refine ⟨hgains.trans hmore fun x => ?_, fun c hc => ?_⟩
        · rw [List.flatMap_cons, List.mem_append]
        · exact .cons (hp c (hc.trans hmore.kept)) (hps c hc)
      · cases h

/-! ## Orders -/

theorem perm_of_mem_selections {α : Type} {xs ys : List α} {x : α} (h : (x, ys) ∈ selections xs) :
    (x :: ys).Perm xs := by
  induction xs generalizing x ys with
  | nil => cases h
  | cons z zs ih =>
    unfold selections at h
    rcases List.mem_cons.mp h with e | h
    · cases e
      exact .refl _
    · obtain ⟨⟨y, ws⟩, hy, e⟩ := List.mem_map.mp h
      cases e
      exact (List.Perm.swap z x ws).trans ((ih hy).cons z)

theorem perm_of_mem_arrangements {α : Type} {n : Nat} {xs ys : List α} (hn : xs.length = n)
    (h : ys ∈ arrangements n xs) : ys.Perm xs := by
  induction n generalizing xs ys with
  | zero =>
    rw [List.length_eq_zero_iff] at hn
    rw [arrangements, List.mem_singleton] at h
    rw [h, hn]
  | succ n ih =>
    unfold arrangements at h
    obtain ⟨⟨y, ws⟩, hy, hmem⟩ := List.mem_flatMap.mp h
    obtain ⟨zs, hzs, rfl⟩ := List.mem_map.mp hmem
    have hp := perm_of_mem_selections hy
    have hlen : ws.length = n := by
      have := hp.length_eq
      rw [List.length_cons] at this
      omega
    exact ((ih hlen hzs).cons y).trans hp

theorem perm_of_mem_orders {α : Type} {xs ys : List α} (h : ys ∈ orders xs) : ys.Perm xs :=
  perm_of_mem_arrangements rfl h

/-- Materials with their places. -/
def indexed (materials : List Material) : List (Nat × Material) :=
  materials.mapIdx fun i m => (i, m)

theorem indexed_snd (materials : List Material) : (indexed materials).map Prod.snd = materials := by
  apply List.ext_getElem?
  intro i
  rw [indexed, List.getElem?_map, List.getElem?_mapIdx, Option.map_map]
  exact Option.map_id_apply

/-! ## Rules -/

namespace RuleDefinition

theorem concludes_instance {d : RuleDefinition} {s : Schema} {b : Bindings} {sentence : Sentence}
    (h : d.concludes s b sentence = true) :
    ∃ b' : Bindings, b'.Extends b ∧ (b.Proper → b'.Proper) ∧
      s.conclusion.instantiatePartial b' ∈ sentence.variants := by
  unfold concludes at h
  obtain ⟨c, hc, hm⟩ := List.any_eq_true.mp h
  obtain ⟨b', hb'⟩ := Option.isSome_iff_exists.mp hm
  obtain ⟨hgains, hinst⟩ := Sentence.matchWith_sound hb'
  refine ⟨b', hgains.kept, hgains.proper, ?_⟩
  rw [(Sentence.instantiate_iff.mp (hinst b' (.refl b'))).1]
  split at hc
  · rw [List.mem_singleton.mp hc]
    exact Sentence.mem_variants_self sentence
  · exact hc

theorem attempt_fits {d : RuleDefinition} {s : Schema} {ms : List (Nat × Material)}
    {sentence : Sentence} {b : Bindings} (h : d.attempt s ms sentence = .fits b) :
    matchPremises s.premises ms [] = .ok b ∧ d.concludes s b sentence = true := by
  unfold attempt at h
  split at h
  · cases h
  · rename_i b₁ hb
    split at h
    · rename_i hc
      cases h
      exact ⟨hb, hc⟩
    · cases h

theorem mem_attempts {d : RuleDefinition} {materials : List Material} {sentence : Sentence}
    {a : Attempt} (h : a ∈ d.attempts materials sentence) :
    ∃ s ∈ d.schemas, s.premises.length = materials.length ∧ ∃ ms : List (Nat × Material),
      (ms.map Prod.snd).Perm materials ∧ a = d.attempt s ms sentence := by
  have hsnd : (materials.mapIdx fun i m => (i, m)).map Prod.snd = materials :=
    indexed_snd materials
  obtain ⟨s, hs, hms⟩ := List.mem_flatMap.mp h
  rw [List.mem_filter, decide_eq_true_iff] at hs
  obtain ⟨ms, hmem, rfl⟩ := List.mem_map.mp hms
  refine ⟨s, hs.1, hs.2, ms, ?_, rfl⟩
  split at hmem
  · have hp := (perm_of_mem_orders hmem).map Prod.snd
    rwa [hsnd] at hp
  · rw [List.mem_singleton.mp hmem, hsnd]

/-- What the acceptance of a sentence by a rule rests on. -/
theorem apply_cases {d : RuleDefinition} {materials : List Material} {sentence : Sentence}
    {b : Bindings} (h : d.apply materials sentence = .ok b) :
    ∃ s ∈ d.schemas, ∃ ms : List Material, ms.Perm materials ∧ ∃ b' : Bindings,
      List.Forall₂ (Premise.Instance b') s.premises ms ∧
      s.conclusion.instantiatePartial b' ∈ sentence.variants := by
  unfold apply at h
  split at h
  · simp only at h
    split at h
    · rename_i b₁ hfits
      obtain ⟨attempt, hmem, hat⟩ := List.exists_of_findSome?_eq_some hfits
      split at hat
      · obtain ⟨s, hs, hlen, ms, hperm, e⟩ := mem_attempts hmem
        obtain ⟨hprem, hconc⟩ := attempt_fits e.symm
        obtain ⟨b', hext, hproper, hvar⟩ := concludes_instance hconc
        have hlen' : s.premises.length = ms.length := by
          rw [hlen, ← hperm.length_eq, List.length_map]
        obtain ⟨hgains, hunder⟩ := matchPremises_sound hprem hlen'
        have hb' : b'.Proper := hproper (hgains.proper fun x hx => nomatch hx)
        exact ⟨s, hs, ms.map Prod.snd, hperm, b',
          (hunder b' hext).imp fun _ _ h => h.instance hb', hvar⟩
      · cases hat
    · split at h <;> cases h
  · cases h

end RuleDefinition

end ModalFitch
