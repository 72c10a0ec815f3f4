import Mathlib.Data.List.Basic
import Mathlib.Data.List.Forall2
import ModalFitch.Checker
import ModalFitch.Proofs.ScopeTree

/-! What the steps of a check on the citations of a line say when they pass.

* `Pass.Resolved`: a citation leads to material in view.
* `Pass.resolve_iff`, `checkDependencies_iff`, `checkClosure_iff`: each step passes exactly where
  its condition holds.
* `Pass.applyDefinition_iff`: the steps together. -/

namespace ModalFitch
set_option autoImplicit false

/-! ## Steps in sequence -/

theorem bind_ok {ε α β : Type} {x : Except ε α} {f : α → Except ε β} {r : β} :
    (x >>= f) = .ok r ↔ ∃ a, x = .ok a ∧ f a = .ok r := by
  cases x with
  | error e => simp [bind, Except.bind]
  | ok a => simp [bind, Except.bind]

theorem exists_ok {ε α : Type} {x : Except ε α} {p : α → Bool} (h : x.toOption.any p = true) :
    ∃ a, x = .ok a ∧ p a = true := by
  cases x with
  | error e => cases h
  | ok a => exact ⟨a, rfl, h⟩

theorem forall₂_exists_left {α β : Type} {R : α → β → Prop} {as : List α} {bs : List β}
    (h : List.Forall₂ R as bs) {b : β} (hb : b ∈ bs) : ∃ a ∈ as, R a b := by
  induction h with
  | nil => cases hb
  | @cons a b' as bs hab _ ih =>
    rcases List.mem_cons.mp hb with rfl | hb
    · exact ⟨a, List.mem_cons_self, hab⟩
    · obtain ⟨a', ha', hr⟩ := ih hb
      exact ⟨a', List.mem_cons_of_mem a ha', hr⟩

theorem mapError_ok {ε ε' α : Type} {x : Except ε α} {f : ε → ε'} {a : α} :
    x.mapError f = .ok a ↔ x = .ok a := by
  cases x with
  | error e => simp [Except.mapError]
  | ok b => simp [Except.mapError]

theorem Check.lift_ok {α : Type} {x : Except Missing α} {a : α} :
    Check.lift x = .ok a ↔ x = .ok a := mapError_ok

/-! ## Lines and what is in view -/

theorem Line.sentence?_eq_some {l : Line} {a : Sentence} :
    l.sentence? = some a ↔ l.reading = .ok a := by
  unfold Line.sentence?
  cases l.reading with
  | error e => simp [Except.toOption]
  | ok b => simp [Except.toOption]

namespace Outline

theorem line_ok {o : Outline} {n : Nat} {l : Line} :
    o.line n = .ok l ↔ o.line? n = some l := by
  unfold line
  cases o.line? n with
  | none => simp
  | some l' => simp

theorem line?_eq_some {o : Outline} {n : Nat} {l : Line} :
    o.line? n = some l ↔ n ≠ 0 ∧ o.lines[n - 1]? = some l := by
  unfold line?
  by_cases hn : n = 0
  · simp [hn]
  · simp [hn]

theorem hasLine_bounds {o : Outline} {n : Nat} :
    o.hasLine n = true ↔ 1 ≤ n ∧ n ≤ o.size := by
  unfold hasLine
  rw [Bool.and_eq_true, decide_eq_true_iff, decide_eq_true_iff]

theorem mem_numbers {o : Outline} {m : Nat} : m ∈ o.numbers ↔ o.hasLine m = true := by
  rw [numbers, List.mem_range'_1, hasLine_bounds]
  omega

theorem hasLine_iff {o : Outline} {n : Nat} :
    o.hasLine n = true ↔ ∃ l, o.line? n = some l := by
  rw [hasLine_bounds]
  unfold line? size
  cases n with
  | zero => simp
  | succ i =>
    rw [if_neg (Nat.succ_ne_zero i), Nat.add_sub_cancel]
    constructor
    · rintro ⟨-, hi⟩
      exact ⟨_, List.getElem?_eq_getElem hi⟩
    · rintro ⟨l, hl⟩
      obtain ⟨hi, -⟩ := List.getElem?_eq_some_iff.mp hl
      exact ⟨by omega, hi⟩

theorem exists_line {o : Outline} {n : Nat} (h1 : 1 ≤ n) (hn : n ≤ o.size) : ∃ l, o.line? n = some l :=
  hasLine_iff.mp (hasLine_bounds.mpr ⟨h1, hn⟩)

theorem line?_eq_none {o : Outline} {n : Nat} (h : o.hasLine n = false) :
    o.line? n = none := by
  cases hl : o.line? n with
  | none => rfl
  | some l =>
    rw [hasLine_iff.mpr ⟨l, hl⟩] at h
    cases h

theorem sentenceAt?_eq {o : Outline} {n : Nat} {l : Line} (hl : o.line? n = some l) :
    o.sentenceAt? n = l.sentence? := by
  rw [sentenceAt?, hl, Option.bind_some]

theorem lineVisible_cases {o : Outline} {n k : Nat} (hv : o.lineVisible n k = .ok true) :
    ∃ there here, o.scopeOf k = .ok there ∧ o.scopeOf n = .ok here ∧
      there.id ∈ here.enclosing := by
  unfold lineVisible at hv
  split at hv
  · obtain ⟨there, ht, hv⟩ := bind_ok.mp hv
    obtain ⟨here, hh, hv⟩ := bind_ok.mp hv
    exact ⟨there, here, ht, hh, encloses_iff.mp (Except.ok.inj hv)⟩
  · cases hv

theorem subproofVisible_cases {o : Outline} {n : Nat} {s : Scope}
    (hv : o.subproofVisible n s = .ok true) :
    s.last < n ∧ ∃ here parent, o.scopeOf n = .ok here ∧ o.parent? s = some parent ∧
      parent.id ∈ here.enclosing := by
  unfold subproofVisible at hv
  split at hv
  · cases hv
  · rename_i hcond
    rw [Bool.not_eq_true, Bool.or_eq_false_iff, decide_eq_false_iff_not] at hcond
    obtain ⟨here, hh, hv⟩ := bind_ok.mp hv
    refine ⟨by omega, here, ?_⟩
    split at hv
    · cases hv
    · split at hv
      · rename_i parent hp
        exact ⟨parent, hh, hp, encloses_iff.mp (Except.ok.inj hv)⟩
      · cases hv

/-- The assumption and the result that a subproof shows. -/
theorem summary_cases {o : Outline} {s : Scope} {m : Summary} (hm : o.summary s = .ok m) :
    ∃ l, o.line? s.first = some l ∧ m.kind = s.kind ∧
      m.assumption = (if l.isMarker then none else l.sentence?) ∧
      ∀ a, m.result = some a → ∃ k, .line k ∈ s.items ∧ o.sentenceAt? k = some a := by
  unfold summary at hm
  obtain ⟨l, hl, hm⟩ := bind_ok.mp hm
  cases hm
  refine ⟨l, line_ok.mp hl, rfl, rfl, ?_⟩
  intro a ha
  dsimp only at ha
  split at ha
  · rename_i k hk
    split at ha
    · cases ha
    · exact ⟨k, List.mem_of_getLast? hk, ha⟩
  · cases ha

theorem Nested.summary_total {o : Outline} (h : o.Nested) {s : Scope} (hs : o.HasScope s)
    (h0 : s.id ≠ 0) : ∃ m, o.summary s = .ok m := by
  obtain ⟨_, l, -, -, -, -, hl, -, -⟩ := h.subproof hs h0
  unfold summary
  rw [line_ok.mpr hl]
  exact ⟨_, rfl⟩

end Outline

namespace Pass

/-! ## Citations -/

/-- A citation in a line leads to material: the summary of a closed subproof in view that was
opened in the line's world, or an earlier line. The earlier line is in view and in the same world,
or it rests on no assumption that is not in force and its world is accessible. -/
inductive Resolved (p : Pass) (number : Nat) : Transfer → Citation → Option Material → Prop where
  | subproof {transfer : Transfer} {c : Citation} {stop : Nat} {s : Scope} {w : World} {m : Summary} :
      c.stop = some stop → p.outline.subproofAt c.start stop = some s →
      p.outline.subproofVisible number s = .ok true → p.worlds.ofScope (s.parent?.getD 0) = .ok w →
      p.worldOf number = .ok w → p.outline.summary s = .ok m →
      Resolved p number transfer c (some (.subproof m))
  | within {c : Citation} {l : Line} {w : World} :
      c.stop = none → p.outline.line? c.start = some l → c.start < number →
      p.worldOf c.start = .ok w → p.worldOf number = .ok w →
      p.outline.lineVisible number c.start = .ok true →
      Resolved p number .within c (l.sentence?.map .sentence)
  | across {c : Citation} {l : Line} {home : Scope} {hypotheses : List Scope} {system : ModalSystem}
      {here there : World} :
      c.stop = none → p.outline.line? c.start = some l → c.start < number →
      p.outline.scopeOf number = .ok home → p.outline.hypothesesOver c.start = .ok hypotheses →
      (∀ s ∈ hypotheses, s.encloses home = true) → p.config.system = some system →
      p.worldOf number = .ok here → p.worldOf c.start = .ok there →
      p.worlds.canImport system here there = true →
      Resolved p number .across c (l.sentence?.map .sentence)

theorem resolveWithin_iff {p : Pass} {number : Nat} {index : Int} {target : Nat} :
    p.resolveWithin number index target = .ok () ↔
      ∃ w, p.worldOf target = .ok w ∧ p.worldOf number = .ok w ∧
        p.outline.lineVisible number target = .ok true := by
  unfold resolveWithin
  simp only [bind_ok, Check.lift_ok]
  constructor
  · rintro ⟨there, ht, here, hh, visible, hv, h⟩
    split at h
    · rename_i hvis
      split at h
      · rename_i e
        exact ⟨there, ht, e ▸ hh, hvis ▸ hv⟩
      · cases h
    · split at h <;> cases h
  · rintro ⟨w, ht, hh, hv⟩
    exact ⟨w, ht, w, hh, true, hv, by simp [pure, Except.pure]⟩

theorem resolveAcross_iff {p : Pass} {number : Nat} {index : Int} {target : Nat} :
    p.resolveAcross number index target = .ok () ↔
      ∃ home hypotheses system here there, p.outline.scopeOf number = .ok home ∧
        p.outline.hypothesesOver target = .ok hypotheses ∧
        (∀ s ∈ hypotheses, s.encloses home = true) ∧ p.config.system = some system ∧
        p.worldOf number = .ok here ∧ p.worldOf target = .ok there ∧
        p.worlds.canImport system here there = true := by
  unfold resolveAcross
  simp only [bind_ok, Check.lift_ok]
  constructor
  · rintro ⟨home, hhome, hypotheses, hhyp, h⟩
    split at h
    · cases h
    · rename_i hfind
      split at h
      · cases h
      · rename_i system hsys
        simp only [bind_ok] at h
        obtain ⟨here, hh, there, ht, h⟩ := h
        split at h
        · rename_i hcan
          refine ⟨home, hypotheses, system, here, there, hhome, hhyp, ?_, hsys, hh, ht, hcan⟩
          intro s hs
          simpa using List.find?_eq_none.mp hfind s hs
        · split at h <;> cases h
  · rintro ⟨home, hypotheses, system, here, there, hhome, hhyp, henc, hsys, hh, ht, hcan⟩
    refine ⟨home, hhome, hypotheses, hhyp, ?_⟩
    have hfind : (hypotheses.find? fun s => !s.encloses home) = none := by
      rw [List.find?_eq_none]
      intro s hs
      simp [henc s hs]
    rw [hfind, hsys]
    simp only [bind_ok]
    exact ⟨here, hh, there, ht, by rw [if_pos hcan]; rfl⟩

theorem resolveSubproof_iff {p : Pass} {number : Nat} {index : Int} {c : Citation} {m : Summary} :
    p.resolveSubproof number index c = .ok m ↔
      ∃ stop s w, c.stop = some stop ∧ p.outline.subproofAt c.start stop = some s ∧
        p.outline.subproofVisible number s = .ok true ∧ p.worlds.ofScope (s.parent?.getD 0) = .ok w ∧
        p.worldOf number = .ok w ∧ p.outline.summary s = .ok m := by
  unfold resolveSubproof
  have hn : (0 : Int) ≤ (number : Int) := Int.natCast_nonneg number
  constructor
  · intro h
    split at h
    · cases h
    · rename_i s hs
      obtain ⟨stop, hstop, hat⟩ := Option.bind_eq_some_iff.mp hs
      simp only [if_pos hn, Int.toNat_natCast, bind_ok, Check.lift_ok] at h
      obtain ⟨visible, hv, h⟩ := h
      split at h
      · rename_i hvis
        simp only [bind_ok, Check.lift_ok] at h
        obtain ⟨around, ha, here, hh, h⟩ := h
        split at h
        · rename_i e
          exact ⟨stop, s, around, hstop, hat, hvis ▸ hv, ha, e ▸ hh, Check.lift_ok.mp h⟩
        · cases h
      · cases h
  · rintro ⟨stop, s, w, hstop, hat, hv, ha, hh, hm⟩
    rw [hstop, Option.bind_some, hat]
    simp only [if_pos hn, Int.toNat_natCast, bind_ok, Check.lift_ok]
    refine ⟨true, hv, ?_⟩
    simp only [if_true, bind_ok, Check.lift_ok]
    exact ⟨w, ha, w, hh, by rw [if_pos rfl]; exact Check.lift_ok.mpr hm⟩

theorem resolve_iff {p : Pass} {number : Nat} {transfer : Transfer} {index : Int} {c : Citation}
    {m : Option Material} :
    p.resolve number transfer index c = .ok m ↔ p.Resolved number transfer c m := by
  unfold resolve
  constructor
  · intro h
    cases hc : c.stop with
    | some stop =>
      rw [if_pos (by simp [Citation.isRange, hc])] at h
      obtain ⟨s, hs, h⟩ := bind_ok.mp h
      obtain ⟨stop, scope, w, h1, h2, h3, h4, h5, h6⟩ := resolveSubproof_iff.mp hs
      cases h
      exact .subproof h1 h2 h3 h4 h5 h6
    | none =>
      rw [if_neg (by simp [Citation.isRange, hc])] at h
      simp only at h
      split at h
      · cases h
      · rename_i hline
        split at h
        · cases h
        · rename_i hlt
          cases transfer with
          | within =>
            obtain ⟨⟨⟩, hr, h⟩ := bind_ok.mp h
            obtain ⟨l, hl, h⟩ := bind_ok.mp h
            rw [Check.lift_ok, Outline.line_ok] at hl
            obtain ⟨w, ht, hh, hv⟩ := resolveWithin_iff.mp hr
            cases h
            exact .within hc hl (by omega) ht hh hv
          | across =>
            obtain ⟨⟨⟩, hr, h⟩ := bind_ok.mp h
            obtain ⟨l, hl, h⟩ := bind_ok.mp h
            rw [Check.lift_ok, Outline.line_ok] at hl
            obtain ⟨home, hyps, system, here, there, h1, h2, h3, h4, h5, h6, h7⟩ :=
              resolveAcross_iff.mp hr
            cases h
            exact .across hc hl (by omega) h1 h2 h3 h4 h5 h6 h7
  · intro h
    cases h with
    | subproof hstop h2 h3 h4 h5 h6 =>
      rw [if_pos (by simp [Citation.isRange, hstop])]
      exact bind_ok.mpr ⟨_, resolveSubproof_iff.mpr ⟨_, _, _, hstop, h2, h3, h4, h5, h6⟩, rfl⟩
    | within hstop hl hlt ht hh hv =>
      have hhas := Outline.hasLine_iff.mpr ⟨_, hl⟩
      rw [if_neg (by simp [Citation.isRange, hstop])]
      simp only
      rw [if_neg (by simp [hhas]), if_neg (by omega)]
      exact bind_ok.mpr ⟨(), resolveWithin_iff.mpr ⟨_, ht, hh, hv⟩,
        bind_ok.mpr ⟨_, Check.lift_ok.mpr (Outline.line_ok.mpr hl), rfl⟩⟩
    | across hstop hl hlt h1 h2 h3 h4 h5 h6 h7 =>
      have hhas := Outline.hasLine_iff.mpr ⟨_, hl⟩
      rw [if_neg (by simp [Citation.isRange, hstop])]
      simp only
      rw [if_neg (by simp [hhas]), if_neg (by omega)]
      exact bind_ok.mpr ⟨(), resolveAcross_iff.mpr ⟨_, _, _, _, _, h1, h2, h3, h4, h5, h6, h7⟩,
        bind_ok.mpr ⟨_, Check.lift_ok.mpr (Outline.line_ok.mpr hl), rfl⟩⟩

theorem resolveAll_iff {p : Pass} {number : Nat} {transfer : Transfer} {index : Int}
    {cs : List Citation} {ms : List (Option Material)} :
    p.resolveAll number transfer index cs = .ok ms ↔
      List.Forall₂ (p.Resolved number transfer) cs ms := by
  induction cs generalizing index ms with
  | nil =>
    rw [resolveAll, List.forall₂_nil_left_iff]
    constructor
    · intro h; cases h; rfl
    · rintro rfl; rfl
  | cons c cs ih =>
    rw [resolveAll, List.forall₂_cons_left_iff]
    simp only [bind_ok, resolve_iff, ih]
    constructor
    · rintro ⟨m, hm, rest, hrest, h⟩
      cases h
      exact ⟨m, rest, hm, hrest, rfl⟩
    · rintro ⟨m, rest, hm, hrest, rfl⟩
      exact ⟨m, hm, rest, hrest, rfl⟩

/-! ## Dependencies -/

/-- A line has a verdict, and it is not invalid. -/
def Sustained (done : List Diagnostic) (n : Nat) : Prop :=
  ∃ v, verdictAt done n = .ok v ∧ v.isInvalid = false

theorem firstInvalid_none_iff {done : List Diagnostic} {count n : Nat} :
    firstInvalid done count n = .ok none ↔ ∀ m, n ≤ m → m < n + count → Sustained done m := by
  induction count generalizing n with
  | zero =>
    constructor
    · intro _ m h1 h2
      omega
    · intro _; rfl
  | succ count ih =>
    rw [firstInvalid]
    simp only [bind_ok]
    constructor
    · rintro ⟨v, hv, h⟩ m h1 h2
      split at h
      · cases h
      · rename_i hinv
        by_cases e : m = n
        · exact ⟨v, e ▸ hv, by simpa using hinv⟩
        · exact ih.mp h m (by omega) (by omega)
    · intro h
      obtain ⟨v, hv, hinv⟩ := h n (Nat.le_refl _) (by omega)
      refine ⟨v, hv, ?_⟩
      rw [if_neg (by simp [hinv])]
      exact ih.mpr fun m h1 h2 => h m (by omega) (by omega)

theorem checkDependencies_iff {done : List Diagnostic} {index : Int} {cs : List Citation} :
    checkDependencies done index cs = .ok () ↔
      ∀ c ∈ cs, ∀ n, c.start ≤ n → n ≤ c.last → Sustained done n := by
  induction cs generalizing index with
  | nil =>
    constructor
    · intro _ c hc; cases hc
    · intro _; rfl
  | cons c cs ih =>
    rw [checkDependencies]
    simp only [bind_ok, Check.lift_ok]
    constructor
    · rintro ⟨found, hfound, h⟩ d hd n h1 h2
      split at h
      · cases h
      · rcases List.mem_cons.mp hd with rfl | hd
        · exact firstInvalid_none_iff.mp hfound n h1 (by omega)
        · exact ih.mp h d hd n h1 h2
    · intro h
      refine ⟨none, firstInvalid_none_iff.mpr fun n h1 h2 =>
        h c List.mem_cons_self n h1 (by omega), ?_⟩
      exact ih.mpr fun d hd => h d (List.mem_cons_of_mem c hd)

/-! ## World closure -/

/-- A line stays inside a scope: its rule may reach out, or all its citations start inside. -/
def StaysIn (p : Pass) (s : Scope) (n : Nat) : Prop :=
  ∃ l, p.outline.line? n = some l ∧
    (p.mayReachOut (l.ruleLabel?.getD "") = true ∨ ∀ c ∈ l.citations, s.containsLine c.start = true)

theorem firstLeak_none_iff {p : Pass} {s : Scope} {count n : Nat} :
    p.firstLeak s count n = .ok none ↔ ∀ m, n ≤ m → m < n + count → p.StaysIn s m := by
  induction count generalizing n with
  | zero =>
    constructor
    · intro _ m h1 h2
      omega
    · intro _; rfl
  | succ count ih =>
    rw [firstLeak]
    simp only [bind_ok, Outline.line_ok]
    constructor
    · rintro ⟨l, hl, h⟩ m h1 h2
      split at h
      · cases h
      · rename_i hout
        by_cases e : m = n
        · refine ⟨l, e ▸ hl, ?_⟩
          split at hout
          · rename_i hreach
            exact .inl hreach
          · refine .inr fun c hc => ?_
            simpa using List.find?_eq_none.mp hout c hc
        · exact ih.mp h m (by omega) (by omega)
    · intro h
      obtain ⟨l, hl, hstay⟩ := h n (Nat.le_refl _) (by omega)
      refine ⟨l, hl, ?_⟩
      have hout : (if p.mayReachOut (l.ruleLabel?.getD "") = true then none
          else l.citations.find? fun c => !s.containsLine c.start) = none := by
        split
        · rfl
        · rename_i hreach
          rw [List.find?_eq_none]
          intro c hc
          have := hstay.resolve_left hreach c hc
          simp [this]
      rw [hout]
      exact ih.mpr fun m h1 h2 => h m (by omega) (by omega)

theorem checkClosure_iff {p : Pass} {index : Int} {cs : List Citation} :
    p.checkClosure index cs = .ok () ↔
      ∀ c ∈ cs, ∀ stop s, c.stop = some stop → p.outline.subproofAt c.start stop = some s →
        s.kind = .modal → ∀ n, s.first < n → n ≤ s.last → p.StaysIn s n := by
  induction cs generalizing index with
  | nil =>
    constructor
    · intro _ c hc; cases hc
    · intro _; rfl
  | cons c cs ih =>
    rw [checkClosure]
    have hhead : ∀ {s}, ((c.stop.bind (p.outline.subproofAt c.start)).filter fun s => s.kind = .modal)
        = some s ↔ ∃ stop, c.stop = some stop ∧ p.outline.subproofAt c.start stop = some s ∧
          s.kind = .modal := by
      intro s
      rw [Option.filter_eq_some_iff, Option.bind_eq_some_iff, decide_eq_true_iff]
      constructor
      · rintro ⟨⟨stop, h1, h2⟩, h3⟩
        exact ⟨stop, h1, h2, h3⟩
      · rintro ⟨stop, h1, h2, h3⟩
        exact ⟨⟨stop, h1, h2⟩, h3⟩
    constructor
    · intro h d hd
      split at h
      · rename_i hnone
        rcases List.mem_cons.mp hd with rfl | hd
        · intro stop s h1 h2 h3
          rw [hhead.mpr ⟨stop, h1, h2, h3⟩] at hnone
          cases hnone
        · exact ih.mp h d hd
      · rename_i s hsome
        obtain ⟨found, hfound, h⟩ := bind_ok.mp h
        rw [Check.lift_ok] at hfound
        split at h
        · cases h
        · rcases List.mem_cons.mp hd with rfl | hd
          · intro stop s' h1 h2 h3 n h4 h5
            rw [hhead.mpr ⟨stop, h1, h2, h3⟩] at hsome
            cases hsome
            exact firstLeak_none_iff.mp hfound n (by omega) (by omega)
          · exact ih.mp h d hd
    · intro h
      have hrest : p.checkClosure (index + 1) cs = .ok () :=
        ih.mpr fun d hd => h d (List.mem_cons_of_mem c hd)
      split
      · exact hrest
      · rename_i s hsome
        obtain ⟨stop, h1, h2, h3⟩ := hhead.mp hsome
        refine bind_ok.mpr ⟨none, Check.lift_ok.mpr (firstLeak_none_iff.mpr fun n h4 h5 => ?_), hrest⟩
        exact h c List.mem_cons_self stop s h1 h2 h3 n (by omega) (by omega)

/-! ## One definition -/

theorem present_iff {cs : List Citation} {ms : List (Option Material)} {materials : List Material}
    (hlen : cs.length = ms.length) :
    present cs ms = .ok materials ↔ ms = materials.map some := by
  unfold present
  induction cs generalizing ms materials with
  | nil =>
    cases ms with
    | nil =>
      cases materials with
      | nil => exact ⟨fun _ => rfl, fun _ => rfl⟩
      | cons m ms => exact ⟨fun h => (by cases h), fun h => (by cases h)⟩
    | cons m ms => cases hlen
  | cons c cs ih =>
    cases ms with
    | nil => cases hlen
    | cons m ms =>
      rw [List.zip_cons_cons, List.mapM_cons, bind_ok]
      simp only [bind_ok]
      have hlen' : cs.length = ms.length := by simpa using hlen
      constructor
      · rintro ⟨a, ha, rest, hrest, h⟩
        cases m with
        | none => cases ha
        | some m =>
          cases ha
          cases h
          rw [(ih hlen').mp hrest]
          rfl
      · intro h
        cases materials with
        | nil => cases h
        | cons a rest =>
          obtain ⟨rfl, hrest⟩ := List.cons.inj h
          exact ⟨a, rfl, rest, (ih hlen').mpr hrest, rfl⟩

/-- The steps for one definition pass where the citations lead to sentences and subproofs that are
there, nothing cited is invalid, the rule takes them to the sentence, and the subproofs that it
discharges are closed. -/
theorem applyDefinition_iff {p : Pass} {done : List Diagnostic} {number : Nat} {sentence : Sentence}
    {cs : List Citation} {d : RuleDefinition} :
    p.applyDefinition done number sentence cs d = .ok () ↔
      ∃ materials, List.Forall₂ (p.Resolved number d.transfer) cs (materials.map some) ∧
        (∀ c ∈ cs, ∀ n, c.start ≤ n → n ≤ c.last → Sustained done n) ∧
        (∃ b, d.apply materials sentence = .ok b) ∧
        (d.worldClosed = true → p.checkClosure 0 cs = .ok ()) := by
  unfold applyDefinition
  simp only [bind_ok, resolveAll_iff]
  constructor
  · rintro ⟨ms, hms, ⟨⟩, hdep, materials, hpres, b, hb, hclosed⟩
    rw [present_iff hms.length_eq] at hpres
    subst hpres
    refine ⟨materials, hms, checkDependencies_iff.mp hdep, ⟨b, ?_⟩, ?_⟩
    · cases hap : d.apply materials sentence with
      | error e => rw [hap] at hb; cases hb
      | ok b' => rw [hap] at hb; cases hb; rfl
    · intro hw
      rwa [if_pos hw] at hclosed
  · rintro ⟨materials, hms, hdep, ⟨b, hb⟩, hclosed⟩
    refine ⟨_, hms, (), checkDependencies_iff.mpr hdep, materials, (present_iff hms.length_eq).mpr rfl,
      b, by rw [hb]; rfl, ?_⟩
    split
    · rename_i hw
      exact hclosed hw
    · rfl

end Pass

end ModalFitch
