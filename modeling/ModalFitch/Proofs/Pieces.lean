import Mathlib.Data.List.Infix
import Mathlib.Data.Nat.Digits.Defs
import Mathlib.Tactic.Ring
import ModalFitch.Justification

/-! How a justification text is cut into pieces.

* `Text.numeral`: the written form of a number, which is read back as the number.
* `Justification.join_cases`: what a dash between two digits becomes. Joining leaves every run of
  digits as it is, and leaves plain hyphens only between two digits.
* `Justification.mem_pieces`: a piece is a part of the joined text without separators.
* `Justification.pieces_rejoined`: a label and citations written one after the other are cut into the
  same label and citations, unless the label ends in a digit and a dash. -/

namespace ModalFitch
set_option autoImplicit false

/-! ## Numerals -/

namespace Text

theorem digitValue?_decimal {c : Char} (h : c.isDigit = true) : digitValue? c = some (c.toNat - 48) := by
  have hbound : 48 ≤ c.toNat ∧ c.toNat < 58 := by
    simp only [Char.isDigit, Bool.and_eq_true, decide_eq_true_eq, ge_iff_le,
      UInt32.le_iff_toNat_le] at h
    unfold Char.toNat
    exact ⟨h.1, Nat.lt_succ_of_le h.2⟩
  unfold digitValue? zeros
  rw [List.find?_cons_of_pos (by simpa using hbound)]
  rfl

theorem isDigit_decimal {c : Char} (h : c.isDigit = true) : isDigit c = true := by
  rw [isDigit, digitValue?_decimal h]
  rfl

theorem isBlank_digit {c : Char} (h : isDigit c = true) : isBlank c = false := by
  have hnone : ∀ z ∈ zeros, ∀ k < 10, isBlank (Char.ofNat (z + k)) = false := by decide +kernel
  rw [isDigit, digitValue?, Option.isSome_map, List.find?_isSome] at h
  obtain ⟨z, hz, hc⟩ := h
  rw [Bool.and_eq_true, decide_eq_true_eq, decide_eq_true_eq] at hc
  have := hnone z hz (c.toNat - z) (by omega)
  rwa [Nat.add_sub_cancel' hc.1, Char.ofNat_toNat] at this

/-- The written form of a number. -/
def numeral (n : Nat) : Text := ofChars (Nat.toDigits 10 n)

theorem ofChars_cons (c : Char) (cs : List Char) : ofChars (c :: cs) = .char c :: ofChars cs := rfl

theorem ofString_toString (n : Nat) : ofString (toString n) = numeral n := by
  show ofChars (Nat.repr n).toList = _
  rw [Nat.repr_eq_ofList_toDigits, String.toList_ofList]
  rfl

theorem toDigits_decimal {n : Nat} {c : Char} (h : c ∈ Nat.toDigits 10 n) : isDigit c = true :=
  isDigit_decimal (Nat.isDigit_of_mem_toDigits (by omega) (by omega) h)

theorem digitsValue_append (as bs : List Char) :
    digitsValue (as ++ bs) = digitsValue as * 10 ^ bs.length + digitsValue bs := by
  have hfold : ∀ (cs : List Char) (n : Nat),
      cs.foldl (fun n c => 10 * n + (digitValue? c).getD 0) n = n * 10 ^ cs.length + digitsValue cs := by
    intro cs
    induction cs with
    | nil => intro n; simp [digitsValue]
    | cons c cs ih =>
      intro n
      unfold digitsValue
      rw [List.foldl_cons, List.foldl_cons, ih, ih, List.length_cons, Nat.pow_succ]
      ring
  unfold digitsValue
  rw [List.foldl_append, hfold]
  rfl

theorem digitsValue_toDigits (n : Nat) : digitsValue (Nat.toDigits 10 n) = n := by
  have hfold : ∀ (cs : List Char) (k : Nat), (∀ c ∈ cs, c.isDigit = true) →
      cs.foldl (fun n c => 10 * n + (digitValue? c).getD 0) k = Nat.ofDigitChars 10 cs k := by
    intro cs
    induction cs with
    | nil => intro k _; rfl
    | cons c cs ih =>
      intro k hcs
      rw [List.foldl_cons, ih _ fun x hx => hcs x (List.mem_cons_of_mem c hx),
        digitValue?_decimal (hcs c List.mem_cons_self)]
      rfl
  unfold digitsValue
  rw [hfold _ _ fun c hc => Nat.isDigit_of_mem_toDigits (by omega) (by omega) hc]
  exact Nat.ofDigitChars_toDigits (by omega) (by omega)

theorem digitsValue_lt (ds : List Char) : digitsValue ds < 10 ^ ds.length := by
  induction ds using List.reverseRecOn with
  | nil => exact Nat.one_pos
  | append_singleton ds d ih =>
    have hd : digitsValue [d] < 10 := by
      change 10 * 0 + (digitValue? d).getD 0 < 10
      cases hv : digitValue? d with
      | none => exact Nat.succ_pos 9
      | some v =>
        obtain ⟨z, hz, rfl⟩ := Option.map_eq_some_iff.mp hv
        have := List.find?_some hz
        rw [Bool.and_eq_true, decide_eq_true_iff, decide_eq_true_iff] at this
        rw [Option.getD_some]
        omega
    rw [digitsValue_append, List.length_append, List.length_singleton, Nat.pow_one, Nat.pow_succ]
    omega

theorem length_toString (n : Nat) : (toString n).length = (Nat.toDigits 10 n).length := by
  show (Nat.repr n).length = _
  rw [Nat.repr_eq_ofList_toDigits, String.length_ofList]

theorem textOfInt_natCast (n : Nat) : textOfInt (n : Int) =
    if (Nat.toDigits 10 n).length ≤ maxDigits then .ok (toString n) else .error .unwritable := by
  unfold textOfInt
  rw [Int.natAbs_natCast]
  simp only [length_toString]
  rw [if_neg (by omega : ¬(n : Int) < 0)]

/-- Which numbers can be written. -/
theorem textOfInt_cases (i : Int) :
    (i.natAbs < 10 ^ maxDigits ∧ ∃ s, textOfInt i = .ok s) ∨
      (¬i.natAbs < 10 ^ maxDigits ∧ textOfInt i = .error .unwritable) := by
  have hdigits : (Nat.toDigits 10 i.natAbs).length ≤ maxDigits ↔ i.natAbs < 10 ^ maxDigits := by
    constructor
    · intro hle
      have hvalue := digitsValue_lt (Nat.toDigits 10 i.natAbs)
      rw [digitsValue_toDigits] at hvalue
      exact hvalue.trans_le (Nat.pow_le_pow_right (by omega) hle)
    · exact Nat.toDigits_length 10 i.natAbs maxDigits (by decide)
  unfold textOfInt
  simp only [length_toString, ← hdigits]
  by_cases h : (Nat.toDigits 10 i.natAbs).length ≤ maxDigits
  · exact .inl ⟨h, _, if_pos h⟩
  · exact .inr ⟨h, if_neg h⟩

end Text

/-! ## Joined dashes -/

namespace Justification

theorem not_blank_of_digit {p : CodePoint} (h : p.is Text.isDigit = true) :
    p.is Text.isBlank = false := by
  cases p with
  | char c => exact Text.isBlank_digit h
  | half _ => rfl

theorem not_dash_of_digit {p : CodePoint} (h : p.is Text.isDigit = true) :
    p.is isDash = false := by
  cases p with
  | char c =>
    change isDash c = false
    by_contra hd
    simp only [Bool.not_eq_false, isDash, Bool.or_eq_true, decide_eq_true_eq] at hd
    rcases hd with (rfl | rfl) | rfl <;> revert h <;> decide
  | half _ => rfl

theorem dashBefore?_cons_none {p : CodePoint} (t : Text) (hb : p.is Text.isBlank = false)
    (hd : p.is isDash = false) : dashBefore? (p :: t) = none := by
  unfold dashBefore?
  rw [List.dropWhile_cons_of_neg (by rw [hb]; decide)]
  simp only [hd]
  rfl

theorem dashBefore?_digit {p : CodePoint} (t : Text) (h : p.is Text.isDigit = true) :
    dashBefore? (p :: t) = none :=
  dashBefore?_cons_none t (not_blank_of_digit h) (not_dash_of_digit h)

theorem dashBefore?_blank {p : CodePoint} (t : Text) (h : p.is Text.isBlank = true) :
    dashBefore? (p :: t) = dashBefore? t := by
  unfold dashBefore?
  rw [List.dropWhile_cons_of_pos h]

theorem dashBefore?_dash {p q : CodePoint} (t : Text) (hp : p.is isDash = true)
    (hpb : p.is Text.isBlank = false) (hq : q.is Text.isBlank = false) :
    dashBefore? (p :: q :: t) = if q.is Text.isDigit then some (q :: t) else none := by
  unfold dashBefore?
  rw [List.dropWhile_cons_of_neg (by rw [hpb]; decide)]
  simp only [hp, if_true]
  rw [List.dropWhile_cons_of_neg (by rw [hq]; decide)]

theorem dashBefore?_cases {t rest : Text} (h : dashBefore? t = some rest) :
    (∃ p t', t = p :: t' ∧ rest <:+ t') ∧ ∃ q tail, rest = q :: tail ∧ q.is Text.isDigit = true := by
  unfold dashBefore? at h
  split at h
  · cases h
  · rename_i d rest₁ hd
    split at h
    · split at h
      · cases h
      · rename_i q tail hq
        split at h
        · rename_i hdigit
          cases h
          have hsuffix : d :: rest₁ <:+ t := hd ▸ List.dropWhile_suffix _
          have htail : q :: tail <:+ rest₁ := hq ▸ List.dropWhile_suffix _
          refine ⟨?_, q, tail, rfl, hdigit⟩
          obtain ⟨x, rfl⟩ := hsuffix
          cases x with
          | nil => exact ⟨d, rest₁, rfl, htail⟩
          | cons p x =>
            exact ⟨p, x ++ d :: rest₁, rfl,
              htail.trans ((List.suffix_cons d rest₁).trans (List.suffix_append x _))⟩
        · cases h
    · cases h

theorem join_skip {t rest : Text} (h : rest <:+ t) :
    joinDashesFrom false (t.length - rest.length) t = joinDashesFrom false 0 rest := by
  obtain ⟨x, rfl⟩ := h
  induction x with
  | nil => simp
  | cons p x ih =>
    have hlen : (p :: x ++ rest).length - rest.length = (x ++ rest).length - rest.length + 1 := by
      simp only [List.length_append, List.length_cons]
      omega
    rw [hlen, List.cons_append, joinDashesFrom, ih]

/-- A character is passed on, or a dash that a digit precedes and follows becomes a hyphen. -/
theorem join_cases (b : Bool) (p : CodePoint) (t : Text) :
    (joinDashesFrom b 0 (p :: t) = p :: joinDashesFrom (p.is Text.isDigit) 0 t ∧
        (b = true → dashBefore? (p :: t) = none)) ∨
      ∃ rest, b = true ∧ dashBefore? (p :: t) = some rest ∧ rest <:+ t ∧
        joinDashesFrom b 0 (p :: t) = .char '-' :: joinDashesFrom false 0 rest := by
  rw [joinDashesFrom]
  split
  · rename_i rest h
    split at h
    · rename_i hb
      obtain ⟨⟨p', t', e, hrest⟩, -⟩ := dashBefore?_cases h
      cases e
      exact .inr ⟨rest, hb, h, hrest, by rw [join_skip hrest]⟩
    · cases h
  · rename_i h
    refine .inl ⟨rfl, fun hb => ?_⟩
    rwa [if_pos hb] at h

/-- Induction along the joined text: over what follows a character that is passed on, and over what
follows a dash. -/
theorem join_induction {motive : Bool → Text → Prop} (nil : ∀ b, motive b [])
    (pass : ∀ b p t, joinDashesFrom b 0 (p :: t) = p :: joinDashesFrom (p.is Text.isDigit) 0 t →
      (b = true → dashBefore? (p :: t) = none) → motive (p.is Text.isDigit) t → motive b (p :: t))
    (dash : ∀ b p t rest, dashBefore? (p :: t) = some rest → rest <:+ t →
      joinDashesFrom b 0 (p :: t) = .char '-' :: joinDashesFrom false 0 rest →
      motive false rest → motive b (p :: t)) (b : Bool) (t : Text) : motive b t := by
  obtain ⟨n, hn⟩ : ∃ n, t.length ≤ n := ⟨_, Nat.le_refl _⟩
  induction n generalizing b t with
  | zero =>
    cases List.eq_nil_of_length_eq_zero (Nat.le_zero.mp hn)
    exact nil b
  | succ n ih =>
    cases t with
    | nil => exact nil b
    | cons p t =>
      have hlen : t.length ≤ n := by simpa using hn
      rcases join_cases b p t with ⟨h, hnone⟩ | ⟨rest, -, hdash, hrest, h⟩
      · exact pass b p t h hnone (ih _ t hlen)
      · exact dash b p t rest hdash hrest h (ih false rest (hrest.length_le.trans hlen))

theorem join_pass (p : CodePoint) (t : Text) :
    joinDashesFrom false 0 (p :: t) = p :: joinDashesFrom (p.is Text.isDigit) 0 t := by
  rcases join_cases false p t with ⟨h, -⟩ | ⟨_, h, -⟩
  · exact h
  · cases h

/-- Blanks and dashes that no digit precedes are passed on. -/
theorem join_dropWhile (t : Text) : (joinDashesFrom false 0 t).dropWhile (·.is Text.isBlank) =
    joinDashesFrom false 0 (t.dropWhile (·.is Text.isBlank)) := by
  induction t with
  | nil => rfl
  | cons p t ih =>
    rw [join_pass]
    by_cases hb : p.is Text.isBlank = true
    · have hd : p.is Text.isDigit = false := by
        by_contra hd
        rw [not_blank_of_digit (by simpa using hd)] at hb
        cases hb
      rw [List.dropWhile_cons_of_pos hb, List.dropWhile_cons_of_pos hb, hd, ih]
    · rw [List.dropWhile_cons_of_neg hb, List.dropWhile_cons_of_neg hb, join_pass]

theorem dashBefore?_join (t : Text) :
    dashBefore? (joinDashesFrom false 0 t) = (dashBefore? t).map (joinDashesFrom false 0) := by
  unfold dashBefore?
  rw [join_dropWhile]
  cases t.dropWhile (·.is Text.isBlank) with
  | nil => rfl
  | cons d rest =>
    rw [join_pass]
    dsimp only
    split
    · rename_i hd
      have hdigit : d.is Text.isDigit = false := by
        by_contra h
        rw [not_dash_of_digit (by simpa using h)] at hd
        cases hd
      rw [hdigit, join_dropWhile]
      cases rest.dropWhile (·.is Text.isBlank) with
      | nil => rfl
      | cons q tail =>
        rw [join_pass]
        dsimp only
        split
        · rw [Option.map_some, join_pass]
        · rfl
    · rfl

/-- Every dash between two digits is a plain hyphen without blanks around it. -/
def Settled (t : Text) : Prop :=
  ∀ q s rest, q :: s <:+ t → q.is Text.isDigit = true → dashBefore? s = some rest →
    s = .char '-' :: rest

theorem settled_cons {p : CodePoint} {t : Text} (ht : Settled t)
    (hp : p.is Text.isDigit = true → ∀ rest, dashBefore? t = some rest → t = .char '-' :: rest) :
    Settled (p :: t) := by
  intro q s rest hs hq hdash
  rcases List.suffix_cons_iff.mp hs with e | hs
  · cases e
    exact hp hq rest hdash
  · exact ht q s rest hs hq hdash

theorem settled_cons_of_not_digit {p : CodePoint} {t : Text} (hp : p.is Text.isDigit = false)
    (ht : Settled t) : Settled (p :: t) :=
  settled_cons ht fun h => by rw [hp] at h; cases h

theorem settled_nil : Settled [] := by
  intro q s rest hs
  cases List.suffix_nil.mp hs

theorem dashBefore?_append {s rest : Text} (h : dashBefore? s = some rest) (y : Text) :
    dashBefore? (s ++ y) = some (rest ++ y) := by
  have hdrop : ∀ {t : Text} {p : CodePoint} {r : Text}, t.dropWhile (·.is Text.isBlank) = p :: r →
      (t ++ y).dropWhile (·.is Text.isBlank) = p :: (r ++ y) := by
    intro t p r ht
    rw [List.dropWhile_append, ht]
    rfl
  unfold dashBefore? at h ⊢
  split at h
  · cases h
  · rename_i d r hd
    rw [hdrop hd]
    dsimp only
    split at h
    · rename_i hdash
      rw [if_pos hdash]
      split at h
      · cases h
      · rename_i q tail hq
        rw [hdrop hq]
        dsimp only
        split at h
        · rename_i hdigit
          cases h
          rw [if_pos hdigit]
          rfl
        · cases h
    · cases h

theorem Settled.part {t u : Text} (ht : Settled t) (hu : u <:+: t) : Settled u := by
  obtain ⟨x, y, rfl⟩ := hu
  intro q s rest hs hq hdash
  have hlong : q :: (s ++ y) <:+ x ++ u ++ y := by
    obtain ⟨w, rfl⟩ := hs
    exact ⟨x ++ w, by simp⟩
  have := ht q (s ++ y) (rest ++ y) hlong hq (dashBefore?_append hdash y)
  rw [← List.cons_append] at this
  exact List.append_cancel_right this

/-- Joining the dashes of a settled text changes nothing. -/
theorem Settled.join_eq {t : Text} (ht : Settled t) : joinDashes t = t := by
  have hfrom : ∀ (t : Text) (b : Bool), Settled t →
      (b = true → ∀ rest, dashBefore? t = some rest → t = .char '-' :: rest) →
      joinDashesFrom b 0 t = t := by
    intro t
    induction t with
    | nil => intro b _ _; rfl
    | cons p t ih =>
      intro b ht hb
      have htail : Settled t := ht.part (List.suffix_cons p t).isInfix
      rcases join_cases b p t with ⟨h, -⟩ | ⟨rest, htrue, hdash, -, h⟩
      · rw [h, ih _ htail fun hp rest => ht p t rest List.suffix_rfl hp]
      · cases hb htrue rest hdash
        rw [h, ih false htail fun h => by cases h]
  exact hfrom t false ht fun h => by cases h

theorem join_settled (t : Text) : Settled (joinDashes t) := by
  -- After a digit, what has been joined must not begin with an unjoined dash either.
  have hfrom : ∀ b t, Settled (joinDashesFrom b 0 t) ∧ (b = true → ∀ rest,
      dashBefore? (joinDashesFrom b 0 t) = some rest → joinDashesFrom b 0 t = .char '-' :: rest) := by
    refine join_induction (fun _ => ⟨settled_nil, fun _ rest h => ?_⟩) ?_ ?_
    · cases h
    · rintro b p t h hnone ⟨hsettled, hopen⟩
      rw [h]
      refine ⟨settled_cons hsettled hopen, fun hb rest hdash => ?_⟩
      by_cases hp : p.is Text.isDigit = true
      · rw [dashBefore?_digit _ hp] at hdash
        cases hdash
      · rw [← join_pass, dashBefore?_join, hnone hb] at hdash
        cases hdash
    · rintro b p t rest hdash - h ⟨hsettled, -⟩
      rw [h]
      obtain ⟨-, q, tail, rfl, hq⟩ := dashBefore?_cases hdash
      refine ⟨settled_cons_of_not_digit rfl hsettled, fun _ rest' hdash' => ?_⟩
      rw [join_pass, dashBefore?_dash _ rfl rfl (not_blank_of_digit hq), if_pos hq] at hdash'
      rw [join_pass]
      cases hdash'
      rfl
  exact (hfrom false t).1

/-! ## Cutting and rejoining -/

/-- Whether a text ends in a digit and a dash. -/
def openEnded (t : Text) : Bool :=
  match t.reverse with
  | p :: q :: _ => p.is isDash && q.is Text.isDigit
  | _ => false

/-- A text that stands between separators: it has none itself, and its dashes are joined. -/
structure IsPiece (x : Text) : Prop where
  nonempty : x ≠ []
  closed : ∀ p ∈ x, p.is isSeparator = false
  settled : Settled x

theorem not_blank_of_not_separator {p : CodePoint} (h : p.is isSeparator = false) :
    p.is Text.isBlank = false := by
  cases p with
  | char c =>
    simp only [CodePoint.is, isSeparator, Bool.or_eq_false_iff] at h
    exact h.2
  | half _ => rfl

/-- A piece stays settled before a text that continues no range. -/
theorem IsPiece.settled_append {x y : Text} (hx : IsPiece x) (hend : openEnded x = false)
    (hy : Settled y) (hnone : dashBefore? y = none) : Settled (x ++ y) := by
  intro q s rest hs hq hdash
  obtain ⟨w, hw⟩ := hs
  rcases List.append_eq_append_iff.mp hw with ⟨s', hx', hs'⟩ | ⟨w', -, hy'⟩
  · cases s' with
    | nil => exact hy q s rest ⟨[], hs'⟩ hq hdash
    | cons q' s' =>
      rw [List.cons_append] at hs'
      obtain ⟨rfl, rfl⟩ := List.cons.inj hs'
      have hblank : ∀ p ∈ s', p.is Text.isBlank = false := fun p hp =>
        not_blank_of_not_separator (hx.closed p (by rw [hx']; simp [hp]))
      match s' with
      | [] =>
        rw [List.nil_append, hnone] at hdash
        cases hdash
      | p :: s'' =>
        have hp := hblank p List.mem_cons_self
        by_cases hd : p.is isDash = true
        · match s'' with
          | [] =>
            rw [hx', openEnded] at hend
            simp [hd, hq] at hend
          | r :: tail =>
            have hr := hblank r (by simp)
            rw [List.cons_append, List.cons_append, dashBefore?_dash _ hd hp hr] at hdash
            split at hdash
            · rename_i hdigit
              cases hdash
              have hinside : dashBefore? (p :: r :: tail) = some (r :: tail) := by
                rw [dashBefore?_dash _ hd hp hr, if_pos hdigit]
              cases hx.settled q _ _ ⟨w, hx'.symm⟩ hq hinside
              rfl
            · cases hdash
        · rw [List.cons_append, dashBefore?_cons_none _ hp (by simpa using hd)] at hdash
          cases hdash
  · exact hy q s rest ⟨w', hy'.symm⟩ hq hdash

theorem piecesFrom_append {x : Text} (hx : ∀ p ∈ x, p.is isSeparator = false) (current y : Text) :
    piecesFrom current (x ++ y) = piecesFrom (x.reverse ++ current) y := by
  induction x generalizing current with
  | nil => rfl
  | cons p x ih =>
    rw [List.cons_append, piecesFrom, if_neg (by rw [hx p List.mem_cons_self]; decide),
      ih fun q hq => hx q (List.mem_cons_of_mem p hq)]
    simp

theorem IsPiece.piecesFrom_self {x : Text} (hx : IsPiece x) : piecesFrom [] x = [x] := by
  have := piecesFrom_append hx.closed [] []
  rw [List.append_nil, List.append_nil, piecesFrom] at this
  rw [this, if_neg (by simpa using hx.nonempty), List.reverse_reverse]

theorem IsPiece.piecesFrom_cons {x : Text} (hx : IsPiece x) {p : CodePoint}
    (hp : p.is isSeparator = true) (y : Text) :
    piecesFrom [] (x ++ p :: y) = x :: piecesFrom [] y := by
  rw [piecesFrom_append hx.closed, List.append_nil, piecesFrom, if_pos hp,
    if_neg (by simpa using hx.nonempty), List.reverse_reverse]

theorem mem_piecesFrom {current t x : Text} (hx : x ∈ piecesFrom current t)
    (hcurrent : ∀ p ∈ current, p.is isSeparator = false) :
    x ≠ [] ∧ (∀ p ∈ x, p.is isSeparator = false) ∧ x <:+: current.reverse ++ t := by
  induction t generalizing current with
  | nil =>
    rw [piecesFrom] at hx
    split at hx
    · cases hx
    · rename_i hne
      cases List.mem_singleton.mp hx
      refine ⟨by simpa using hne, by simpa using hcurrent, ?_⟩
      rw [List.append_nil]
  | cons p t ih =>
    have hskip : current.reverse ++ p :: t = current.reverse ++ [p] ++ t := by simp
    rw [piecesFrom] at hx
    split at hx
    · have hlater : x ∈ piecesFrom [] t → x ≠ [] ∧ (∀ p ∈ x, p.is isSeparator = false) ∧
          x <:+: current.reverse ++ p :: t := by
        intro hx
        obtain ⟨hne, hclosed, hpart⟩ := ih hx fun _ h => by cases h
        refine ⟨hne, hclosed, hpart.trans ?_⟩
        rw [hskip]
        exact (List.suffix_append _ t).isInfix
      split at hx
      · exact hlater hx
      · rename_i hne
        rcases List.mem_cons.mp hx with rfl | hx
        · exact ⟨by simpa using hne, by simpa using hcurrent, (List.prefix_append _ _).isInfix⟩
        · exact hlater hx
    · rename_i hp
      obtain ⟨hne, hclosed, hpart⟩ := ih hx fun q hq => by
        rcases List.mem_cons.mp hq with rfl | hq
        · simpa using hp
        · exact hcurrent q hq
      exact ⟨hne, hclosed, by simpa using hpart⟩

theorem trim_part (t : Text) : t.trim <:+: t := by
  have hfront : t.trim <+: t.dropWhile (·.is Text.isBlank) := by
    have := List.dropWhile_suffix (l := (t.dropWhile (·.is Text.isBlank)).reverse) (·.is Text.isBlank)
    rw [← List.reverse_prefix, List.reverse_reverse] at this
    exact this
  exact hfront.isInfix.trans (List.dropWhile_suffix _).isInfix

/-- What a piece of a text is: a part of the joined text without separators. -/
theorem mem_pieces {t x : Text} (hx : x ∈ pieces t) : IsPiece x ∧ x <:+: joinDashes t.trim := by
  obtain ⟨hne, hclosed, hpart⟩ := mem_piecesFrom hx fun _ h => by cases h
  exact ⟨⟨hne, hclosed, (join_settled t.trim).part hpart⟩, hpart⟩

/-- A piece that may stand among citations: it neither begins with a dash nor leaves one open. -/
structure IsCitationPiece (x : Text) : Prop extends IsPiece x where
  head : ∀ p t, x = p :: t → p.is isDash = false
  last : openEnded x = false

theorem IsCitationPiece.dashBefore?_none {x : Text} (hx : IsCitationPiece x) (y : Text) :
    dashBefore? (x ++ y) = none := by
  cases x with
  | nil => exact absurd rfl hx.nonempty
  | cons p t =>
    exact dashBefore?_cons_none _ (not_blank_of_not_separator (hx.closed p List.mem_cons_self))
      (hx.head p t rfl)

theorem ofString_comma : Text.ofString ", " = [.char ',', .char ' '] := rfl

/-- Citations that are written one after the other are settled, and are cut apart again. -/
theorem citations_settled {x : Text} {xs : List Text} (hx : IsCitationPiece x)
    (hxs : ∀ x ∈ xs, IsCitationPiece x) :
    Settled ((Text.ofString ", ").intercalate (x :: xs)) ∧
      piecesFrom [] ((Text.ofString ", ").intercalate (x :: xs)) = x :: xs := by
  induction xs generalizing x with
  | nil =>
    rw [List.intercalate_singleton]
    exact ⟨hx.settled, hx.piecesFrom_self⟩
  | cons x' xs ih =>
    obtain ⟨hsettled, hpieces⟩ := ih (hxs x' List.mem_cons_self) fun y hy =>
      hxs y (List.mem_cons_of_mem x' hy)
    rw [List.intercalate_cons_cons, ofString_comma, List.append_assoc]
    constructor
    · exact hx.settled_append hx.last
        (settled_cons_of_not_digit rfl (settled_cons_of_not_digit rfl hsettled))
        (dashBefore?_cons_none _ rfl rfl)
    · rw [List.cons_append, hx.piecesFrom_cons rfl]
      exact congrArg (x :: ·) hpieces

theorem trim_eq_self {t : Text} (hhead : ∀ p s, t = p :: s → p.is Text.isBlank = false)
    (hlast : ∀ p s, t = s ++ [p] → p.is Text.isBlank = false) : t.trim = t := by
  have hdrop : ∀ s : Text, (∀ p s', s = p :: s' → p.is Text.isBlank = false) →
      s.dropWhile (·.is Text.isBlank) = s := by
    intro s hs
    cases s with
    | nil => rfl
    | cons p s => rw [List.dropWhile_cons_of_neg (by rw [hs p s rfl]; decide)]
  unfold Text.trim Text.trimWith
  rw [hdrop t hhead, hdrop t.reverse, List.reverse_reverse]
  intro p s e
  refine hlast p s.reverse ?_
  rw [← List.reverse_reverse t, e, List.reverse_cons]

/-- The last character of citations that are written one after the other. -/
theorem citations_last {x : Text} {xs : List Text} (hx : IsPiece x) (hxs : ∀ x ∈ xs, IsPiece x) :
    ∃ s p, (Text.ofString ", ").intercalate (x :: xs) = s ++ [p] ∧ p.is isSeparator = false := by
  induction xs generalizing x with
  | nil =>
    rw [List.intercalate_singleton]
    refine ⟨x.dropLast, x.getLast hx.nonempty, (List.dropLast_append_getLast _).symm, ?_⟩
    exact hx.closed _ (List.getLast_mem hx.nonempty)
  | cons x' xs ih =>
    obtain ⟨s, p, e, hp⟩ := ih (hxs x' List.mem_cons_self) fun y hy =>
      hxs y (List.mem_cons_of_mem x' hy)
    rw [List.intercalate_cons_cons, e, ← List.append_assoc]
    exact ⟨_, p, rfl, hp⟩

/-- A label and citations written one after the other are cut into the same label and citations,
unless the label ends in a digit and a dash. -/
theorem pieces_rejoined {rule x : Text} {xs : List Text} (hrule : IsPiece rule)
    (hend : openEnded rule = false) (hx : IsCitationPiece x) (hxs : ∀ x ∈ xs, IsCitationPiece x) :
    pieces (rule ++ Text.ofString " " ++ (Text.ofString ", ").intercalate (x :: xs)) =
      rule :: x :: xs := by
  obtain ⟨hsettled, hpieces⟩ := citations_settled hx hxs
  obtain ⟨s, p, hlast, hp⟩ := citations_last hx.toIsPiece fun y hy => (hxs y hy).toIsPiece
  have hdash : dashBefore? ((Text.ofString ", ").intercalate (x :: xs)) = none := by
    cases xs with
    | nil =>
      rw [List.intercalate_singleton]
      simpa using hx.dashBefore?_none []
    | cons x' xs =>
      rw [List.intercalate_cons_cons, List.append_assoc]
      exact hx.dashBefore?_none _
  generalize (Text.ofString ", ").intercalate (x :: xs) = tail at *
  have hspace : rule ++ Text.ofString " " ++ tail = rule ++ .char ' ' :: tail := by
    rw [List.append_assoc]
    rfl
  have htrim : (rule ++ .char ' ' :: tail).trim = rule ++ .char ' ' :: tail := by
    refine trim_eq_self (fun q t e => ?_) fun q t e => ?_
    · cases rule with
      | nil => exact absurd rfl hrule.nonempty
      | cons r rule =>
        cases e
        exact not_blank_of_not_separator (hrule.closed _ List.mem_cons_self)
    · rw [hlast, ← List.cons_append, ← List.append_assoc] at e
      cases (List.append_inj' e rfl).2
      exact not_blank_of_not_separator hp
  have hwhole : Settled (rule ++ .char ' ' :: tail) :=
    hrule.settled_append hend (settled_cons_of_not_digit rfl hsettled)
      (by rw [dashBefore?_blank _ rfl, hdash])
  rw [hspace, pieces, htrim, hwhole.join_eq, hrule.piecesFrom_cons rfl, hpieces]

end Justification

end ModalFitch
