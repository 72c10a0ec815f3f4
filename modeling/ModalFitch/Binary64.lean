/-! Double-precision numbers, as exact values `mantissa · 2 ^ exponent`.

* `ofDecimal`: the double nearest to a decimal, ties to the even mantissa.
* `shortest`: the fewest decimal digits that read back as the same double, and of these the
  nearest to it.
* `text`: positional from `10 ^ -4` up to `10 ^ 16`, with an exponent outside.
* `truncate`: the whole number towards zero. -/

namespace ModalFitch
set_option autoImplicit false

/-- A finite number is `mantissa · 2 ^ exponent`; its mantissa has 53 bits, or fewer at the least
exponent. -/
inductive Binary64 where
  | finite (negative : Bool) (mantissa : Nat) (exponent : Int)
  | infinite (negative : Bool)
  | nan
deriving DecidableEq, Repr

namespace Binary64

def leastExponent : Int := -1074
def greatestExponent : Int := 971
def precision : Nat := 53

/-- A quotient rounded to the nearest whole number, a half to the even one. -/
def roundDiv (num den : Nat) : Nat :=
  let q := num / den
  let r := num % den
  if 2 * r < den then q
  else if den < 2 * r then q + 1
  else if q % 2 = 0 then q else q + 1

/-- The pair `num · b ^ e, den` with the power kept whole on either side. -/
def scale (b num den : Nat) (e : Int) : Nat × Nat :=
  if 0 ≤ e then (num * b.pow e.toNat, den) else (num, den * b.pow (-e).toNat)

/-- The exponent of the greatest power of two not above `num / den`. -/
def binaryLog (num den : Nat) : Int :=
  let e : Int := (num.log2 : Int) - den.log2
  let (n, d) := scale 2 num den (-e)
  if d ≤ n then e else e - 1

/-- The double nearest to `num / den`. -/
def ofRatio (negative : Bool) (num den : Nat) : Binary64 :=
  if num = 0 then .finite negative 0 leastExponent
  else
    let e := max (binaryLog num den - (precision - 1 : Nat)) leastExponent
    let (n, d) := scale 2 num den (-e)
    let m := roundDiv n d
    let (m, e) := if m = Nat.pow 2 precision then (Nat.pow 2 (precision - 1), e + 1) else (m, e)
    if greatestExponent < e then .infinite negative else .finite negative m e

/-- Decimals of this magnitude or more, as powers of ten, are beyond every finite double. -/
def decimalCeiling : Int := 310

/-- Decimals below this magnitude, as powers of ten, are nearer to zero than to any other
double. -/
def decimalFloor : Int := -330

/-- The double nearest to `digits · 10 ^ exponent`. -/
def ofDecimal (negative : Bool) (digits : Nat) (exponent : Int) : Binary64 :=
  let magnitude := (toString digits).length + exponent
  if digits = 0 ∨ magnitude < decimalFloor then .finite negative 0 leastExponent
  else if decimalCeiling < magnitude then .infinite negative
  else
    let (n, d) := scale 10 digits 1 exponent
    ofRatio negative n d

/-- The `p` with `10 ^ (p - 1) ≤ num / den < 10 ^ p`, from an estimate that is off by one at
most. -/
def decimalPoint (num den : Nat) : Int :=
  let p := binaryLog num den * 30103 / 100000 + 1
  let (n, d) := scale 10 num den (-p)
  if d ≤ n then p + 1
  else
    let (n, d) := scale 10 num den (-(p - 1))
    if n < d then p - 1 else p

/-- The `n`-digit decimal nearest to `num / den` among those strictly between `low / den` and
`high / den`, or at the ends where these are included; given as digits and a power of ten. -/
def nearestWith (num low high den : Nat) (closed : Bool) (point : Int) (n : Nat) :
    Option (Nat × Int) :=
  let e := point - n
  let (a, d) := scale 10 num den (-e)
  let (l, _) := scale 10 low den (-e)
  let (h, _) := scale 10 high den (-e)
  let fits (x : Nat) : Bool := if closed then l ≤ x * d && x * d ≤ h else l < x * d && x * d < h
  let below := a / d
  let above := below + 1
  match fits below, fits above with
  | true, true =>
    let low' := a - below * d
    let high' := above * d - a
    if low' < high' ∨ (low' = high' ∧ below % 2 = 0) then some (below, e) else some (above, e)
  | true, false => some (below, e)
  | false, true => some (above, e)
  | false, false => none

/-- The shortest decimal that reads back as `mantissa · 2 ^ exponent`. -/
def shortest (mantissa : Nat) (exponent : Int) : Nat × Int :=
  let down := if mantissa = Nat.pow 2 (precision - 1) ∧ leastExponent < exponent then 1 else 2
  let (num, den) := scale 2 (4 * mantissa) 1 (exponent - 2)
  let (low, _) := scale 2 (4 * mantissa - down) 1 (exponent - 2)
  let (high, _) := scale 2 (4 * mantissa + 2) 1 (exponent - 2)
  let point := decimalPoint num den
  let closed := mantissa % 2 = 0
  ((List.range 17).findSome? fun i => nearestWith num low high den closed point (i + 1)).getD
    (mantissa, 0)

/-- Trailing zeros moved from the digits into the power of ten. -/
def dropZeros : Nat → Nat → Int → Nat × Int
  | 0, d, e => (d, e)
  | fuel + 1, d, e => if d % 10 = 0 ∧ d ≠ 0 then dropZeros fuel (d / 10) (e + 1) else (d, e)

/-- The written form of `digits · 10 ^ exponent`. -/
def decimalText (digits : Nat) (exponent : Int) : String :=
  let ds := toString digits
  let point := ds.length + exponent
  if point ≤ -4 ∨ 16 < point then
    let head := String.ofList (ds.toList.take 1)
    let tail := String.ofList (ds.toList.drop 1)
    let mantissa := if tail.isEmpty then head else head ++ "." ++ tail
    let e := point - 1
    let shown := toString e.natAbs
    let padded := if shown.length < 2 then "0" ++ shown else shown
    mantissa ++ "e" ++ (if e < 0 then "-" else "+") ++ padded
  else if point ≤ 0 then "0." ++ String.ofList (List.replicate (-point).toNat '0') ++ ds
  else if ds.length ≤ point then ds ++ String.ofList (List.replicate (point - ds.length).toNat '0') ++ ".0"
  else
    String.ofList (ds.toList.take point.toNat) ++ "." ++ String.ofList (ds.toList.drop point.toNat)

def text : Binary64 → String
  | .nan => "nan"
  | .infinite negative => if negative then "-inf" else "inf"
  | .finite negative m e =>
    let sign := if negative then "-" else ""
    if m = 0 then sign ++ "0.0"
    else
      let (d, k) := shortest m e
      let (d, k) := dropZeros 17 d k
      sign ++ decimalText d k

def isZero : Binary64 → Bool
  | .finite _ m _ => m == 0
  | _ => false

/-- The whole part of `mantissa · 2 ^ exponent`, with its sign. -/
def truncate (negative : Bool) (mantissa : Nat) (exponent : Int) : Int :=
  let (n, d) := scale 2 mantissa 1 exponent
  if negative then -((n / d : Nat) : Int) else (n / d : Nat)

end Binary64

end ModalFitch
