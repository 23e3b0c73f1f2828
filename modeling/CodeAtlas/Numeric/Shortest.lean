import CodeAtlas.Numeric.Floating

/-!
# The shortest decimal that reads back

Every real strictly between the two midpoints around a floating-point value rounds to that value,
and so do the midpoints themselves when the mantissa is even. A decimal with `n` digits is a point
of a grid whose step is a power of ten, and if any point of the grid lies in that interval then one
of the two grid points next to the value does. Trying one digit, two digits and so on therefore
finds the fewest digits.
-/

namespace CodeAtlas.Numeric

/-- The decimal digits of a number, the most significant first. -/
def digitsOf (n : Nat) : List Nat := (Nat.toDigits 10 n).map fun c => c.toNat - '0'.toNat

/-- A decimal `digits * 10 ^ exponent`, its digits taken as one whole number. -/
structure Decimal where
  digits : Nat
  exponent : Int
deriving DecidableEq, Repr

/-- `a / b * 10 ^ k` as a quotient. -/
def scaleByTen (a b : Nat) : Int → Nat × Nat
  | .ofNat k => (a * Nat.pow 10 k, b)
  | .negSucc k => (a, b * Nat.pow 10 (k + 1))

/-- The exponent `k` with `10 ^ k ≤ a / b < 10 ^ (k + 1)`, for a positive quotient. -/
def decimalExponent (a b : Nat) : Int :=
  let guess : Int := (digitsOf a).length - (digitsOf b).length
  let (p, q) := scaleByTen a b (-guess)
  if p < q then guess - 1 else guess

namespace Floating

variable {f : Format}

/-- The interval that rounds to a value, in quarters of its unit: the lower end, the value, the
upper end. Below a power of two the neighbour is half as far away. -/
def quarters (x : Floating f) : Nat × Nat × Nat :=
  let below := if x.mantissa = Nat.pow 2 f.precision ∧ 0 < x.exponent then 1 else 2
  (4 * x.mantissa - below, 4 * x.mantissa, 4 * x.mantissa + 2)

/-- Whether the decimal `d * 10 ^ k` rounds to the magnitude of `x`. -/
def admits (x : Floating f) (d : Nat) (k : Int) : Bool :=
  let (low, _, high) := x.quarters
  let (p, q) := scaleByTen d 1 k
  -- `p / q` against `quarter * 2 ^ exponent / (4 * 2 ^ scale)`
  let left := p * 4 * Nat.pow 2 f.scale
  let unit := q * Nat.pow 2 x.exponent
  if x.mantissa % 2 = 0 then low * unit ≤ left && left ≤ high * unit
  else low * unit < left && left < high * unit

/-- The admitted decimal of step `10 ^ k` nearest to `x`, if there is one. -/
def onGrid (x : Floating f) (k : Int) : Option Nat :=
  let (a, b) := x.magnitude
  let (p, q) := scaleByTen a b (-k)
  let d := p / q
  match x.admits d k, x.admits (d + 1) k with
  | true, true =>
    let r := p % q
    some (if 2 * r < q then d else if q < 2 * r then d + 1 else d + d % 2)
  | true, false => some d
  | false, true => some (d + 1)
  | false, false => none

/-- Tries grids of step `10 ^ k`, `10 ^ (k - 1)` and so on, at most `tries` of them. -/
def firstGrid (x : Floating f) : (tries : Nat) → (k : Int) → Decimal
  | 0, k => ⟨(x.onGrid k).getD 0, k⟩
  | tries + 1, k =>
    match x.onGrid k with
    | some d => ⟨d, k⟩
    | none => x.firstGrid tries (k - 1)

/-- The decimal with the fewest digits that rounds to the magnitude of `x`, the nearest one if
several have that many. Seventeen digits always suffice for the formats used here. -/
def shortest (x : Floating f) : Decimal :=
  if x.isZero then ⟨0, 0⟩
  else
    let (a, b) := x.magnitude
    x.firstGrid 17 (decimalExponent a b)

end Floating

/-- The same decimal without trailing zeros among its digits. -/
def Decimal.trim (d : Decimal) : Decimal :=
  let zeros := ((digitsOf d.digits).reverse.takeWhile (· == 0)).length
  if d.digits = 0 then ⟨0, 0⟩ else ⟨d.digits / Nat.pow 10 zeros, d.exponent + zeros⟩

/-- How a decimal is laid out as text: written positionally while the exponent of its first digit
lies in `[positionalFrom, positionalBelow)`, and with an exponent otherwise. -/
structure DecimalLayout where
  positionalFrom : Int
  positionalBelow : Int

/-- The text of a decimal. Positional text always has a point with a digit on either side; an
exponent always has a sign. -/
def DecimalLayout.write (layout : DecimalLayout) (negative : Bool) (d : Decimal) : String :=
  let d := d.trim
  let ds := toString d.digits
  let lead : Int := d.exponent + ds.length - 1
  let body :=
    if layout.positionalFrom ≤ lead && lead < layout.positionalBelow then
      if 0 ≤ d.exponent then
        ds ++ String.ofList (List.replicate d.exponent.toNat '0') ++ ".0"
      else if 0 ≤ lead then
        let whole := (lead + 1).toNat
        String.ofList (ds.toList.take whole) ++ "." ++ String.ofList (ds.toList.drop whole)
      else
        "0." ++ String.ofList (List.replicate (-lead - 1).toNat '0') ++ ds
    else
      let fraction := ds.toList.drop 1
      let mantissa := String.ofList (ds.toList.take 1)
        ++ (if fraction.isEmpty then "" else "." ++ String.ofList fraction)
      mantissa ++ "e" ++ (if lead < 0 then "-" else "+") ++ toString lead.natAbs
  (if negative then "-" else "") ++ body

end CodeAtlas.Numeric
