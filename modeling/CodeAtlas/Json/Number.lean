import CodeAtlas.Json.Basic

/-!
# Reading JSON numbers

A number without point and exponent is whole while it fits 64 bits. Every other number becomes a
floating-point value in two roundings: the leading digits, as many as fit 64 bits, are rounded
first, and the product or quotient with the power of ten is rounded again. A value beyond the
largest one is refused.
-/

namespace CodeAtlas.JsonNumber

open Numeric (Floating Format)

def unsignedMax : Nat := Nat.pow 2 64 - 1

/-- The largest exponent of ten that is read without saturating. -/
def exponentMax : Nat := Nat.pow 2 31 - 1

def digitValue (c : Char) : Nat := c.toNat - '0'.toNat

/-- The number written by decimal digits. -/
def ofDigits (ds : List Char) : Nat := ds.foldl (fun n c => n * 10 + digitValue c) 0

/-- The digits of a number gathered so far: the significand, the power of ten it is short of, and
whether it has stopped growing. -/
structure Significand where
  value : Nat := 0
  exponent : Int := 0
  full : Bool := false

/-- A digit before the point: once the significand is full, each further digit counts as a power of
ten. -/
def Significand.whole (s : Significand) (c : Char) : Significand :=
  let next := s.value * 10 + digitValue c
  if s.full || unsignedMax < next then { s with exponent := s.exponent + 1, full := true }
  else { s with value := next }

/-- A digit after the point: once one does not fit, all further digits are dropped. -/
def Significand.fraction (s : Significand) (c : Char) : Significand :=
  let next := s.value * 10 + digitValue c
  if s.full || unsignedMax < next then { s with full := true }
  else { s with value := next, exponent := s.exponent - 1 }

/-- The nearest value to a power of ten. -/
def powerOfTen (k : Nat) : Option (Floating .double) :=
  Floating.round .double false (Nat.pow 10 k) 1

/-- `x / 10 ^ k`, in steps of at most `10 ^ 308`, each rounded. -/
def dividedByTens (x : Floating .double) (k : Nat) : Option (Floating .double) :=
  let step (k : Nat) : Option (Floating .double) := do
    let p ← powerOfTen k
    let (a, b) := x.magnitude
    let (c, d) := p.magnitude
    Floating.round .double x.negative (a * d) (b * c)
  if k ≤ 308 then step k
  else if x.isZero then some x
  else do
    let y ← step 308
    dividedByTens y (k - 308)
termination_by k

/-- `± value * 10 ^ exponent`, nothing when it is out of range. -/
def scaled (negative : Bool) (value : Nat) (exponent : Int) : Option (Floating .double) := do
  let x ← Floating.round .double negative value 1
  match exponent with
  | .ofNat k =>
    if x.isZero then return x
    if 308 < k then none
    let p ← powerOfTen k
    let (a, b) := x.magnitude
    let (c, d) := p.magnitude
    Floating.round .double negative (a * c) (b * d)
  | .negSucc k => dividedByTens x (k + 1)

/-- The parts of a number as written. -/
structure Parts where
  negative : Bool
  whole : List Char
  fraction : List Char
  /-- The exponent's sign and digits. -/
  exponent : Option (Bool × List Char)

/-- The value of a number from its parts. -/
def ofParts (p : Parts) : Option JsonNumber :=
  if p.fraction.isEmpty && p.exponent.isNone then
    let n := ofDigits p.whole
    if !p.negative && n ≤ unsignedMax then some (.int n)
    else if p.negative && 0 < n && n ≤ Nat.pow 2 63 then some (.int (-n))
    else
      let s : Significand := p.whole.foldl .whole {}
      (scaled p.negative s.value s.exponent).map .real
  else
    let s : Significand := p.whole.foldl .whole {}
    let s := p.fraction.foldl .fraction { s with full := false }
    match p.exponent with
    | none => (scaled p.negative s.value s.exponent).map .real
    | some (minus, ds) =>
      let e := ofDigits ds
      if exponentMax < e then
        if s.value = 0 || minus then some (.real (.zero .double p.negative)) else none
      else
        (scaled p.negative s.value (if minus then s.exponent - e else s.exponent + e)).map .real

end CodeAtlas.JsonNumber
