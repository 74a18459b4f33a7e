import PrimalDual.Decimal.Rounding

/-!
# Binary floating-point numbers as exact quotients

A finite floating-point number is `± mantissa · 2 ^ exponent`. This module takes a binary64 number
apart into that form, puts the nearest binary64 number of an exact quotient together again, and rounds
to the narrower storage formats.

* `Precision` — the three storage formats.
* `Dyadic` — an exact value `± mantissa · 2 ^ exponent`.
* `Reading` — what a floating-point number stands for: a `Dyadic`, an infinity, or not a number.
* `Reading.ofFloat`, `nearestFloat`, `Precision.narrow` — the conversions.
-/

namespace PrimalDual

/-- The storage formats of floating-point numbers, of 16, 32 and 64 bits. -/
inductive Precision where
  | half
  | single
  | double
  deriving DecidableEq, Repr, Inhabited

namespace Precision

/-- The number of significant binary digits that a format keeps. -/
def digits : Precision → Nat
  | half => 11
  | single => 24
  | double => 53

/-- The exponent of the smallest positive number of a format, a power of two. -/
def minExponent : Precision → Int
  | half => -24
  | single => -149
  | double => -1074

/-- A format with more digits holds every number of one with fewer. -/
def join (p q : Precision) : Precision :=
  if p.digits ≤ q.digits then q else p

end Precision

/-- The exact value `± mantissa · 2 ^ exponent`. -/
structure Dyadic where
  negative : Bool
  mantissa : Nat
  exponent : Int
  deriving DecidableEq, Repr, Inhabited

/-- What a floating-point number stands for. -/
inductive Reading where
  | finite (value : Dyadic)
  | infinite (negative : Bool)
  | notANumber
  deriving Repr, Inhabited

/-- Takes a binary64 number apart: one sign bit, eleven exponent bits, fifty-two fraction bits. -/
def Reading.ofFloat (x : Float) : Reading :=
  let bits := x.toBits.toNat
  let negative : Bool := bits / Nat.pow 2 63 % 2 == 1
  let biased : Nat := bits / Nat.pow 2 52 % Nat.pow 2 11
  let fraction : Nat := bits % Nat.pow 2 52
  if biased = 2047 then
    if fraction = 0 then .infinite negative else .notANumber
  else if biased = 0 then .finite ⟨negative, fraction, -1074⟩
  else .finite ⟨negative, fraction + Nat.pow 2 52, (biased : Int) - 1075⟩

namespace Dyadic

/-- The magnitude as a quotient of natural numbers. -/
def quotient (v : Dyadic) : Nat × Nat :=
  scaleQuotient 2 v.mantissa 1 v.exponent

/--
The same value with the mantissa that format `p` would store: as few trailing zero bits as the
format's digits and smallest exponent allow. The value must be one of the format.
-/
def stored (p : Precision) (v : Dyadic) : Dyadic :=
  if v.mantissa = 0 then { v with exponent := p.minExponent }
  else
    let exponent := max (v.exponent + bitLength v.mantissa - p.digits) p.minExponent
    if v.exponent ≤ exponent then
      { v with
        mantissa := v.mantissa / Nat.pow 2 (exponent - v.exponent).toNat
        exponent := exponent }
    else
      { v with
        mantissa := v.mantissa * Nat.pow 2 (v.exponent - exponent).toNat
        exponent := exponent }

end Dyadic

/--
The binary64 number nearest to `± n / d`, ties to the even mantissa, infinite beyond the largest
finite number. The denominator is positive.
-/
def nearestFloat (negative : Bool) (n d : Nat) : Float :=
  let magnitude : Float :=
    if n = 0 then 0
    else
      -- `2 ^ (k - 1) < n / d < 2 ^ (k + 1)`; one comparison settles which power of two lies below
      let k : Int := (bitLength n : Int) - bitLength d
      let (a, b) := scaleQuotient 2 n d (-k)
      let top := if b ≤ a then k else k - 1
      if 1023 < top then 1 / 0
      else
        let exponent := max (top - 52) (-1074)
        let (a, b) := scaleQuotient 2 n d (-exponent)
        Float.scaleB (Float.ofNat (roundQuotient a b)) exponent
  if negative then -magnitude else magnitude

/-- The binary64 number nearest to an integer quotient with a non-zero denominator. -/
def nearestQuotient (n d : Int) : Float :=
  nearestFloat (decide (n < 0) != decide (d < 0)) n.natAbs d.natAbs

/-- The greatest integer not above a finite number, `none` for an infinity or a NaN. -/
def floorFloat? (x : Float) : Option Int :=
  match Reading.ofFloat x with
  | .finite v =>
    let (a, b) := v.quotient
    some (Int.fdiv (if v.negative then -(a : Int) else a) b)
  | _ => none

/--
Rounds a binary64 number to binary16. The spacing at `x` is a power of two; beyond `65520`, halfway
past the largest number, the result is infinite.
-/
def narrowHalf (x : Float) : Float :=
  match Reading.ofFloat x with
  | .finite v =>
    if v.mantissa = 0 then x
    else
      let exponent := max (v.exponent + bitLength v.mantissa - 11) (-24)
      let (a, b) := scaleQuotient 2 v.mantissa 1 (v.exponent - exponent)
      let m := roundQuotient a b
      let magnitude : Float := Float.scaleB (Float.ofNat m) exponent
      let magnitude := if 65520 ≤ magnitude then 1 / 0 else magnitude
      if v.negative then -magnitude else magnitude
  | _ => x

/-- Rounds a binary64 number to the nearest number of a format, ties to the even mantissa. -/
def Precision.narrow : Precision → Float → Float
  | .half, x => narrowHalf x
  | .single, x => x.toFloat32.toFloat
  | .double, x => x

end PrimalDual
