import PrimalDual.Decimal.Shortest

/-!
# How numbers are laid out as text

Digits become text in one of three layouts: the shortest text that reads back, a fixed number of
decimal places, or a fixed number of significant digits with an exponent.

* `plainText` — the shortest text, positional for exponents from `-4` to `15`.
* `fixedText`, `exponentText` — a given number of digits after the point.

A number whose digits are all zero is written without a minus sign by the last two.
-/

namespace PrimalDual

/-- Fills `s` with zeros on the left up to `width` characters. -/
def padZeros (width : Nat) (s : List Char) : List Char :=
  List.replicate (width - s.length) '0' ++ s

/-- An exponent: the letter `e`, a sign, at least two digits. -/
def exponentSuffix (e : Int) : List Char :=
  'e' :: (if e < 0 then '-' else '+') :: padZeros 2 (Decimal.digitsOf e.natAbs)

/-- The bounds of the positional layout: outside them an exponent is written. -/
def positionalRange (point : Int) : Bool :=
  decide (-4 < point) && decide (point ≤ 16)

namespace Decimal

/-- The digits before and after the point of the positional layout, at least one before it. -/
def positional (d : Decimal) : List Char × List Char :=
  if d.point ≤ 0 then (['0'], List.replicate (-d.point).toNat '0' ++ d.digits)
  else
    let k := d.point.toNat
    if k < d.digits.length then (d.digits.take k, d.digits.drop k)
    else (d.digits ++ List.replicate (k - d.digits.length) '0', [])

/-- The shortest text of a magnitude; a whole number written positionally keeps one zero place. -/
def plain (d : Decimal) : List Char :=
  if positionalRange d.point then
    let (whole, places) := d.positional
    whole ++ '.' :: (if places.isEmpty then ['0'] else places)
  else
    let places := d.digits.drop 1
    d.digits.take 1 ++ (if places.isEmpty then [] else '.' :: places) ++ exponentSuffix (d.point - 1)

end Decimal

/-- The words for the values that have no digits. -/
def infiniteText (negative : Bool) : String := if negative then "-inf" else "inf"

/-- The shortest text that reads back as the same number of format `p`: `1.0`, `1e-05`, `1e+16`, `inf`, `nan`. -/
def plainText (p : Precision) : Reading → String
  | .notANumber => "nan"
  | .infinite negative => infiniteText negative
  | .finite v =>
    let body := (v.shortest p).plain
    String.ofList (if v.negative then '-' :: body else body)

/-- The text with exactly `places` digits after the point. -/
def fixedText (places : Nat) : Reading → String
  | .notANumber => "nan"
  | .infinite negative => infiniteText negative
  | .finite v =>
    let c := v.toPlaces places
    let all := padZeros (places + 1) (Decimal.digitsOf c)
    let k := all.length - places
    let body := all.take k ++ '.' :: all.drop k
    String.ofList (if v.negative && c != 0 then '-' :: body else body)

/-- The text with one digit before the point, `places` after it, and an exponent. -/
def exponentText (places : Nat) : Reading → String
  | .notANumber => "nan"
  | .infinite negative => infiniteText negative
  | .finite v =>
    let (c, point) := v.toDigits (places + 1)
    let all := padZeros (places + 1) (Decimal.digitsOf c)
    let body := all.take 1 ++ '.' :: all.drop 1 ++ exponentSuffix (point - 1)
    String.ofList (if v.negative && c != 0 then '-' :: body else body)

end PrimalDual
