import PrimalDual.Decimal.Binary

/-!
# The shortest decimal that reads back

A decimal text of a floating-point number should be as short as possible and still name that number
and no other. The numbers that round to `x` form an interval around it; its ends belong to it exactly
when the mantissa of `x` is even. For `1, 2, …, 17` digits the two neighbours of `x` on the decimal
grid with that many digits are tried; the first grid with a neighbour inside the interval wins, and of
two such neighbours the nearer, ties going to the even digit.

* `Decimal` — the digits and the place of the decimal point.
* `Dyadic.shortest` — the shortest decimal of a stored number.
* `Dyadic.toPlaces` — the decimal with a fixed number of fractional digits.
* `Dyadic.toDigits` — the decimal with a fixed number of significant digits.
-/

namespace PrimalDual

/-- The value `0.d₁d₂…dₙ · 10 ^ point`, with the digits as one number and its length. -/
structure Decimal where
  /-- The digits, most significant first. -/
  digits : List Char
  /-- The place of the decimal point, counted from before the first digit. -/
  point : Int
  deriving Repr, Inhabited

namespace Decimal

/-- The decimal text of a natural number. -/
def digitsOf (n : Nat) : List Char := Nat.toDigits 10 n

/-- The value `n · 10 ^ e` with trailing zeros of `n` removed; zero has the one digit `0`. -/
def ofScaled (n : Nat) (e : Int) : Decimal :=
  let all := digitsOf n
  let kept := (all.reverse.dropWhile (· == '0')).reverse
  if kept.isEmpty then ⟨['0'], 1⟩ else ⟨kept, (all.length : Int) + e⟩

end Decimal

namespace Dyadic

/--
The nearer of the two neighbours of `a / b` on the grid `10 ^ g` that lie between `lo / b` and
`hi / b`, the ends included when `closed`; `none` when neither does.
-/
def gridHit (a lo hi b : Nat) (closed : Bool) (g : Int) : Option Nat :=
  -- everything is brought to the scale on which the grid is the integers
  let (v, u) := scaleQuotient 10 a b (-g)
  let (l, _) := scaleQuotient 10 lo b (-g)
  let (h, _) := scaleQuotient 10 hi b (-g)
  let inside (c : Nat) : Bool :=
    if closed then decide (l ≤ c * u) && decide (c * u ≤ h)
    else decide (l < c * u) && decide (c * u < h)
  let below := v / u
  let nearest := roundQuotient v u
  let other := if nearest = below then below + 1 else below
  if inside nearest then some nearest
  else if inside other then some other
  else none

/-- Tries the grids with `n`, `n + 1`, … digits, `fuel` of them. -/
def searchGrid (a lo hi b : Nat) (closed : Bool) (point : Int) : Nat → Int → Decimal
  | 0, n => Decimal.ofScaled (roundQuotient (scaleQuotient 10 a b (n - point)).1
      (scaleQuotient 10 a b (n - point)).2) (point - n)
  | fuel + 1, n =>
    match gridHit a lo hi b closed (point - n) with
    | some c => Decimal.ofScaled c (point - n)
    | none => searchGrid a lo hi b closed point fuel (n + 1)

/--
The shortest decimal that reads back as the magnitude of `v` in format `p`. The lower end of the
interval is a quarter of a unit away where `v` is a power of two, since the spacing halves there.
-/
def shortest (p : Precision) (v : Dyadic) : Decimal :=
  if v.mantissa = 0 then ⟨['0'], 1⟩
  else
    let s := v.stored p
    let narrow := s.mantissa = Nat.pow 2 (p.digits - 1) ∧ p.minExponent < s.exponent
    let m := 4 * s.mantissa
    let scale (n : Nat) : Nat := (scaleQuotient 2 n 1 (s.exponent - 2)).1
    let b := (scaleQuotient 2 1 1 (s.exponent - 2)).2
    let closed := s.mantissa % 2 = 0
    searchGrid (scale m) (scale (if narrow then m - 1 else m - 2)) (scale (m + 2)) b closed
      (decimalPosition (scale m) b) 17 1

/-- The magnitude times `10 ^ places`, rounded to an integer. -/
def toPlaces (places : Nat) (v : Dyadic) : Nat :=
  let (a, b) := v.quotient
  roundQuotient (a * Nat.pow 10 places) b

/--
The magnitude rounded to `digits` significant digits, as that integer and the place of its decimal
point. Rounding up to the next power of ten moves the point.
-/
def toDigits (digits : Nat) (v : Dyadic) : Nat × Int :=
  if v.mantissa = 0 then (0, 1)
  else
    let (a, b) := v.quotient
    let point := decimalPosition a b
    let (n, d) := scaleQuotient 10 a b (digits - point)
    let c := roundQuotient n d
    if c = Nat.pow 10 digits then (Nat.pow 10 (digits - 1), point + 1) else (c, point)

end Dyadic

end PrimalDual
