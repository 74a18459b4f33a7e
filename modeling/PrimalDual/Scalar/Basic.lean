import PrimalDual.Decimal.Binary

/-!
# The numbers that arrays hold

Everything numerical in this library is written once, over a type of scalars with the operations
listed here. The running program instantiates them with binary64 numbers; reasoning in exact
arithmetic instantiates the same definitions with extended real numbers. Infinities and a value for
"not a number" belong to the interface, because indicator functionals, unbounded boxes and the
statistics of stopping criteria use them.

* `Scalar` — the operations.
* `Scalar.maximum`, `Scalar.minimum` — the larger and smaller of two numbers, NaN if either is.
* `Scalar.maxNum` — the larger of two numbers, the other one if one is NaN.
* `Scalar.sign`, `Scalar.sum` — the sign, and the sum of a list.
-/

namespace PrimalDual

/-- The operations on numbers that the arrays, operators and functionals of this library need. -/
class Scalar (α : Type) extends Add α, Sub α, Mul α, Div α, Neg α where
  /-- The number nearest to a quotient of integers with a non-zero denominator. -/
  ratio : Int → Int → α
  /-- Positive infinity. -/
  inf : α
  /-- Not a number. -/
  nan : α
  /-- The magnitude. -/
  abs : α → α
  /-- The square root, NaN below zero. -/
  sqrt : α → α
  /-- The power with a real exponent. -/
  pow : α → α → α
  /-- Strictly smaller; false when either is NaN. -/
  less : α → α → Bool
  /-- Smaller or equal; false when either is NaN. -/
  atMost : α → α → Bool
  /-- Whether this is not a number. -/
  isNan : α → Bool
  /-- The greatest integer not above a finite number. -/
  floor? : α → Option Int
  /-- Rounds to a storage format. -/
  narrow : Precision → α → α
  /-- The exact value, for writing the number as text. -/
  reading : α → Reading

namespace Scalar

variable {α : Type} [Scalar α]

/-- The number nearest to an integer. -/
def ofInt (n : Int) : α := ratio n 1

/-- The scalar zero. -/
def zero : α := ofInt 0

/-- The scalar one. -/
def one : α := ofInt 1

/-- Equal as numbers: both zeros are equal, and NaN equals nothing. -/
def same (x y : α) : Bool := atMost x y && atMost y x

/-- Whether this is an infinity. -/
def isInfinite (x : α) : Bool := same (abs x) inf

/-- The larger of two numbers, NaN when either is. -/
def maximum (x y : α) : α :=
  if isNan x then x else if isNan y then y else if less x y then y else x

/-- The smaller of two numbers, NaN when either is. -/
def minimum (x y : α) : α :=
  if isNan x then x else if isNan y then y else if less y x then y else x

/-- The larger of two numbers; when one is NaN, the other. -/
def maxNum (x y : α) : α :=
  if isNan x then y else if isNan y then x else if less x y then y else x

/-- The sign, `-1`, `0` or `1`; NaN stays NaN. -/
def sign (x : α) : α :=
  if isNan x then x else if less zero x then one else if less x zero then ofInt (-1) else zero

/-- The sum of a list of numbers, from the left. -/
def sum (xs : List α) : α := xs.foldl (· + ·) zero

end Scalar

end PrimalDual
