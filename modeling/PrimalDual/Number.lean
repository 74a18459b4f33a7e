import PrimalDual.Fault
import PrimalDual.Decimal.Layout
import PrimalDual.Scalar.Basic

/-!
# Parameters that are numbers

A parameter is a truth value, a whole number of any size, or a scalar. The three mix freely: truth
values count as `0` and `1`, whole numbers stay exact among themselves, and a whole number that meets a
scalar is rounded to one. Comparisons are exact in every combination.

* `Number` — a parameter.
* `Number.toReal` — the scalar nearest to it; a whole number beyond the range of scalars overflows.
* `Number.below`, `Number.atMost` — exact comparisons.
* `Number.add`, `sub`, `mul`, `div`, `square` — arithmetic.
-/

namespace PrimalDual

/-- A truth value, a whole number or a scalar. -/
inductive Number (α : Type) where
  | bool (b : Bool)
  | int (n : Int)
  | real (x : α)
  deriving Repr, Inhabited

namespace Number

variable {α : Type}

/-- The whole number behind a truth value or a whole number. -/
def whole? : Number α → Option Int
  | bool b => some (if b then 1 else 0)
  | int n => some n
  | real _ => none

variable [Scalar α]

/-- The scalar nearest to the number, without a bound on its size. -/
def value : Number α → α
  | bool b => if b then Scalar.one else Scalar.zero
  | int n => Scalar.ofInt n
  | real x => x

/-- The scalar nearest to the number. A whole number beyond the scalars overflows. -/
def toReal : Number α → Except Fault α
  | bool b => .ok (if b then Scalar.one else Scalar.zero)
  | int n =>
    let x : α := Scalar.ofInt n
    if Scalar.isInfinite x then .error .overflow else .ok x
  | real x => .ok x

/-- Whether a whole number is at most a scalar, compared exactly. -/
def intAtMost (n : Int) (x : α) : Bool :=
  match Scalar.floor? x with
  | some f => decide (n ≤ f)
  | none => Scalar.less Scalar.zero x

/-- Whether a scalar is at most a whole number, compared exactly. -/
def atMostInt (x : α) (n : Int) : Bool :=
  match Scalar.floor? (-x) with
  | some f => decide (-n ≤ f)
  | none => Scalar.less x Scalar.zero

/-- Whether one number is at most another, compared exactly; false when either is NaN. -/
def atMost (a b : Number α) : Bool :=
  match a, b with
  | real x, real y => Scalar.atMost x y
  | real x, b => atMostInt x (b.whole?.getD 0)
  | a, real y => intAtMost (a.whole?.getD 0) y
  | a, b => decide (a.whole?.getD 0 ≤ b.whole?.getD 0)

/-- Whether the number is NaN. -/
def isNan : Number α → Bool
  | real x => Scalar.isNan x
  | _ => false

/-- Whether one number lies strictly below another, compared exactly. -/
def below (a b : Number α) : Bool :=
  !a.isNan && !b.isNan && !atMost b a

/-- Whether two numbers are equal, compared exactly. -/
def equals (a b : Number α) : Bool := atMost a b && atMost b a

/-- Whether the number lies strictly above zero. -/
def isPositive (a : Number α) : Bool := below (int 0) a

/-- Whether the number is zero. -/
def isZero (a : Number α) : Bool := equals a (int 0)

/-- An operation that is exact on whole numbers and rounds on scalars. -/
def combine (onInt : Int → Int → Int) (onReal : α → α → α) (a b : Number α) :
    Except Fault (Number α) :=
  match a.whole?, b.whole? with
  | some m, some n => .ok (int (onInt m n))
  | _, _ => do
    let x ← a.toReal
    let y ← b.toReal
    pure (real (onReal x y))

/-- The sum. -/
def add : Number α → Number α → Except Fault (Number α) := combine (· + ·) (· + ·)

/-- The difference. -/
def sub : Number α → Number α → Except Fault (Number α) := combine (· - ·) (· - ·)

/-- The product. -/
def mul : Number α → Number α → Except Fault (Number α) := combine (· * ·) (· * ·)

/-- The quotient, always a scalar. Division by zero is refused, whatever the numerator. -/
def div (a b : Number α) : Except Fault (Number α) :=
  if b.isZero then .error .divisionByZero
  else
    match a.whole?, b.whole? with
    | some m, some n =>
      let q : α := Scalar.ratio m n
      if Scalar.isInfinite q then .error .overflow else .ok (real q)
    | _, _ => do
      let x ← a.toReal
      let y ← b.toReal
      pure (real (x / y))

/-- The number with its sign turned. -/
def neg : Number α → Number α
  | bool b => int (if b then -1 else 0)
  | int n => int (-n)
  | real x => real (-x)

/-- The square. A finite scalar whose square is infinite overflows. -/
def square (a : Number α) : Except Fault (Number α) :=
  match a with
  | real x =>
    let y := x * x
    if Scalar.isInfinite y && !Scalar.isInfinite x then .error .overflow else .ok (real y)
  | a => mul a a

/-- The whole number that the number equals, if it equals one. -/
def exactly? : Number α → Option Int
  | real x =>
    match Scalar.floor? x with
    | some f => if equals (real x) (int f) then some f else none
    | none => none
  | bool b => some (if b then 1 else 0)
  | int n => some n

/-- The number as text. -/
def text : Number α → String
  | bool true => "True"
  | bool false => "False"
  | int n => toString n
  | real x => plainText .double (Scalar.reading x)

/-- The whole number reached by dropping the fraction. NaN has none and an infinity is too large. -/
def truncate : Number α → Except Fault Int
  | real x =>
    if Scalar.isNan x then .error .notWhole
    else
      match Scalar.floor? x, Scalar.floor? (-x) with
      | some down, some up =>
        -- the fraction is dropped toward zero
        if decide (0 ≤ down) then .ok down else .ok (-up)
      | _, _ => .error .overflow
  | bool b => .ok (if b then 1 else 0)
  | int n => .ok n

end Number

end PrimalDual
