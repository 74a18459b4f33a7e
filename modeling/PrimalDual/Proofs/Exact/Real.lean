import Mathlib.Analysis.SpecialFunctions.Pow.Real
import PrimalDual.Scalar.Basic

/-!
# Exact real numbers as scalars

Everything numerical in this library is written over a class of scalars.  This file puts the real
numbers in their place: sums, products, quotients and roots are exact and no storage format
rounds.  What is left of floating point are the two infinities and the value that is not a number,
with the usual rules, because indicators, unbounded boxes and statistics use them.  Zero has no
sign; a quotient by zero goes by the sign of the numerator.

* `Exact` — a real number, an infinity, or not a number.
* `Scalar Exact` — the operations.
* `Exact.toReal` — the real number behind a finite one.

The lemmas say what each operation does to finite numbers; nothing outside this file opens the
operations themselves.
-/

namespace PrimalDual

-- Named, so that every definition with the numeral `2` in it refers to the same proof.
instance two_atLeastTwo : Nat.AtLeastTwo 2 := ⟨le_rfl⟩

/-- A real number, an infinity, or not a number. -/
inductive Exact where
  | finite (x : ℝ)
  | infinite (negative : Bool)
  | notANumber

namespace Exact

noncomputable section

/-- The infinity with the sign of a real number; zero has none. -/
def infinityLike (x : ℝ) : Exact :=
  if 0 < x then infinite false else if x < 0 then infinite true else notANumber

/-- The number with its sign turned. -/
def neg : Exact → Exact
  | finite x => finite (-x)
  | infinite s => infinite (!s)
  | notANumber => notANumber

/-- The sum. -/
def add : Exact → Exact → Exact
  | finite x, finite y => finite (x + y)
  | finite _, infinite s | infinite s, finite _ => infinite s
  | infinite s, infinite t => if s = t then infinite s else notANumber
  | _, _ => notANumber

/-- The difference. -/
def sub : Exact → Exact → Exact
  | finite x, finite y => finite (x - y)
  | x, y => add x (neg y)

/-- The product. -/
def mul : Exact → Exact → Exact
  | finite x, finite y => finite (x * y)
  | finite x, infinite s | infinite s, finite x => infinityLike (if s then -x else x)
  | infinite s, infinite t => infinite (s != t)
  | _, _ => notANumber

/-- The quotient. -/
def div : Exact → Exact → Exact
  | finite x, finite y => if y = 0 then infinityLike x else finite (x / y)
  | finite _, infinite _ => finite 0
  | infinite s, finite y => infinite (s != decide (y < 0))
  | _, _ => notANumber

/-- The square root. -/
def sqrt : Exact → Exact
  | finite x => if x < 0 then notANumber else finite (√x)
  | infinite false => infinite false
  | _ => notANumber

/-- The power of a magnitude; other bases are only raised to whole exponents. -/
def pow : Exact → Exact → Exact
  | finite x, finite y =>
    if x = 0 ∧ y < 0 then infinite false
    else if x < 0 ∧ y ≠ ⌊y⌋ then notANumber
    else finite (x ^ y)
  | finite x, infinite s =>
    if |x| = 1 then finite 1 else if decide (|x| < 1) = s then infinite false else finite 0
  | infinite s, finite y =>
    if y = 0 then finite 1
    else if y < 0 then finite 0
    else infinite (s && decide (y = ⌊y⌋ ∧ Odd ⌊y⌋))
  | infinite _, infinite s => if s then finite 0 else infinite false
  | finite x, notANumber => if x = 1 then finite 1 else notANumber
  | notANumber, finite y => if y = 0 then finite 1 else notANumber
  | _, _ => notANumber

/-- Strictly smaller. -/
def less : Exact → Exact → Bool
  | finite x, finite y => decide (x < y)
  | finite _, infinite s => !s
  | infinite s, finite _ => s
  | infinite s, infinite t => s && !t
  | _, _ => false

/-- Smaller or equal. -/
def atMost : Exact → Exact → Bool
  | finite x, finite y => decide (x ≤ y)
  | finite _, infinite s => !s
  | infinite s, finite _ => s
  | infinite s, infinite t => s || !t
  | _, _ => false

/-- The exact value in units of `2 ^ (-1074)`, rounded toward zero. -/
def reading : Exact → Reading
  | finite x => .finite ⟨decide (x < 0), ⌊|x| * (2 ^ 1074 : ℕ)⌋₊, -1074⟩
  | infinite s => .infinite s
  | notANumber => .notANumber

/-- The real number behind a finite one, zero for the others. -/
def toReal : Exact → ℝ
  | finite x => x
  | _ => 0

instance : Scalar Exact where
  add := add
  sub := sub
  mul := mul
  div := div
  neg := neg
  ratio m n := finite ((m : ℝ) / n)
  inf := infinite false
  nan := notANumber
  abs
    | finite x => finite |x|
    | infinite _ => infinite false
    | notANumber => notANumber
  sqrt := sqrt
  pow := pow
  less := less
  atMost := atMost
  isNan
    | notANumber => true
    | _ => false
  floor?
    | finite x => some ⌊x⌋
    | _ => none
  narrow _ x := x
  reading := reading

end

/-! ## Finite numbers

On finite numbers every operation is the one of the real numbers, quotients by zero and roots of
negative numbers aside.
-/

variable (x y : ℝ)

@[simp] lemma toReal_finite : (finite x).toReal = x := rfl

lemma infinite_ne_finite {s : Bool} {x : ℝ} : infinite s ≠ finite x := by rintro ⟨⟩

@[simp] lemma finite_add : finite x + finite y = finite (x + y) := rfl

@[simp] lemma finite_sub : finite x - finite y = finite (x - y) := rfl

@[simp] lemma finite_mul : finite x * finite y = finite (x * y) := rfl

@[simp] lemma finite_neg : -finite x = finite (-x) := rfl

lemma finite_div {y : ℝ} (h : y ≠ 0) : finite x / finite y = finite (x / y) := by
  show (if y = 0 then infinityLike x else finite (x / y)) = _
  rw [if_neg h]

/-- A positive number over zero. -/
lemma div_zero_finite {x : ℝ} (h : 0 < x) : finite x / finite 0 = infinite false := by
  show (if (0 : ℝ) = 0 then infinityLike x else finite (x / 0)) = _
  rw [if_pos rfl, infinityLike, if_pos h]

lemma zero_div_zero : finite 0 / finite 0 = notANumber := by
  show (if (0 : ℝ) = 0 then infinityLike 0 else finite (0 / 0)) = _
  rw [if_pos rfl, infinityLike, if_neg (lt_irrefl _), if_neg (lt_irrefl _)]

/-- A positive multiple of an infinity. -/
lemma finite_mul_infinite {x : ℝ} (h : 0 < x) (s : Bool) : finite x * infinite s = infinite s := by
  show infinityLike (if s then -x else x) = _
  cases s with
  | false => rw [if_neg Bool.false_ne_true, infinityLike, if_pos h]
  | true => rw [if_pos rfl, infinityLike, if_neg (by linarith), if_pos (by linarith)]

/-- A negative multiple of an infinity. -/
lemma infinite_mul_neg {x : ℝ} (h : 0 < x) (s : Bool) :
    infinite s * finite (-x) = infinite (!s) := by
  show infinityLike (if s then - -x else -x) = _
  cases s with
  | false =>
    rw [if_neg Bool.false_ne_true, infinityLike, if_neg (by linarith), if_pos (by linarith)]
    rfl
  | true =>
    rw [if_pos rfl, neg_neg, infinityLike, if_pos h]
    rfl

/-- Adding the opposite of a multiple is taking it away, also for what is not finite. -/
lemma mul_neg_add_finite {x : ℝ} (h : 0 < x) (e : Exact) :
    e * finite (-x) + finite y = finite y - finite x * e := by
  cases e with
  | finite p =>
    rw [finite_mul, finite_add, finite_mul, finite_sub]
    congr 1
    ring
  | infinite s =>
    rw [infinite_mul_neg h, finite_mul_infinite h]
    rfl
  | notANumber => rfl

@[simp] lemma narrow_eq (p : Precision) (a : Exact) : Scalar.narrow p a = a := rfl

@[simp] lemma ratio_eq (m n : Int) : (Scalar.ratio m n : Exact) = finite ((m : ℝ) / n) := rfl

@[simp] lemma ofInt_eq (n : Int) : (Scalar.ofInt n : Exact) = finite n := by
  simp [Scalar.ofInt]

@[simp] lemma zero_eq : (Scalar.zero : Exact) = finite 0 := by simp [Scalar.zero]

@[simp] lemma one_eq : (Scalar.one : Exact) = finite 1 := by simp [Scalar.one]

@[simp] lemma abs_finite : Scalar.abs (finite x) = finite |x| := rfl

lemma sqrt_finite {x : ℝ} (h : 0 ≤ x) : Scalar.sqrt (finite x) = finite (√x) := by
  show (if x < 0 then notANumber else finite (√x)) = _
  rw [if_neg (not_lt.mpr h)]

lemma pow_finite {x y : ℝ} (hx : 0 ≤ x) (hy : 0 < y) :
    Scalar.pow (finite x) (finite y) = finite (x ^ y) := by
  show (if x = 0 ∧ y < 0 then infinite false
    else if x < 0 ∧ y ≠ ⌊y⌋ then notANumber else finite (x ^ y)) = _
  rw [if_neg fun h => hy.not_gt h.2, if_neg fun h => hx.not_gt h.1]

@[simp] lemma less_finite : Scalar.less (finite x) (finite y) = decide (x < y) := rfl

@[simp] lemma atMost_finite : Scalar.atMost (finite x) (finite y) = decide (x ≤ y) := rfl

@[simp] lemma isNan_finite : Scalar.isNan (finite x) = false := rfl

@[simp] lemma floor?_finite : Scalar.floor? (finite x) = some ⌊x⌋ := rfl

@[simp] lemma isInfinite_finite : Scalar.isInfinite (finite x) = false := by
  show (Scalar.atMost (finite |x|) (infinite false) && Scalar.atMost (infinite false) (finite |x|))
    = false
  rfl

@[simp] lemma maximum_finite : Scalar.maximum (finite x) (finite y) = finite (max x y) := by
  by_cases h : x < y
  · simp [Scalar.maximum, h, max_eq_right h.le]
  · simp [Scalar.maximum, h, max_eq_left (not_lt.mp h)]

@[simp] lemma minimum_finite : Scalar.minimum (finite x) (finite y) = finite (min x y) := by
  by_cases h : y < x
  · simp [Scalar.minimum, h, min_eq_right h.le]
  · simp [Scalar.minimum, h, min_eq_left (not_lt.mp h)]

@[simp] lemma maxNum_finite : Scalar.maxNum (finite x) (finite y) = finite (max x y) := by
  by_cases h : x < y
  · simp [Scalar.maxNum, h, max_eq_right h.le]
  · simp [Scalar.maxNum, h, max_eq_left (not_lt.mp h)]

@[simp] lemma sign_finite : Scalar.sign (finite x) = finite (SignType.sign x : ℝ) := by
  rcases lt_trichotomy x 0 with h | h | h
  · simp [Scalar.sign, h, not_lt.mpr h.le]
  · simp [Scalar.sign, h]
  · simp [Scalar.sign, h]

end Exact

end PrimalDual
