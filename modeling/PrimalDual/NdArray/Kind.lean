import PrimalDual.Decimal.Binary

/-!
# Kinds of array elements

An array holds whole numbers of a fixed width, truth values among them, or floating-point numbers of a
storage format. Arithmetic between arrays of different kinds happens in a common kind.

* `WholeKind`, `Kind` — the kinds.
* `WholeKind.wrap` — the value that a width keeps of an integer.
* `Kind.join` — the common kind of two arrays.

**`WholeKind.wrap_mem`**: a wrapped integer lies in the range of its kind.
-/

namespace PrimalDual

/-- Whole-number elements by width and sign; truth values are `0` and `1`. -/
inductive WholeKind where
  | bool
  | int8
  | uint8
  | int16
  | int32
  | int64
  | uint64
  deriving DecidableEq, Repr, Inhabited

namespace WholeKind

/-- The smallest element. -/
def least : WholeKind → Int
  | bool | uint8 | uint64 => 0
  | int8 => -128
  | int16 => -32768
  | int32 => -2147483648
  | int64 => -9223372036854775808

/-- The largest element. -/
def greatest : WholeKind → Int
  | bool => 1
  | int8 => 127
  | uint8 => 255
  | int16 => 32767
  | int32 => 2147483647
  | int64 => 9223372036854775807
  | uint64 => 18446744073709551615

/-- Whether an integer is an element of the kind. -/
def holds (k : WholeKind) (n : Int) : Bool := decide (k.least ≤ n) && decide (n ≤ k.greatest)

/-- The element that agrees with `n` modulo the number of elements. -/
def wrap (k : WholeKind) (n : Int) : Int :=
  (n - k.least) % (k.greatest - k.least + 1) + k.least

/-- A wrapped integer is an element of the kind. -/
theorem wrap_mem (k : WholeKind) (n : Int) : k.least ≤ k.wrap n ∧ k.wrap n ≤ k.greatest := by
  have hpos : 0 < k.greatest - k.least + 1 := by cases k <;> decide
  have hlow := Int.emod_nonneg (n - k.least) (Int.ne_of_gt hpos)
  have hhigh := Int.emod_lt_of_pos (n - k.least) hpos
  rw [wrap]
  omega

/-- The kinds from the narrowest, in which a common kind is sought. -/
def ladder : List WholeKind := [bool, int8, uint8, int16, int32, int64, uint64]

/-- The narrowest kind that holds the elements of both, if there is one. -/
def join? (j k : WholeKind) : Option WholeKind :=
  ladder.find? fun m =>
    decide (m.least ≤ min j.least k.least) && decide (max j.greatest k.greatest ≤ m.greatest)

/-- The format in which functions such as a square root are computed for whole elements. -/
def precision : WholeKind → Precision
  | bool | int8 | uint8 => .half
  | int16 => .single
  | int32 | int64 | uint64 => .double

/-- The kind in which elements are summed. -/
def sumKind : WholeKind → WholeKind
  | uint8 | uint64 => uint64
  | _ => int64

end WholeKind

/-- The kind of the elements of an array. -/
inductive Kind where
  | whole (k : WholeKind)
  | real (p : Precision)
  deriving DecidableEq, Repr, Inhabited

namespace Kind

/-- The kind of binary64 numbers. -/
abbrev double : Kind := .real .double

/-- Whether the elements are floating-point numbers. -/
def isReal : Kind → Bool
  | real _ => true
  | whole _ => false

/-- The floating-point format in which functions are computed for the elements. -/
def precision : Kind → Precision
  | whole k => k.precision
  | real p => p

/-- The common kind of two arrays. -/
def join : Kind → Kind → Kind
  | whole j, whole k =>
    match j.join? k with
    | some m => whole m
    | none => real .double
  | a, b => real (a.precision.join b.precision)

/-- The name of the kind. -/
def name : Kind → String
  | whole .bool => "bool"
  | whole .int8 => "int8"
  | whole .uint8 => "uint8"
  | whole .int16 => "int16"
  | whole .int32 => "int32"
  | whole .int64 => "int64"
  | whole .uint64 => "uint64"
  | real .half => "float16"
  | real .single => "float32"
  | real .double => "float64"

/-- Whether results of kind `source` may be stored into an array of kind `target` in place. -/
def storable (source target : Kind) : Bool :=
  match source, target with
  | whole .bool, _ => true
  | whole j, whole k => k != .bool && !(decide (j.least < 0) && decide (k.least = 0))
  | whole _, real _ => true
  | real _, real _ => true
  | real _, whole _ => false

end Kind

end PrimalDual
