import PrimalDual.Number
import PrimalDual.NdArray.Basic

/-!
# Elementwise arithmetic

Operations combine two arrays, or an array and a number, element by element after broadcasting. Two
arrays meet in their common kind. A number adapts to the array beside it: a whole number takes the kind
of the array if it fits, and a scalar turns whole elements into binary64 numbers but leaves
floating-point elements in their own format. Every result is rounded to the format of its kind.

* `Operand` — an array or a number.
* `Operation`, `arith` — sum, difference, product, quotient, and the larger of two numbers.
* `Relation`, `compare` — comparisons, which yield truth values.
* `NdArray.magnitude`, `squareRoot`, `signs`, `square`, `power` — one operand.
* `clip` — the elements between two bounds.
* `NdArray.assign`, `NdArray.fill` — the result of an update in place.
-/

namespace PrimalDual

/-- An operand of elementwise arithmetic. -/
inductive Operand (α : Type) where
  | array (a : NdArray α)
  | number (n : Number α)

/-- The elementwise operations of two operands. -/
inductive Operation where
  | add
  | sub
  | mul
  | div
  /-- The larger of two numbers; when one is NaN, the other. -/
  | maxNum
  deriving DecidableEq, Repr

/-- The comparisons. -/
inductive Relation where
  | atMost
  | below
  deriving DecidableEq, Repr

section

variable {α : Type} [Scalar α]

namespace Operation

/-- The operation on scalars. -/
def onReal : Operation → α → α → α
  | add => (· + ·)
  | sub => (· - ·)
  | mul => (· * ·)
  | div => (· / ·)
  | maxNum => Scalar.maxNum

/-- The operation on whole elements, before wrapping. Truth values have no difference. -/
def onWhole? : Operation → WholeKind → Option (Int → Int → Int)
  | add, .bool => some max
  | mul, _ => some (· * ·)
  | sub, .bool => none
  | add, _ => some (· + ·)
  | sub, _ => some (· - ·)
  | maxNum, _ => some max
  | div, _ => none

end Operation

/-- The relation between scalars. -/
def Relation.onReal : Relation → α → α → Bool
  | atMost => Scalar.atMost
  | below => Scalar.less

/-- The relation between integers. -/
def Relation.onInt : Relation → Int → Int → Bool
  | atMost, m, n => decide (m ≤ n)
  | below, m, n => decide (m < n)

/-- The kind in which a number joins an array of kind `k`. A whole number must fit. -/
def Number.kindBeside (k : Kind) (n : Number α) : Except Fault Kind :=
  match k, n with
  | .real p, _ => .ok (.real p)
  | .whole w, .bool _ => .ok (.whole w)
  | .whole .bool, .int n => if WholeKind.int64.holds n then .ok (.whole .int64) else .error .overflow
  | .whole w, .int n => if w.holds n then .ok (.whole w) else .error .overflow
  | .whole _, .real _ => .ok .double

/-- The number as an array without axes, of a given kind. -/
def Number.spread (k : Kind) (n : Number α) : Except Fault (NdArray α) :=
  match k with
  | .real p => do
    let x ← n.toReal
    pure (.tabulate .memory [] p fun _ => Scalar.narrow p x)
  | .whole w => .ok (.tabulateWhole .memory [] w fun _ => n.whole?.getD 0)

/-- Combines two arrays as scalars of format `p`. -/
def zipReal (p : Precision) (f : α → α → α) (a b : NdArray α) : Except Fault (NdArray α) :=
  match Shape.broadcast? a.shape b.shape with
  | some s => .ok (.tabulate (a.backend.join b.backend) s p fun k =>
      Scalar.narrow p (f (a.realAt (s.project a.shape k)) (b.realAt (s.project b.shape k))))
  | none => .error .shapeMismatch

/-- Combines two arrays as integers of kind `w`. -/
def zipWhole (w : WholeKind) (f : Int → Int → Int) (a b : NdArray α) : Except Fault (NdArray α) :=
  match Shape.broadcast? a.shape b.shape with
  | some s => .ok (.tabulateWhole (a.backend.join b.backend) s w fun k =>
      w.wrap (f (a.wholeAt (s.project a.shape k)) (b.wholeAt (s.project b.shape k))))
  | none => .error .shapeMismatch

/-- Combines two arrays in a kind that both have been brought to. -/
def combineIn (op : Operation) (k : Kind) (a b : NdArray α) : Except Fault (NdArray α) :=
  match k with
  | .real p => zipReal p op.onReal a b
  | .whole w =>
    if op = .div then zipReal .double op.onReal a b
    else
      match op.onWhole? w with
      | some f => zipWhole w f a b
      | none => .error .wrongType

/-- Applies an operation element by element. Two numbers do not make an array. -/
def arith (op : Operation) (x y : Operand α) : Except Fault (NdArray α) :=
  match x, y with
  | .array a, .array b => combineIn op (a.kind.join b.kind) a b
  | .array a, .number n => do
    let k ← n.kindBeside a.kind
    let b ← n.spread k
    combineIn op k a b
  | .number n, .array b => do
    let k ← n.kindBeside b.kind
    let a ← n.spread k
    combineIn op k a b
  | .number _, .number _ => .error .wrongType

/-- Compares two arrays element by element; whole numbers exactly, others as scalars. -/
def compareArrays (rel : Relation) (a b : NdArray α) : Except Fault (NdArray α) :=
  match Shape.broadcast? a.shape b.shape with
  | some s =>
    let i := s.project a.shape
    let j := s.project b.shape
    .ok (.tabulateWhole (a.backend.join b.backend) s .bool fun k =>
      if a.kind.isReal || b.kind.isReal then
        if rel.onReal (a.realAt (i k)) (b.realAt (j k)) then 1 else 0
      else if rel.onInt (a.wholeAt (i k)) (b.wholeAt (j k)) then 1 else 0)
  | none => .error .shapeMismatch

/-- The kind in which a number is compared with an array; whole numbers of any size are. -/
def Number.comparisonKind (k : Kind) (n : Number α) : Kind :=
  match k, n with
  | .real p, _ => .real p
  | .whole _, .real _ => .double
  | .whole _, _ => .whole .int64

/-- Compares element by element. -/
def compare (rel : Relation) (x y : Operand α) : Except Fault (NdArray α) :=
  match x, y with
  | .array a, .array b => compareArrays rel a b
  | .array a, .number n => do
    let b ← n.spread (n.comparisonKind a.kind)
    compareArrays rel a b
  | .number n, .array b => do
    let a ← n.spread (n.comparisonKind b.kind)
    compareArrays rel a b
  | .number _, .number _ => .error .wrongType

/-- The larger of two arrays or the smaller, NaN where either is. -/
def extremum (larger : Bool) (x y : Operand α) : Except Fault (NdArray α) := do
  let pair : Kind × NdArray α × NdArray α ← match x, y with
    | .array a, .array b => pure (a.kind.join b.kind, a, b)
    | .array a, .number n => do
      let k ← n.kindBeside a.kind
      pure (k, a, ← n.spread k)
    | .number n, .array b => do
      let k ← n.kindBeside b.kind
      pure (k, ← n.spread k, b)
    | .number _, .number _ => throw .wrongType
  match pair with
  | (.real p, a, b) => zipReal p (if larger then Scalar.maximum else Scalar.minimum) a b
  | (.whole w, a, b) => zipWhole w (if larger then max else min) a b

/-- Whether a whole-number bound excludes no element of a whole kind, so that it need not fit. -/
def vacuousBound (lower : Bool) (k : Kind) (bound : Operand α) : Bool :=
  match k, bound with
  | .whole .bool, _ => false
  | .whole w, .number (.int n) => if lower then decide (n ≤ w.least) else decide (w.greatest ≤ n)
  | _, _ => false

/--
Brings every element between two bounds, the upper one winning where they cross; a bound that is
absent does not constrain. Bounds of another kind decide the kind of the result with the array.
-/
def clip (lower upper : Option (Operand α)) (a : NdArray α) : Except Fault (NdArray α) := do
  let lower := lower.filter fun b => !vacuousBound true a.kind b
  let upper := upper.filter fun b => !vacuousBound false a.kind b
  let raised ← match lower with
    | some b => extremum true (.array a) b
    | none => pure a
  match upper with
  | some b => extremum false (.array raised) b
  | none => pure raised

namespace NdArray

/-- A scalar function of every element, computed in the floating-point format of the kind. -/
def mapReal (f : α → α) (a : NdArray α) : NdArray α :=
  let p := a.kind.precision
  tabulate a.backend a.shape p fun k => Scalar.narrow p (f (a.realAt k))

/-- The magnitudes, always floating-point numbers. -/
def magnitude (a : NdArray α) : NdArray α := a.mapReal Scalar.abs

/-- The square roots, always floating-point numbers. -/
def squareRoot (a : NdArray α) : NdArray α := a.mapReal Scalar.sqrt

/-- The signs; truth values have none. -/
def signs (a : NdArray α) : Except Fault (NdArray α) :=
  match a.kind with
  | .whole .bool => .error .wrongElements
  | .whole w => .ok (tabulateWhole a.backend a.shape w fun k => (a.wholeAt k).sign)
  | .real p => .ok (tabulate a.backend a.shape p fun k => Scalar.sign (a.realAt k))

/-- The squares; those of truth values are counted in the narrowest signed kind. -/
def square (a : NdArray α) : NdArray α :=
  match a.kind with
  | .whole w =>
    let w := if w = .bool then .int8 else w
    tabulateWhole a.backend a.shape w fun k => w.wrap (a.wholeAt k * a.wholeAt k)
  | .real p => tabulate a.backend a.shape p fun k => Scalar.narrow p (a.realAt k * a.realAt k)

/--
The powers of floating-point elements. The exponents `0`, `1`, `1/2`, `2` and `-1` have their own
functions; any other one is rounded to the format of the elements first.
-/
def power (a : NdArray α) (e : Number α) : Except Fault (NdArray α) :=
  if e.equals (.int 2) then .ok a.square
  else if e.equals (.real (Scalar.ratio 1 2)) then .ok a.squareRoot
  else if e.equals (.int 1) then .ok a
  else if e.equals (.int 0) then .ok (a.mapReal fun _ => Scalar.one)
  else if e.equals (.int (-1)) then .ok (a.mapReal fun x => Scalar.one / x)
  else do
    let x ← e.toReal
    let x := Scalar.narrow a.kind.precision x
    pure (a.mapReal fun y => Scalar.pow y x)

/--
An update in place of `target` by the elements of `result`. An array in memory keeps its shape and
kind, so the result must have that shape and a kind that can be stored, and must not be chunked; a
chunked array is rebound.
-/
def assign (target result : NdArray α) : Except Fault (NdArray α) :=
  match target.backend with
  | .chunked => .ok result
  | .memory =>
    if !result.kind.storable target.kind then .error .wrongElements
    else if result.shape ≠ target.shape then .error .shapeMismatch
    else if result.backend = .chunked then .error .mixedUpdate
    else .ok (result.convert target.kind)

/-- The array with its elements replaced by those of an operand that is spread over its shape. -/
def fill (target : NdArray α) (y : Operand α) : Except Fault (NdArray α) := do
  let source ← match y with
    | .array b => pure b
    | .number n => n.spread target.kind
  if Shape.broadcast? target.shape source.shape ≠ some target.shape then throw .shapeMismatch
  let values := (source.convert target.kind).gather target.shape (target.shape.project source.shape)
  pure (values.onBackend target.backend)

/-- Updates `target` in place by an operation with another operand. -/
def update (op : Operation) (target : NdArray α) (y : Operand α) : Except Fault (NdArray α) := do
  let result ← arith op (.array target) y
  target.assign result

end NdArray

end

end PrimalDual
