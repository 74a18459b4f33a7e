import PrimalDual.Value.Arith

/-!
# Norms of stacked points

Criteria measure an array by the norm of its trailing axes, one number for each stacked point, after a
function that selects or combines elements.

* `Feature` — the functions that may be applied first.
* `blockNorm` — the norm of a given order over the trailing axes: the number of elements other than
  zero, the largest magnitude, the sum of magnitudes, the Euclidean length, or a power mean.
* `summary` — the statistics of such norms: the number itself for one point, the extremes for several.
-/

namespace PrimalDual

/-- What is measured of a variable. -/
inductive Feature where
  /-- The variable itself. -/
  | whole
  /-- Twice the variable. -/
  | double
  /-- Its squares. -/
  | square
  /-- All but the first element of the trailing axis. -/
  | tail
  /-- The sums over the last three axes, on a new axis of length one. -/
  | blockSum
  deriving DecidableEq, Repr, Inhabited

section

variable {α : Type} [Scalar α]

/-- All but the first element of the trailing axis. -/
def NdArray.dropFirst (a : NdArray α) : Except Fault (NdArray α) :=
  match a.shape.getLast? with
  | none => .error .indexOutOfRange
  | some n =>
    match a.kind with
    | .real p => .ok (a.mapTail 1 [n - 1] p fun row i => row (i + 1))
    | .whole w => .ok (a.mapTailWhole 1 [n - 1] w fun row i => row (i + 1))

/-- The sums over the last three axes, on a new axis of length one. -/
def NdArray.sumBlocks (a : NdArray α) : Except Fault (NdArray α) :=
  if a.rank < 3 then .error .axisOutOfRange
  else
    match (a.sumTail 3).reshape? (a.shape.replaceTail 3 [1]) with
    | some b => .ok b
    | none => .error .shapeMismatch

namespace Feature

/-- The feature of a value of any kind. -/
def of (f : Feature) (v : Value α) : Except Fault (Value α) :=
  match f, v with
  | whole, v => .ok v
  | double, .list items => .ok (.list (items ++ items))
  | double, .text s => .ok (.text (s ++ s))
  | double, v => Value.arith .mul (.number (.int 2)) v
  | square, .array a => .ok (.array a.square)
  | square, .number n => n.square.map .number
  | square, _ => .error .wrongType
  | tail, .array a => a.dropFirst.map .array
  | tail, _ => .error .wrongType
  | blockSum, .array a => a.sumBlocks.map .array
  | blockSum, _ => .error .noCapability

end Feature

/-- The array behind a value that is to be measured. -/
def Value.measured : Value α → Except Fault (NdArray α)
  | .array a => .ok a
  | v => .error (.noArrayModule v.kindName)

/-- The norm of a given order over the last `rank` axes, which stay with length one. -/
def blockNorm (x : NdArray α) (order : Number α) (rank : Int) : Except Fault (NdArray α) :=
  let ax := x.magnitude
  let r := rank.toNat
  if ax.rank < r then .error .axisOutOfRange
  else if order.isZero then do
    let positive ← compare .below (.number (.int 0)) (.array ax)
    pure (positive.sumTail r)
  else if order.equals (.real Scalar.inf) then ax.maxTail r
  else if order.equals (.int 1) then .ok (ax.sumTail r)
  else if order.equals (.int 2) then .ok (ax.square.sumTail r).squareRoot
  else do
    let powers ← ax.power order
    let root ← (Number.int 1).div order
    (powers.sumTail r).power root

/-- The statistics of some norms. -/
def summary (label : String) (v : NdArray α) : Except Fault (List (String × Number α)) :=
  if v.size = 1 then do
    let x ← v.greatest
    pure [(label, .real x)]
  else do
    let lo ← v.least
    let hi ← v.greatest
    pure [(label ++ "_min", .real lo), (label ++ "_max", .real hi)]

/-- The zeros that stand for norms before there are any. -/
def zeroNorms (s : Shape) : NdArray α := .tabulate .memory (s ++ [1]) .double fun _ => Scalar.zero

end

end PrimalDual
