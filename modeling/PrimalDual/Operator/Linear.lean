import PrimalDual.Operator.Matrix
import PrimalDual.Value.Arith

/-!
# Bounded linear operators

An operator maps the trailing axis of its input: `(…, N)` becomes `(…, M)`. Either size may be left
open, when the operator accepts inputs of any size. Every operator carries a bound on its norm, from
which admissible step sizes are derived; it is infinite where nothing is known.

* `LinearOperator` — an operator: what it does, its sizes, and its bound.
* `LinearOperator.identity`, `homothety`, `difference`, `explicit`, `sparse`, `unspecified` — the
  operators, each refusing parameters that make no sense.
* `LinearOperator.map`, `LinearOperator.adjointMap` — the operator and its adjoint on arrays.
* `LinearOperator.apply`, `LinearOperator.adjoint` — the same on values of any kind.
* `LinearOperator.setBound` — replaces the bound.
-/

namespace PrimalDual

/-- What a linear operator does to the trailing axis. -/
inductive LinearRule (α : Type) where
  /-- Leaves its input as it is. -/
  | identity
  /-- Multiplies by a constant. -/
  | homothety (factor : α)
  /-- Takes the differences of neighbours: element `i` becomes `x (i + 1) - x i`. -/
  | difference
  /-- Multiplies by a dense matrix. -/
  | dense (matrix : NdArray α)
  /-- Multiplies by a sparse matrix. -/
  | sparse (matrix : SparseMatrix α)
  /-- Says nothing about its action. -/
  | unspecified

/-- A bounded linear operator. -/
structure LinearOperator (α : Type) where
  rule : LinearRule α
  /-- The size of the output, if it is fixed. -/
  codim : Option Int
  /-- The size of the input, if it is fixed. -/
  dim : Option Int
  /-- An upper bound on the operator norm. -/
  bound : α

/-- A size that may be left open, as text. -/
def sizeText : Option Int → String
  | some n => toString n
  | none => "None"

namespace LinearOperator

variable {α : Type}

/-- The name of the operator's class. -/
def className (K : LinearOperator α) : String :=
  match K.rule with
  | .identity => "IdentityOp"
  | .homothety _ => "HomothetyOp"
  | .difference => "FiniteDifference"
  | .dense _ | .sparse _ => "ExplicitLinOp"
  | .unspecified => "LinOp"

/-- The class and the sizes of the operator. -/
def text (K : LinearOperator α) : String :=
  s!"{K.className}({sizeText K.codim}, {sizeText K.dim})"

variable [Scalar α]

/-! ## Construction -/

/-- A size parameter: absent for an open size, otherwise a number or a numeral without its fraction. -/
def readSize : Value α → Except Fault (Option Int)
  | .null => .ok none
  | v => v.toWhole.map some

/-- The two members of a pair, from any collection of exactly two. -/
def readPair : Value α → Option (Value α × Value α)
  | .list [a, b] | .tuple [a, b] => some (a, b)
  | .mapping [(a, _), (b, _)] => some (.text a, .text b)
  | .text s =>
    match s.toList with
    | [a, b] => some (.text (String.singleton a), .text (String.singleton b))
    | _ => none
  | _ => none

/-- Both sizes of an operator; every failure shows what was given as a whole. -/
def readSizes (given : Value α) : Except Fault (Option Int × Option Int) :=
  let sizes : Except Fault (Option Int × Option Int) :=
    match readPair given with
    | some (codim, dim) => do
      let m ← readSize codim
      let n ← readSize dim
      pure (m, n)
    | none => .error .wrongType
  sizes.mapError fun _ => .operatorShape given.shown

/-- A norm bound: any number that is at least zero. -/
def readBound (given : Value α) : Except Fault α :=
  let bound : Except Fault α := do
    if ← given.nonNegative then given.toReal else throw .wrongType
  bound.mapError fun _ => .negativeNorm given.shown

/-- Replaces the bound of the operator. -/
def setBound (K : LinearOperator α) (given : Value α) : Except Fault (LinearOperator α) := do
  let bound ← readBound given
  pure { K with bound := bound }

/-- The operator of known sizes about which nothing else is known. -/
def unspecified (shape : Value α) : Except Fault (LinearOperator α) := do
  let (m, n) ← readSizes shape
  pure ⟨.unspecified, m, n, Scalar.inf⟩

/-- The identity on points of a given or of any size. -/
def identity (dim : Value α) : Except Fault (LinearOperator α) := do
  let (m, n) ← readSizes (.tuple [dim, dim])
  pure ⟨.identity, m, n, Scalar.one⟩

/-- The identity on points of any size. -/
def anyIdentity : LinearOperator α := ⟨.identity, none, none, Scalar.one⟩

/-- The multiplication by a constant, which may be given as a numeral. -/
def homothety (factor dim : Value α) : Except Fault (LinearOperator α) := do
  let c ← factor.toReal.mapError fun _ => .factorNotReal factor.shown
  let (m, n) ← readSizes (.tuple [dim, dim])
  let bound ← readBound (.number (.real (Scalar.abs c)))
  pure ⟨.homothety c, m, n, bound⟩

/-- The first differences of points of at least two elements; their norm stays below `2`. -/
def difference (dim : Value α) : Except Fault (LinearOperator α) :=
  match dim.toWhole with
  | .ok n =>
    if 2 ≤ n then .ok ⟨.difference, some (n - 1), some n, Scalar.ofInt 2⟩
    else .error (.differenceSize dim.shown)
  | .error _ => .error (.differenceSize dim.shown)

/-- The bound of an explicit operator: the given one, or its norm. -/
def explicitBound (given : Value α) (norm : α) : Except Fault α :=
  readBound (if given.isNull then .number (.real norm) else given)

/-- The multiplication by a dense matrix, with a known bound or its spectral norm. -/
def explicit (matrix bound : Value α) : Except Fault (LinearOperator α) :=
  match matrix with
  | .array a =>
    if a.rank ≠ 2 then .error (.matrixRank a.rank)
    else do
      let p := match a.kind with
        | .real p => p
        | .whole _ => .double
      let b ← explicitBound bound (Scalar.narrow p (spectralNorm a))
      pure ⟨.dense a, some a.rows, some a.columns, b⟩
  | _ => .error .noCapability

/--
The multiplication by a sparse matrix. With a single row or column the norm is the Frobenius norm;
otherwise it is the largest singular value, found by iteration. There is nothing to iterate on without
rows or columns, or when the squares of all entries vanish.
-/
def sparse (matrix : SparseMatrix α) (bound : Value α) : Except Fault (LinearOperator α) := do
  let least := min matrix.rows matrix.columns
  let dense := matrix.toDense
  if bound.isNull && least = 0 then throw .shapeMismatch
  if bound.isNull && 2 ≤ least && squaresVanish dense then throw .vanishingStart
  let b ← explicitBound bound (if least = 1 then frobeniusNorm dense else spectralNorm dense)
  pure ⟨.sparse matrix, some matrix.rows, some matrix.columns, b⟩

/-! ## Action -/

/-- The differences of neighbours along the trailing axis. -/
def differences (x : NdArray α) : Except Fault (NdArray α) :=
  match x.shape.getLast?, x.kind with
  | none, _ => .error .indexOutOfRange
  | some _, .whole .bool => .error .wrongType
  | some n, .whole w =>
    .ok (x.mapTailWhole 1 [n - 1] w fun row i => w.wrap (row (i + 1) - row i))
  | some n, .real p =>
    .ok (x.mapTail 1 [n - 1] p fun row i => Scalar.narrow p (row (i + 1) - row i))

/--
The adjoint of the differences: element `i` of the result is `y (i - 1) - y i`, where elements outside
the input count as absent. An empty input stays empty.
-/
def differencesAdjoint (y : NdArray α) : Except Fault (NdArray α) :=
  match y.shape.getLast?, y.kind with
  | none, _ => .error .indexOutOfRange
  | some _, .whole .bool => .error .wrongType
  | some 0, _ => .ok y
  | some n, .whole w =>
    .ok (y.mapTailWhole 1 [n + 1] w fun row i =>
      w.wrap (if i = 0 then -(row 0) else if i = n then row (n - 1) else row (i - 1) - row i))
  | some n, .real p =>
    .ok (y.mapTail 1 [n + 1] p fun row i =>
      if i = 0 then -(row 0)
      else if i = n then row (n - 1)
      else Scalar.narrow p (row (i - 1) - row i))

/-- The operator on an array. -/
def map (K : LinearOperator α) (x : NdArray α) : Except Fault (NdArray α) :=
  match K.rule with
  | .identity => .ok x
  | .homothety c => x.update .mul (.number (.real c))
  | .difference => differences x
  | .dense a => product a x
  | .sparse m => m.product x
  | .unspecified => .error .abstract

/-- The adjoint of the operator on an array. -/
def adjointMap (K : LinearOperator α) (y : NdArray α) : Except Fault (NdArray α) :=
  match K.rule with
  | .identity => .ok y
  | .homothety c => y.update .mul (.number (.real c))
  | .difference => differencesAdjoint y
  | .dense a => product a.transpose y
  | .sparse m => m.transpose.product y
  | .unspecified => .error .abstract

/-- What a matrix product makes of a value that is no array: a list of numbers counts as one. -/
def productValue (a : NdArray α) : Value α → Except Fault (Value α)
  | .array x => (product a x).map .array
  | .list items => do
    let x ← (Value.list items).ofNested
    let y ← product a x
    pure (.array y)
  | .text _ => .error .wrongElements
  | _ => .error .shapeMismatch

/-- What a multiplication by a constant makes of a value that is no array. -/
def homothetyValue : Value α → Except Fault (Value α)
  | .list _ | .mapping _ => .error .wrongType
  | _ => .error .noCapability

/-- The operator on a value of any kind. -/
def apply (K : LinearOperator α) (v : Value α) : Except Fault (Value α) :=
  match K.rule, v with
  | .identity, v => .ok v
  | .dense a, v => productValue a v
  | _, .array x => (K.map x).map .array
  | .homothety _, v => homothetyValue v
  | .difference, _ => .error .wrongType
  | .sparse _, _ => .error .noCapability
  | .unspecified, _ => .error .abstract

/-- The adjoint of the operator on a value of any kind. -/
def adjoint (K : LinearOperator α) (v : Value α) : Except Fault (Value α) :=
  match K.rule, v with
  | .identity, v => .ok v
  | .dense a, v => productValue a.transpose v
  | _, .array y => (K.adjointMap y).map .array
  | .homothety _, v => homothetyValue v
  | .difference, v => .error (.noArrayModule v.kindName)
  | .sparse _, _ => .error .noCapability
  | .unspecified, _ => .error .abstract

/-- The dense matrix of an explicit operator; other operators have none. -/
def toMatrix (K : LinearOperator α) : Except Fault (NdArray α) :=
  match K.rule with
  | .dense a => .ok (a.onBackend .memory)
  | .sparse m => .ok m.toDense
  | _ => .error .noCapability

end LinearOperator

end PrimalDual
