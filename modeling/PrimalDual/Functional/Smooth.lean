import PrimalDual.Operator.Linear

/-!
# Smooth functionals

The smooth part of an objective is evaluated through its gradient. Its curvature bounds the Lipschitz
constant of the gradient; it is zero for an affine functional and infinite where nothing is known.

* `Smooth` — a smooth functional: its formula, the size of its points, and its curvature.
* `Smooth.zero`, `leastSquares`, `quadratic`, `unspecified` — the functionals.
* `Smooth.value`, `Smooth.gradient` — the functional and its gradient on arrays.
* `Smooth.apply`, `Smooth.grad` — the same on values of any kind.
* `Smooth.setCurvature` — replaces the curvature.
-/

namespace PrimalDual

/-- The formula of a smooth functional. -/
inductive SmoothRule (α : Type) where
  /-- The null functional. -/
  | zero
  /-- Half the squared distance between the image of a point and the data; no data counts as zero. -/
  | leastSquares (forward : LinearOperator α) (data : Value α)
  /-- Half the squared length of a point times a factor. -/
  | quadratic (factor : Value α)
  /-- Says nothing about its values. -/
  | unspecified

/-- A smooth functional. -/
structure Smooth (α : Type) where
  rule : SmoothRule α
  /-- The size of a point, if it is fixed. -/
  dim : Option Int
  /-- A bound on the Lipschitz constant of the gradient. -/
  curvature : α

namespace Smooth

variable {α : Type}

/-- The name of the functional's class. -/
def className (f : Smooth α) : String :=
  match f.rule with
  | .zero => "NullFunc"
  | .leastSquares .. => "SquaredL2Loss"
  | .quadratic _ => "Quadratic"
  | .unspecified => "SmoothTerm"

variable [Scalar α]

/-- A curvature: any number that is at least zero. -/
def readCurvature (given : Value α) : Except Fault α :=
  let curvature : Except Fault α := do
    if ← given.nonNegative then given.toReal else throw .wrongType
  curvature.mapError fun _ => .negativeSmoothness given.shown

/-- Replaces the curvature of the functional. -/
def setCurvature (f : Smooth α) (given : Value α) : Except Fault (Smooth α) := do
  let c ← readCurvature given
  pure { f with curvature := c }

/-- The functional of points of a given size about which nothing else is known. -/
def unspecified (dim : Value α) : Except Fault (Smooth α) := do
  let n ← LinearOperator.readSize dim
  pure ⟨.unspecified, n, Scalar.inf⟩

/-- The null functional. -/
def zero (dim : Value α) : Except Fault (Smooth α) := do
  let n ← LinearOperator.readSize dim
  pure ⟨.zero, n, Scalar.zero⟩

/-- The null functional on points of any size. -/
def anyZero : Smooth α := ⟨.zero, none, Scalar.zero⟩

/-- Half the squared length times a factor, which is also the curvature. -/
def quadratic (factor : Value α) : Except Fault (Smooth α) := do
  let c ← readCurvature factor
  pure ⟨.quadratic factor, none, c⟩

/-- The length of the trailing axis of the data; only arrays have one. -/
def dataLength : Value α → Except Fault Nat
  | .array a =>
    match a.shape.getLast? with
    | some n => .ok n
    | none => .error .indexOutOfRange
  | _ => .error .noCapability

/-- The shape of the data, as text. -/
def dataShape : Value α → String
  | .array a => a.shape.text
  | v => v.shown

/-- The forward operator of a least-squares functional, the identity on the data unless one is given. -/
inductive Forward (α : Type) where
  | absent
  | operator (K : LinearOperator α)
  | foreign (v : Value α)

/-- The operator that a forward argument stands for. -/
def forwardOperator (data : Value α) : Forward α → Except Fault (LinearOperator α)
  | .operator K => .ok K
  | .foreign v => .error (.forwardNotOperator v.kindName)
  | .absent =>
    if data.isNull then .ok LinearOperator.anyIdentity
    else do
      let n ← dataLength data
      LinearOperator.identity (.number (.int n))

/-- Half the squared distance of the image of a point from the data. The data must have the size of
the image; the curvature is the square of the operator's bound. -/
def leastSquares (data : Value α) (forward : Forward α) : Except Fault (Smooth α) := do
  let K ← forwardOperator data forward
  match K.codim with
  | some m =>
    if !data.isNull then
      let n ← dataLength data
      if (n : Int) ≠ m then throw (.dataSize (toString m) (dataShape data))
  | none => pure ()
  let squared ← (Number.real K.bound).square
  pure ⟨.leastSquares K data, K.dim, squared.value⟩

/-- The image of a point less the data. -/
def residual (K : LinearOperator α) (data : Value α) (x : NdArray α) : Except Fault (NdArray α) := do
  let r ← K.map x
  if data.isNull then pure r
  else
    let d ← data.toOperand
    arith .sub (.array r) d

/-- A fraction of the sums of squares along the trailing axis. -/
def halfSquares (factor : Number α) (r : NdArray α) : Except Fault (NdArray α) :=
  arith .mul (.number factor) (.array (r.square.sumTail 1))

/-- The factor one half. -/
def half : Number α := .real (Scalar.ratio 1 2)

/-- Zeros with one element for every point. -/
def zeroValues (x : NdArray α) : NdArray α :=
  let s := x.shape.replaceTail 1 [1]
  match x.kind with
  | .whole k => .tabulateWhole x.backend s k fun _ => 0
  | .real p => .tabulate x.backend s p fun _ => Scalar.zero

/-- The functional at the points of an array, one value for each. -/
def value (f : Smooth α) (x : NdArray α) : Except Fault (NdArray α) :=
  match f.rule with
  | .zero => .ok (zeroValues x)
  | .leastSquares K data => do
    let r ← residual K data x
    halfSquares half r
  | .quadratic factor => do
    let c ← Value.arith .div factor (.number (.int 2))
    match c with
    | .number c => halfSquares c x
    | _ => throw .wrongType
  | .unspecified => .error .abstract

/-- The gradient of the functional at the points of an array. -/
def gradient (f : Smooth α) (x : NdArray α) : Except Fault (NdArray α) :=
  match f.rule with
  | .zero => .ok x.zerosLike
  | .leastSquares K data => do
    let r ← residual K data x
    K.adjointMap r
  | .quadratic factor => do
    let c ← factor.toOperand
    arith .mul c (.array x)
  | .unspecified => .error .abstract

/-- The residual at a value that is no array: only what the forward operator lets through. -/
def residualValue (K : LinearOperator α) (data v : Value α) : Except Fault (Value α) := do
  let r ← K.apply v
  if data.isNull then pure r else Value.arith .sub r data

/-- The functional at a value of any kind. -/
def apply (f : Smooth α) (v : Value α) : Except Fault (Value α) :=
  match f.rule, v with
  | _, .array x => (f.value x).map .array
  | .zero, v => .error (.noArrayModule v.kindName)
  | .leastSquares K data, v => do
    match ← residualValue K data v with
    | .array r => (halfSquares half r).map .array
    | .number _ => throw .noCapability
    | _ => throw .wrongType
  | .quadratic _, .number _ => .error .noCapability
  | .quadratic _, _ => .error .wrongType
  | .unspecified, _ => .error .abstract

/-- The gradient at a value of any kind. -/
def grad (f : Smooth α) (v : Value α) : Except Fault (Value α) :=
  match f.rule, v with
  | _, .array x => (f.gradient x).map .array
  | .zero, v => .error (.noArrayModule v.kindName)
  | .leastSquares K data, v => do
    let r ← residualValue K data v
    K.adjoint r
  | .quadratic factor, v => Value.arith .mul factor v
  | .unspecified, _ => .error .abstract

end Smooth

end PrimalDual
