import PrimalDual.Functional.Smooth

/-!
# Functionals with a proximity operator

The non-smooth parts of an objective are evaluated through their proximity operators
`prox x τ = argmin h(v) + |v - x|² / (2 τ)`. A term may be scaled by positive factors any number of
times, and may carry one linear operator, which solvers apply themselves.

* `Penalty` — the elementary functionals.
* `Proximable` — a term: an elementary functional under scalings, with or without an operator.
* `Proximable.value`, `prox` — the functional and its proximity operator on arrays.
* `Proximable.conjugateProx` — the proximity operator of the conjugate, by a closed form where there is
  one and by Moreau's identity otherwise; `moreau` is that identity.
* `Proximable.scale`, `compose` — scaling, and attaching an operator.
-/

namespace PrimalDual

/-- The elementary functionals. -/
inductive Penalty (α : Type) where
  /-- The sum of magnitudes. -/
  | absolute
  /-- The Euclidean length. -/
  | euclidean
  /-- Zero on points without negative elements, infinite elsewhere. -/
  | orthant
  /-- Zero on points between two bounds, infinite elsewhere. -/
  | box (lower upper : Value α)
  /-- The null functional. -/
  | zero
  /-- Says nothing about its values. -/
  | unspecified

/-- A non-smooth term of an objective. -/
inductive Proximable (α : Type) where
  | plain (penalty : Penalty α) (dim : Option Int) (operator : Option (LinearOperator α))
  | scaled (factor : α) (term : Proximable α) (operator : Option (LinearOperator α))

section

variable {α : Type} [Scalar α]

namespace Penalty

/-- The name of the functional's class. -/
def className : Penalty α → String
  | absolute => "L1Norm"
  | euclidean => "L2Norm"
  | orthant => "PositiveOrthant"
  | box .. => "Box"
  | zero => "NullFunc"
  | unspecified => "NonSmoothTerm"

/-- From truth values, zero where they hold and infinity elsewhere, in kind `k`. -/
def indicator (k : Kind) (inside : NdArray α) : NdArray α :=
  (NdArray.tabulate inside.backend inside.shape .double fun i =>
    if inside.wholeAt i = 0 then Scalar.inf else Scalar.zero).convert k

/-- Truth values that hold where both do. -/
def both (a b : NdArray α) : Except Fault (NdArray α) := arith .mul (.array a) (.array b)

/-- The Euclidean lengths along the trailing axis. -/
def lengths (x : NdArray α) : NdArray α := (x.square.sumTail 1).squareRoot

/-- The functional at the points of an array, one value for each. -/
def value (h : Penalty α) (x : NdArray α) : Except Fault (NdArray α) :=
  match h with
  | absolute => .ok (x.magnitude.sumTail 1)
  | euclidean => .ok (lengths x)
  | orthant => do
    let inside ← compare .atMost (.number (.int 0)) (.array x)
    pure (indicator x.kind inside.allLast)
  | box lower upper => do
    let l ← lower.toOperand
    let above ← compare .atMost l (.array x)
    let u ← upper.toOperand
    let below ← compare .atMost (.array x) u
    let inside ← both above below
    pure (indicator x.kind inside.allLast)
  | zero => .ok (Smooth.zeroValues x)
  | unspecified => .error .abstract

/-- Moves every element toward zero by `tau` and stops there. -/
def shrink (x : NdArray α) (tau : Operand α) : Except Fault (NdArray α) := do
  let excess ← arith .sub (.array x.magnitude) tau
  let y ← arith .maxNum (.number (.int 0)) (.array excess)
  let s ← x.signs
  y.update .mul (.array s)

/-- Shortens every point by `tau`, to the origin if it is shorter than that. -/
def shorten (x : NdArray α) (tau : Operand α) : Except Fault (NdArray α) := do
  let longest ← arith .maxNum (.array (lengths x)) tau
  let part ← arith .div tau (.array longest)
  let factor ← arith .sub (.number (.int 1)) (.array part)
  x.update .mul (.array factor)

/-- The proximity operator with step `tau`. Projections do not depend on the step. -/
def prox (h : Penalty α) (x : NdArray α) (tau : Value α) : Except Fault (NdArray α) :=
  match h with
  | absolute => do
    let t ← tau.toOperand
    shrink x t
  | euclidean => do
    let t ← tau.toOperand
    shorten x t
  | orthant => clip (some (.number (.int 0))) none x
  | box lower upper => do
    let l ← lower.toOperand
    let u ← upper.toOperand
    clip (some l) (some u) x
  | zero => .ok x
  | unspecified => .error .abstract

/-- The functional at a value that is no array. -/
def valueElsewhere (h : Penalty α) (v : Value α) : Except Fault (Value α) :=
  match h, v with
  | .absolute, v | .euclidean, v | .zero, v => .error (.noArrayModule v.kindName)
  | .orthant, .number _ => .error .noCapability
  | .orthant, _ => .error .wrongType
  | .box (.text _) _, _ | .box _ (.text _), _ => .error .wrongType
  | .box .., .number _ => .error .noCapability
  | .box (.array _) (.array _), .list _ => .error .noCapability
  | .box .., _ => .error .wrongType
  | .unspecified, _ => .error .abstract

/-- The proximity operator at a value that is no array. -/
def proxElsewhere (h : Penalty α) (v : Value α) : Except Fault (Value α) :=
  match h with
  | absolute | euclidean | box .. => .error (.noArrayModule v.kindName)
  | orthant => .error .noCapability
  | zero => .ok v
  | unspecified => .error .abstract

/-- Whether the bounds of a box are in order, element by element. -/
def boundsInOrder : Value α → Value α → Bool
  | .number l, .number u => l.atMost u
  | .text l, .text u => decide (l ≤ u)
  | l, u =>
    match l.toOperand, u.toOperand with
    | .ok a, .ok b =>
      match compare .atMost a b with
      | .ok r => r.allTrue
      | .error _ => false
    | _, _ => false

end Penalty

namespace Proximable

/-! ## Construction -/

/-- An elementary functional on points of a given or of any size. -/
def ofPenalty (h : Penalty α) (dim : Value α) : Except Fault (Proximable α) := do
  let n ← LinearOperator.readSize dim
  pure (plain h n none)

/-- The indicator of a box whose bounds are in order. -/
def box (lower upper dim : Value α) : Except Fault (Proximable α) :=
  if Penalty.boundsInOrder lower upper then ofPenalty (.box lower upper) dim
  else .error (.boxBounds lower.shown upper.shown)

/-- The null functional on points of any size. -/
def anyZero : Proximable α := plain .zero none none

/-- The size of a point, if it is fixed. -/
def dim : Proximable α → Option Int
  | plain _ n _ => n
  | scaled _ t _ => t.dim

/-- The linear operator that the term carries. -/
def operator : Proximable α → Option (LinearOperator α)
  | plain _ _ K => K
  | scaled _ _ K => K

/-- The name of the term's class. -/
def className : Proximable α → String
  | plain h _ _ => h.className
  | scaled .. => "_ScaledTerm"

/-- The term as text. An operator that was attached after a scaling is not shown. -/
def text : Proximable α → String
  | plain h n K =>
    let body := s!"{h.className}(dim={sizeText n})"
    match K with
    | some K => body ++ " * " ++ K.text
    | none => body
  | scaled c t _ => plainText .double (Scalar.reading c) ++ " * " ++ t.text

/-- The term times a positive factor. -/
def scale (t : Proximable α) (factor : Number α) : Except Fault (Proximable α) :=
  if !factor.isPositive then .error (.scaleNotPositive factor.text)
  else do
    let c ← factor.toReal
    pure (scaled c t t.operator)

/-- The term times a value: only numbers scale. -/
def scaleBy (t : Proximable α) : Value α → Except Fault (Proximable α)
  | .number c => t.scale c
  | _ => .error .wrongType

/-- The same term with an operator attached. -/
def withOperator (K : LinearOperator α) : Proximable α → Proximable α
  | plain h n _ => plain h n (some K)
  | scaled c t _ => scaled c t (some K)

/-- Attaches a linear operator. A term carries at most one, and known sizes must agree. -/
def compose (t : Proximable α) (K : LinearOperator α) : Except Fault (Proximable α) :=
  match t.operator with
  | some K₀ => .error (.alreadyComposed t.text K₀.text)
  | none =>
    match t.dim, K.codim with
    | some n, some m =>
      if n = m then .ok (t.withOperator K) else .error (.composedSizes t.text K.text)
    | _, _ => .ok (t.withOperator K)

/-! ## Evaluation on arrays -/

/-- The functional at the points of an array, without the operator that the term carries. -/
def value : Proximable α → NdArray α → Except Fault (NdArray α)
  | plain h _ _, x => h.value x
  | scaled c t _, x => do
    let y ← t.value x
    arith .mul (.number (.real c)) (.array y)

/-- The proximity operator with step `tau`; a factor of the term multiplies the step. -/
def prox : Proximable α → NdArray α → Value α → Except Fault (NdArray α)
  | plain h _ _, x, tau => h.prox x tau
  | scaled c t _, x, tau => do
    let step ← Value.arith .mul (.number (.real c)) tau
    t.prox x step

/-- Moreau's identity: the proximity operator of the conjugate at `z` is `z - σ prox (z / σ) (1 / σ)`. -/
def moreau (t : Proximable α) (z : NdArray α) (sigma : Value α) : Except Fault (NdArray α) := do
  let s ← sigma.toOperand
  let inner ← arith .div (.array z) s
  let step ← Value.arith .div (.number (.int 1)) sigma
  let p ← t.prox inner step
  let back ← match sigma with
    | .number n => pure (Operand.number n.neg)
    | _ => throw .wrongType
  let q ← p.update .mul back
  q.update .add (.array z)

/-- The proximity operator of the conjugate. The conjugate of the sum of magnitudes is the indicator
of the unit cube, that of the null functional the indicator of the origin. -/
def conjugateProx (t : Proximable α) (z : NdArray α) (sigma : Value α) : Except Fault (NdArray α) :=
  match t with
  | plain .absolute _ _ => clip (some (.number (.int (-1)))) (some (.number (.int 1))) z
  | plain .zero _ _ => .ok z.zerosLike
  | t => t.moreau z sigma

/-! ## Evaluation on values of any kind -/

/-- The functional at a value of any kind. -/
def apply : Proximable α → Value α → Except Fault (Value α)
  | plain h _ _, .array x => (h.value x).map .array
  | plain h _ _, v => h.valueElsewhere v
  | scaled c t _, v => do
    let y ← t.apply v
    Value.arith .mul (.number (.real c)) y

/-- The proximity operator at a value of any kind. -/
def proxAt : Proximable α → Value α → Value α → Except Fault (Value α)
  | plain h _ _, .array x, tau => (h.prox x tau).map .array
  | plain h _ _, v, _ => h.proxElsewhere v
  | scaled c t _, v, tau => do
    let step ← Value.arith .mul (.number (.real c)) tau
    t.proxAt v step

/-- Moreau's identity at a value of any kind; the inner proximity operator has to yield an array. -/
def moreauAt (t : Proximable α) (v sigma : Value α) : Except Fault (Value α) :=
  match v with
  | .array z => (t.moreau z sigma).map .array
  | v => do
    let inner ← Value.arith .div v sigma
    let step ← Value.arith .div (.number (.int 1)) sigma
    match ← t.proxAt inner step with
    | .array _ => throw .wrongType
    | other => throw (.noBackend other.shown)

/-- The proximity operator of the conjugate at a value of any kind. -/
def conjugateProxAt (t : Proximable α) (v sigma : Value α) : Except Fault (Value α) :=
  match t, v with
  | t, .array z => (t.conjugateProx z sigma).map .array
  | plain .absolute _ _, _ => .error .noCapability
  | plain .zero _ _, v => .error (.noArrayModule v.kindName)
  | t, v => t.moreauAt v sigma

end Proximable

end

end PrimalDual
