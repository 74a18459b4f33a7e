import PrimalDual.Functional.Proximable
import PrimalDual.Splitting.Schedule
import PrimalDual.Splitting.StepSize
import PrimalDual.Value.Parameters

/-!
# The primal-dual iteration

The problem is to minimise `f(x) + g(x) + h(K x)` for a smooth `f` and two terms with proximity
operators, of which at most one carries a linear operator `K`. That term is handled through a dual
variable `z`; the other one on the primal side. One iteration computes

* `p = prox_{τ g} (x - τ (∇f(x) + Kᵀ z))`,
* `q = prox_{σ h*} (z + σ K (2 p - x))`,

and then moves `x` toward `p` and `z` toward `q` by the same weight.

* `resolveOperator` — which term goes to which side, and the operator.
* `IterationState` — the iterates together with the problem and the steps.
* `IterationState.start`, `IterationState.setup` — the initial state, alone and with the parameters that
  led to it; every inconsistency of the setup is refused here, except a missing constant weight.
* `IterationState.iterate` — one iteration, which leaves the new state and says whether it succeeded.
* `IterationState.objective` — the value of the objective at the current point.
-/

namespace PrimalDual

/-- Which of the two terms is on the primal side; the other one is on the dual side. -/
inductive Order where
  /-- The first term is on the primal side. -/
  | direct
  /-- The second term is on the primal side. -/
  | swapped
  deriving DecidableEq, Repr, Inhabited

namespace Order

/-- The place of the primal-side term. -/
def primal : Order → Nat
  | direct => 0
  | swapped => 1

/-- The place of the dual-side term. -/
def dual : Order → Nat
  | direct => 1
  | swapped => 0

end Order

/-- A non-smooth term as the caller gives it. -/
inductive TermArgument (α : Type) where
  | absent
  | term (t : Proximable α)
  | foreign (v : Value α)

namespace Parameters

variable {α : Type}

/-- The parameters with the defaults that the setup reads. -/
def withDefaults (ps : Parameters α) : Parameters α :=
  ((ps.setDefault "rescale" (.number (.bool false))).setDefault "nu" (.number (.int 1))).setDefault
    "method" (.text Method.plain.tag)

/-- The parameters with the hints for the default stopping rule. -/
def withHints (ps : Parameters α) : Parameters α :=
  (ps.setDefault "abs_tol" (.number (.bool true))).setDefault "use_dual" (.number (.bool true))

/-- The parameters as the setup hands them back: with all defaults, and with the policy itself in the
place of its tag. -/
def sanitized (ps : Parameters α) (method : Method) : Parameters α :=
  (ps.withDefaults.set "method" method.asValue).withHints

end Parameters

section

variable {α : Type} [Scalar α]

/-- The term behind an argument, the null functional for an absent one. -/
def TermArgument.fill : TermArgument α → TermArgument α
  | .absent => .term .anyZero
  | t => t

/-- The term behind an argument that is asked for its operator. -/
def TermArgument.require : TermArgument α → Except Fault (Proximable α)
  | .term t => .ok t
  | _ => .error .noCapability

/-- The sides of two terms and the operator, the identity when neither carries one. -/
def chooseSides (first second : Proximable α) : Except Fault (Order × LinearOperator α) :=
  match first.operator, second.operator with
  | some _, some _ => .error .twoOperators
  | some K, none => .ok (.swapped, K)
  | none, some K => .ok (.direct, K)
  | none, none => .ok (.direct, .anyIdentity)

/-- The sides of the terms and the operator; there have to be two terms. -/
def resolveOperator (terms : List (TermArgument α)) : Except Fault (Order × LinearOperator α) :=
  match terms with
  | [a, b] => do
    let first ← a.require
    let second ← b.require
    chooseSides first second
  | ts => .error (.termCount ts.length)

/-- The state of the iteration. -/
structure IterationState (α : Type) where
  smooth : Smooth α
  first : Proximable α
  second : Proximable α
  /-- The primal step. -/
  tau : Value α
  /-- The dual step. -/
  sigma : Value α
  method : Method
  momentum : Momentum α
  order : Order
  operator : LinearOperator α
  /-- The primal iterate. -/
  x : NdArray α
  /-- The dual iterate. -/
  z : NdArray α
  /-- The last primal proximal point. -/
  p : NdArray α
  /-- The last dual proximal point. -/
  q : NdArray α
  /-- A copy of the dual iterate. -/
  dual : NdArray α
  /-- The weight of the last iteration. -/
  weight : Option (Number α)

namespace IterationState

/-- The term on the primal side. -/
def primalTerm (s : IterationState α) : Proximable α :=
  match s.order with
  | .direct => s.first
  | .swapped => s.second

/-- The term on the dual side. -/
def dualTerm (s : IterationState α) : Proximable α :=
  match s.order with
  | .direct => s.second
  | .swapped => s.first

/-! ## The initial state -/

/-- The initial point as floating-point numbers. -/
def readPoint : Value α → Except Fault (NdArray α)
  | .array a => .ok (if a.kind.isReal then a else a.convert .double)
  | v => .error (.noArrayModule v.kindName)

/--
The initial state, from the initial point, the smooth term, the two terms and the parameters. The
point itself is not changed. Absent terms stand for null functionals.
-/
def start (x₀ : Value α) (f : Option (Smooth α)) (terms : Option (List (TermArgument α)))
    (given : Parameters α) : Except Fault (IterationState α) := do
  let ps := given.withDefaults
  if (ps.get "rescale").truthy then throw .rescaleUnsupported
  match terms with
  | some [a, b] =>
    let smooth := f.getD .anyZero
    let first ← a.fill.require
    let second ← b.fill.require
    let (order, K) ← chooseSides first second
    let (tau, sigma) ←
      stepSizes (.number (.real smooth.curvature)) (ps.get "nu") (ps.get "tau") (ps.get "sigma")
    let method ← Method.ofTag (ps.get "method")
    let momentum ← Momentum.ofMethod method (ps.get "lambda")
    let x ← readPoint x₀
    let z ← K.map x
    pure {
      smooth := smooth
      first := first
      second := second
      tau := tau
      sigma := sigma
      method := method
      momentum := momentum
      order := order
      operator := K
      x := x
      z := z
      p := x
      q := z.zerosLike
      dual := z
      weight := none }
  | some ts => throw (.termCount ts.length)
  | none => throw .wrongType

/-- The initial state, and the parameters with what the setup has filled in. The parameters that were
given are not changed. -/
def setup (x₀ : Value α) (f : Option (Smooth α)) (terms : Option (List (TermArgument α)))
    (given : Parameters α) : Except Fault (IterationState α × Parameters α) := do
  let s ← start x₀ f terms given
  pure (s, given.sanitized s.method)

/-! ## One iteration -/

/-- The argument of the primal proximity operator, `x - τ (∇f(x) + Kᵀ z)`. -/
def primalPoint (s : IterationState α) : Except Fault (NdArray α) := do
  let g ← s.smooth.gradient s.x
  let back ← s.operator.adjointMap s.z
  let direction ← arith .add (.array g) (.array back)
  let tau ← s.tau.toOperand
  let move ← arith .mul tau (.array direction)
  arith .sub (.array s.x) (.array move)

/-- The argument of the dual proximity operator, `z + σ K (2 p - x)`. -/
def dualPoint (s : IterationState α) (p : NdArray α) : Except Fault (NdArray α) := do
  let twice ← arith .mul (.number (.int 2)) (.array p)
  let ahead ← arith .sub (.array twice) (.array s.x)
  let image ← s.operator.map ahead
  let sigma ← s.sigma.toOperand
  let move ← arith .mul sigma (.array image)
  arith .add (.array s.z) (.array move)

/-- The two proximal points `p` and `q`. -/
def proximalPoints (s : IterationState α) : Except Fault (NdArray α × NdArray α) := do
  let u ← s.primalPoint
  let p ← s.primalTerm.prox u s.tau
  let v ← s.dualPoint p
  let q ← s.dualTerm.conjugateProx v s.sigma
  pure (p, q)

/-- Moves `u` toward `v` by the part `w`, in place. -/
def relax (w : Number α) (u v : NdArray α) : Except Fault (NdArray α) := do
  let d ← arith .sub (.array v) (.array u)
  let move ← arith .mul (.number w) (.array d)
  u.update .add (.array move)

/-- What an update of `x` leaves behind when a later step fails: a change in place stays. -/
def leaveBehind (s : IterationState α) (x : NdArray α) : IterationState α :=
  match s.x.backend with
  | .memory => { s with x := x }
  | .chunked => s

/--
One iteration. The weight is taken after both proximal points are known, so nothing changes when one
of them, or the weight itself, cannot be computed.
-/
def iterate (s : IterationState α) : IterationState α × Except Fault Unit :=
  match s.proximalPoints with
  | .error e => (s, .error e)
  | .ok (p, q) =>
    match s.momentum.weight with
    | .error e => (s, .error e)
    | .ok w =>
      let s := { s with momentum := s.momentum.advance }
      match relax w s.x p with
      | .error e => (s, .error e)
      | .ok x =>
        match relax w s.z q with
        | .error e => (s.leaveBehind x, .error e)
        | .ok z => ({ s with x := x, z := z, p := p, q := q, dual := z, weight := some w }, .ok ())

/-- Iterates at most `n` times and stops at the first failure. -/
def iterateMany : Nat → IterationState α → IterationState α × Except Fault Unit
  | 0, s => (s, .ok ())
  | n + 1, s =>
    match s.iterate with
    | (s, .ok ()) => iterateMany n s
    | (s, .error e) => (s, .error e)

/-- The objective `f(x) + g(x) + h(K x)` at the current point, one value for each stacked point. -/
def objective (s : IterationState α) : Except Fault (NdArray α) := do
  let a ← s.smooth.value s.x
  let b ← s.primalTerm.value s.x
  let ab ← arith .add (.array a) (.array b)
  let image ← s.operator.map s.x
  let c ← s.dualTerm.value image
  arith .add (.array ab) (.array c)

end IterationState

end

end PrimalDual
