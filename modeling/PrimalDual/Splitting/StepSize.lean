import PrimalDual.Value.Arith

/-!
# Step sizes

The iteration takes primal steps of length `τ` and dual steps of length `σ`. It converges when
`1/τ - σ ν ≥ β/2`, where `β` bounds the curvature of the smooth term and `ν` the squared norm of the
linear operator. Steps that the caller does not pin are chosen so that equality holds.

* `stepSizes` — the two steps from `β`, `ν` and what the caller pinned.

With neither step pinned `τ = 1/β` and `σ = β/(2ν)`; with `τ` pinned `σ = (1/τ - β/2)/ν`; with `σ`
pinned `τ = 1/(σν + β/2)`. Two pinned steps are returned unchecked, and `β` is then not looked at.
-/

namespace PrimalDual

variable {α : Type} [Scalar α]

/-- The number behind a value that arithmetic is about to use. -/
def Value.asNumber : Value α → Except Fault (Number α)
  | .number n => .ok n
  | _ => .error .wrongType

/-- Whether a number is below infinity. -/
def Number.isBounded (n : Number α) : Bool := n.below (.real Scalar.inf)

/-- The bound `ν`, which has to be a positive number. -/
def readNu (nu : Value α) : Except Fault (Number α) :=
  match nu with
  | .number n => if n.isPositive then .ok n else .error (.nuNotPositive nu.shown)
  | _ => .error (.nuNotPositive nu.shown)

/-- Both steps, when neither is pinned: `τ = 1/β` and `σ = β/(2ν)`. -/
def freeSteps (beta nu : Number α) : Except Fault (Number α × Number α) :=
  if beta.isPositive && beta.isBounded then do
    let tau ← (Number.int 1).div beta
    let twice ← (Number.int 2).mul nu
    let sigma ← beta.div twice
    pure (tau, sigma)
  else .error (.stepsNotInferable beta.text)

/-- The dual step that goes with a primal one: `σ = (1/τ - β/2)/ν`, unless that is negative. -/
def dualStep (beta nu tau : Number α) : Except Fault (Number α) := do
  let inverse ← (Number.int 1).div tau
  let half ← beta.div (.int 2)
  let gap ← inverse.sub half
  let sigma ← gap.div nu
  if sigma.below (.int 0) then
    let limit ← (Number.int 2).div beta
    throw (.tauTooLarge tau.text limit.text)
  else pure sigma

/-- The primal step that goes with a dual one: `τ = 1/(σν + β/2)`. -/
def primalStep (beta nu sigma : Number α) : Except Fault (Number α) :=
  if beta.isBounded then do
    let product ← sigma.mul nu
    let half ← beta.div (.int 2)
    let total ← product.add half
    (Number.int 1).div total
  else .error (.tauNotInferable beta.text)

/-- The primal and the dual step. A pinned step is returned as it was given. -/
def stepSizes (beta nu tau sigma : Value α) : Except Fault (Value α × Value α) := do
  let n ← readNu nu
  match tau, sigma with
  | .null, .null => do
    let b ← beta.asNumber
    let (t, s) ← freeSteps b n
    pure (.number t, .number s)
  | tau, .null => do
    let t ← tau.asNumber
    if !t.isPositive then throw (.tauNotPositive tau.shown)
    let b ← beta.asNumber
    let s ← dualStep b n t
    pure (tau, .number s)
  | .null, sigma => do
    let s ← sigma.asNumber
    if !s.isPositive then throw (.sigmaNotPositive sigma.shown)
    let b ← beta.asNumber
    let t ← primalStep b n s
    pure (.number t, sigma)
  | tau, sigma => pure (tau, sigma)

end PrimalDual
