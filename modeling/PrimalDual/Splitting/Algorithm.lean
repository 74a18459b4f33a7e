import PrimalDual.Run.Algorithm
import PrimalDual.Splitting.Iteration

/-!
# The primal-dual iteration as an algorithm

The iteration is set up from the initial point and the parameters of a run, one step is one iteration,
and its variables are the iterates together with the problem and the steps.

* `SplittingState` — the iteration with the hints for its default stopping rule.
* `splittingParameters` — the parameters of the iteration behind those of a run.
* `splittingAlgorithm` — the algorithm of a problem.

Iterates in memory are changed in place; everything else is bound anew at each step.
-/

namespace PrimalDual

variable {α : Type} [Scalar α]

/-- The iteration with the hints for its default stopping rule. -/
structure SplittingState (α : Type) where
  iteration : IterationState α
  /-- Whether the default rule looks at absolute changes rather than relative ones. -/
  absolute : Bool
  /-- Whether the default rule looks at the dual variable, too. -/
  useDual : Bool

/-- The names of the parameters of a run. -/
def splittingArguments : List String :=
  ["x0", "tau", "sigma", "nu", "method", "lambda_", "rescale", "abs_tol", "use_dual"]

/-- The parameters of the iteration behind those of a run; absent optional ones are left out. -/
def splittingParameters (given : Parameters α) : Parameters α :=
  let optional := [("tau", "tau"), ("sigma", "sigma"), ("lambda", "lambda_"), ("abs_tol", "abs_tol"),
    ("use_dual", "use_dual")].map fun (name, argument) => (name, given.get argument)
  [("nu", given.getD "nu" (.number (.int 1))),
    ("method", given.getD "method" (.text Method.plain.tag)),
    ("rescale", given.getD "rescale" (.number (.bool false)))] ++
    optional.filter fun entry => !entry.2.isNull

namespace SplittingState

/-- The initial state of a problem. -/
def start (f : Option (Smooth α)) (terms : List (TermArgument α)) (given : Parameters α) :
    Except Fault (SplittingState α) :=
  if !given.within splittingArguments || !given.has "x0" then .error .wrongType
  else do
    let ps := splittingParameters given
    let s ← IterationState.start (given.get "x0") f (some terms) ps
    let hints := ps.withHints
    pure ⟨s, (hints.get "abs_tol").truthy, (hints.get "use_dual").truthy⟩

/-- One iteration. -/
def step (s : SplittingState α) : Stride (SplittingState α) :=
  let (t, outcome) := s.iteration.iterate
  ⟨{ s with iteration := t }, 0, outcome⟩

/-- The variables. -/
def bindings (s : SplittingState α) : List (Variable α) :=
  let t := s.iteration
  let iterate (name : String) (a : NdArray α) : Variable α :=
    ⟨name, .array a, a.backend == .memory⟩
  let fixed (name : String) (v : Value α) : Variable α := ⟨name, v, false⟩
  let term (h : Proximable α) : Value α := .object h.className h.text
  [iterate "x" t.x,
    fixed "f" (.object t.smooth.className t.smooth.className),
    fixed "terms" (.list [term t.first, term t.second]),
    fixed "tau" t.tau,
    fixed "sigma" t.sigma,
    fixed "method" t.method.asValue,
    fixed "momentum" (.object t.momentum.className t.momentum.text),
    iterate "z" t.z,
    fixed "p" (.array t.p),
    fixed "q" (.array t.q),
    fixed "order" (.tuple [.number (.int t.order.primal), .number (.int t.order.dual)]),
    fixed "K" (.object "LinOp" t.operator.text),
    fixed "weight" (match t.weight with
      | some w => .number w
      | none => .null),
    fixed "dual_var" (.array t.dual)]

/-- The rule on the change of one iterate by which a run stops. -/
def changeRule (s : SplittingState α) (var : String) : Criterion α :=
  let rule : NormRule α :=
    ⟨.real (Scalar.ratio 1 10000), var, 1, .ok, .int 2, true⟩
  .ofChange (if s.absolute then .absolute else .relative) rule

/-- The rule that stops a run which brings none: two iterations at least, and small changes. -/
def defaultRule (s : SplittingState α) : Criterion α :=
  let primal := s.changeRule "x"
  let change := if s.useDual then .both primal (s.changeRule "z") else primal
  .both (.maxIter 2 0) change

/-- What is logged when the initial state is known. -/
def note (s : SplittingState α) : LogEntry α :=
  let t := s.iteration
  .setup t.method t.tau t.sigma t.primalTerm.text t.dualTerm.text t.operator.text

end SplittingState

/-- The solution of a given name, which has to be among the logged variables. -/
def splittingSolution (logged : Except Fault (Parameters α)) (which : Option (Value α)) :
    Except Fault (Value α) := do
  let data ← logged
  match which.getD (.text "primal") with
  | .text "primal" => if data.has "x" then pure (data.get "x") else throw .primalNotLogged
  | .text "dual" => if data.has "z" then pure (data.get "z") else throw .dualNotLogged
  | v => throw (.unknownSolution v.shown)

/-- The algorithm of a problem. -/
def splittingAlgorithm (f : Option (Smooth α)) (terms : List (TermArgument α)) :
    Algorithm α (SplittingState α) (Criterion α) where
  start := SplittingState.start f terms
  step := SplittingState.step
  bindings := SplittingState.bindings
  objective := some fun s => s.iteration.objective
  rule s := .ok s.defaultRule
  note s := some s.note
  solution _ := splittingSolution

end PrimalDual
