import PrimalDual.Criterion.Basic
import PrimalDual.Run.Log
import PrimalDual.Value.Parameters

/-!
# Algorithms and stopping rules

A run drives an algorithm under a stopping rule. All it knows about the algorithm is how to set it up
and how to take a step, and all it knows about the rule is how to evaluate it, how to ask for its
statistics, and how to start it afresh.

* `Variable`, `Observation.ofVariables` — the variables of an algorithm, and how a rule sees them.
* `Algorithm` — the algorithm.
* `StoppingRule` — the rule; a `Criterion` is one.
* `Algorithm.unspecified` — the algorithm that says nothing about itself.
-/

namespace PrimalDual

/-- A variable of an algorithm. -/
structure Variable (α : Type) where
  name : String
  value : Value α
  /-- Whether steps change its array in place; otherwise they bind the variable to another value. -/
  inPlace : Bool

namespace Observation

variable {α : Type}

/-- The cells of the arrays that are changed in place, one for each variable. -/
def memoryOf (vars : List (Variable α)) : Memory α :=
  ⟨(vars.map fun v => v.value.array?.getD Memory.nothing).toArray⟩

/-- What a variable holds; its cell is numbered by its place. -/
def slotOf (v : Variable α) (place : Nat) : Slot α :=
  if v.inPlace && v.value.array?.isSome then .array place else .value v.value

/-- What a stopping rule sees of some variables. -/
def ofVariables (vars : List (Variable α)) (now : Int) : Observation α where
  memory := memoryOf vars
  bindings := vars.zipIdx.map fun (v, i) => (v.name, slotOf v i)
  now := now

end Observation

/-- What a step leaves behind, whether it succeeds or not. -/
structure Stride (σ : Type) where
  state : σ
  /-- The time that it took, in microseconds. -/
  elapsed : Int
  outcome : Except Fault Unit

/-- A stopping rule with its memory. -/
class StoppingRule (α : outParam Type) (κ : Type) where
  /-- Evaluates the rule: the rule afterwards, and the decision. -/
  stop : κ → Observation α → κ × Except Fault Bool
  /-- The statistics of the last evaluation by label. -/
  info : κ → Memory α → Except Fault (List (String × Number α))
  /-- The rule before any evaluation, with its clock started. -/
  clear : Int → κ → κ

instance {α : Type} [Scalar α] : StoppingRule α (Criterion α) where
  stop := Criterion.stop
  info := Criterion.info
  clear := Criterion.clear

/-- An algorithm on states `σ` that stops by rules `κ`. -/
structure Algorithm (α σ κ : Type) where
  /-- The initial state from the parameters of a run. -/
  start : Parameters α → Except Fault σ
  /-- One step. -/
  step : σ → Stride σ
  /-- The variables in a state. -/
  bindings : σ → List (Variable α)
  /-- The value of the objective in a state, if the algorithm has an objective. -/
  objective : Option (σ → Except Fault (NdArray α))
  /-- The rule that stops a run which brings none. -/
  rule : σ → Except Fault κ
  /-- What is logged when the initial state is known. -/
  note : σ → Option (LogEntry α)
  /-- The solution of a given name, from the state and from the logged variables. -/
  solution : Option σ → Except Fault (Parameters α) → Option (Value α) → Except Fault (Value α)

/-- The algorithm that says nothing about itself. -/
def Algorithm.unspecified {α κ : Type} : Algorithm α Empty κ where
  start _ := .error .abstract
  step s := nomatch s
  bindings s := nomatch s
  objective := none
  rule s := nomatch s
  note s := nomatch s
  solution _ _ which := .error (if which.isSome then .wrongType else .abstract)

end PrimalDual
