import PrimalDual.Run.Algorithm
import PrimalDual.Value.Arith

/-!
# The affine recurrence

The simplest algorithm that a run can drive: each step replaces `x` by `a x + b`, takes a fixed time,
and gives up at a step of its choice.

* `Recurrence` — the state.
* `recurrenceAlgorithm` — the algorithm, without an objective and without a stopping rule of its own.
-/

namespace PrimalDual

variable {α : Type} [Scalar α]

/-- The state of the affine recurrence. -/
structure Recurrence (α : Type) where
  x : Value α
  /-- The number of steps taken. -/
  count : Nat
  factor : Value α
  offset : Value α
  /-- The number of steps after which the next one is given up. -/
  failAt : Value α
  /-- The seconds that a step takes. -/
  duration : Value α

namespace Recurrence

/-- The names of the parameters. -/
def arguments : List String := ["x0", "a", "b", "fail_at", "tick"]

/-- The initial state. -/
def start (given : Parameters α) : Except Fault (Recurrence α) :=
  if !given.within arguments || !given.has "x0" then .error .wrongType
  else do
    let x ← Criterion.copyOf (given.get "x0")
    pure {
      x := x
      count := 0
      factor := given.getD "a" (.number (.real (Scalar.ratio 1 2)))
      offset := given.getD "b" (.number (.real Scalar.zero))
      failAt := given.get "fail_at"
      duration := given.getD "tick" (.number (.int 0)) }

/-- The time that a step takes. -/
def elapsed (s : Recurrence α) : Except Fault Duration :=
  match s.duration with
  | .number n => Duration.ofParts [(1000000, n)]
  | _ => .error .wrongType

/-- Whether the next step is given up. -/
def fails (s : Recurrence α) : Bool :=
  match s.failAt with
  | .number n => n.equals (.int s.count)
  | _ => false

/-- The next value. -/
def next (s : Recurrence α) : Except Fault (Value α) := do
  let y ← Value.arith .mul s.factor s.x
  Value.arith .add y s.offset

/-- One step. The time passes even when the step is given up. -/
def step (s : Recurrence α) : Stride (Recurrence α) :=
  match s.elapsed with
  | .error e => ⟨s, 0, .error e⟩
  | .ok t =>
    if s.fails then ⟨s, t, .error .iterationFailure⟩
    else
      match s.next with
      | .ok x => ⟨{ s with x := x, count := s.count + 1 }, t, .ok ()⟩
      | .error e => ⟨s, t, .error e⟩

/-- The variables. -/
def bindings (s : Recurrence α) : List (Variable α) :=
  [⟨"x", s.x, false⟩, ⟨"k", .number (.int s.count), false⟩]

end Recurrence

/-- The recurrence as an algorithm. -/
def recurrenceAlgorithm {κ : Type} : Algorithm α (Recurrence α) κ where
  start := Recurrence.start
  step := Recurrence.step
  bindings := Recurrence.bindings
  objective := none
  rule _ := .error .noDefaultCriterion
  note _ := none
  solution state _ which :=
    if which.isSome then .error .wrongType
    else
      match state with
      | some s => .ok s.x
      | none => .error .unknownVariable

end PrimalDual
