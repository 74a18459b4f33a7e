/-!
# What can go wrong

Every operation that can refuse its input answers with a `Fault`: the cause, together with the texts
of the offending values. Causes that the library itself detects come with a message; causes that stem
from the arithmetic underneath (operands of the wrong kind, shapes that do not fit, a division by
zero) have none.

* `Fault` — the causes.
* `Fault.Category` and `Fault.category` — the coarse classification a caller may branch on.
* `Fault.message` — the wording.
-/

namespace PrimalDual

/-- The causes for which an operation is refused. -/
inductive Fault where
  /-- An operand of a kind that the operation is not defined on. -/
  | wrongType
  /-- A value that lacks the capability asked of it, such as an absent one. -/
  | noCapability
  /-- Array elements of a kind that the elementwise operation is not defined on. -/
  | wrongElements
  /-- A number divided by zero. -/
  | divisionByZero
  /-- A number too large for the format it has to take. -/
  | overflow
  /-- Shapes that do not fit together. -/
  | shapeMismatch
  /-- A text or number that stands for no whole number. -/
  | notWhole
  /-- The extremum of nothing. -/
  | emptyExtremum
  /-- An iteration whose starting vector vanishes. -/
  | vanishingStart
  /-- An axis that the array does not have. -/
  | axisOutOfRange
  /-- An index that the array does not have. -/
  | indexOutOfRange
  /-- A state variable that does not exist. -/
  | unknownVariable
  /-- An operation that only a concrete kind of object defines. -/
  | abstract
  /-- An algorithm that brings no stopping rule of its own. -/
  | noDefaultCriterion
  /-- An algorithm without an objective. -/
  | noObjective
  /-- An iteration that an algorithm gave up. -/
  | iterationFailure
  /-- Records whose labels differ. -/
  | fieldsDiffer
  /-- An update in place of an array in memory by a chunked one. -/
  | mixedUpdate
  -- linear operators
  | operatorShape (given : String)
  | negativeNorm (given : String)
  | factorNotReal (given : String)
  | matrixRank (rank : Nat)
  | differenceSize (given : String)
  -- functionals
  | negativeSmoothness (given : String)
  | forwardNotOperator (kind : String)
  | dataSize (codim shape : String)
  | compositionNotOperator (kind : String)
  | alreadyComposed (term operator : String)
  | composedSizes (term operator : String)
  | scaleNotPositive (given : String)
  | boxBounds (lower upper : String)
  -- step sizes, schedules and the iteration
  | rescaleUnsupported
  | termCount (count : Nat)
  | twoOperators
  | nuNotPositive (given : String)
  | stepsNotInferable (beta : String)
  | tauNotPositive (given : String)
  | tauTooLarge (given limit : String)
  | sigmaNotPositive (given : String)
  | tauNotInferable (beta : String)
  | unknownMethod (tag : String)
  | lambdaNotPositive (given : String)
  | lambdaMissing
  -- stopping criteria
  | iterationLimit (given : String)
  | durationLimit (given : String)
  | thresholdNotPositive (given : String)
  | normOrderNegative (given : String)
  | notScalarOrVector (name shape : String)
  -- arrays
  | noBackend (value : String)
  | noArrayModule (kind : String)
  | evaluationMode (given : String)
  -- runs
  | stopRate (given : String)
  | writebackRate (given : String)
  | verbosity (stopRate given : String)
  | logVariables (kind : String)
  | folderNotPath (kind : String)
  | noRun
  | wrongMode (allowed : String)
  | primalNotLogged
  | dualNotLogged
  | unknownSolution (which : String)
  -- directories
  | folderExists (path : String)
  | pathExists
  | missingDirectory (path : String)
  | missingPath
  | notDirectory (path : String)
  | notDirectoryPath
  | directoryPath
  deriving DecidableEq, Repr, Inhabited

namespace Fault

/-- What a caller can tell causes apart by. -/
inductive Category where
  | configuration
  | value
  | type
  | capability
  | elements
  | division
  | overflow
  | iteration
  | axis
  | index
  | key
  | unimplemented
  | assertion
  | fileExists
  | fileMissing
  | notDirectory
  | directory
  | fields
  | runtime
  deriving DecidableEq, Repr, Inhabited

/-- The category of a cause. -/
def category : Fault → Category
  | wrongType => .type
  | noCapability => .capability
  | wrongElements => .elements
  | divisionByZero => .division
  | overflow => .overflow
  | vanishingStart => .iteration
  | axisOutOfRange => .axis
  | indexOutOfRange => .index
  | unknownVariable => .key
  | abstract | noDefaultCriterion | noObjective | mixedUpdate => .unimplemented
  | fieldsDiffer => .fields
  | iterationFailure => .runtime
  | alreadyComposed .. | rescaleUnsupported | termCount _ | twoOperators | nuNotPositive _
  | stepsNotInferable _ | tauNotPositive _ | tauTooLarge .. | sigmaNotPositive _
  | tauNotInferable _ | unknownMethod _ | lambdaNotPositive _ | lambdaMissing => .configuration
  | notScalarOrVector .. | primalNotLogged | dualNotLogged => .assertion
  | folderExists _ | pathExists => .fileExists
  | missingDirectory _ | missingPath => .fileMissing
  | notDirectory _ | notDirectoryPath => .notDirectory
  | directoryPath => .directory
  | _ => .value

/-- The wording of a cause; causes from the arithmetic underneath have none. -/
def message : Fault → Option String
  | abstract => some ""
  | noDefaultCriterion => some "No default stopping criterion defined."
  | noObjective => some "No objective function defined."
  | operatorShape s => some s!"shape: expected (codim, dim) pair, got {s}."
  | negativeNorm s => some s!"lipschitz: expected non-negative value, got {s}."
  | factorNotReal s => some s!"cst: expected real number, got {s}."
  | matrixRank n => some s!"mat: expected 2D matrix, got {n}D."
  | differenceSize s => some s!"dim: expected integer >= 2, got {s}."
  | negativeSmoothness s => some s!"diff_lipschitz: expected non-negative value, got {s}."
  | forwardNotOperator k => some s!"op: expected LinOp, got {k}."
  | dataSize c s => some s!"data: expected ({c},) observations, got {s}."
  | compositionNotOperator k => some s!"K: expected LinOp, got {k}."
  | alreadyComposed t k =>
    some s!"{t} is already composed with {k}: only one linear operator per term is supported."
  | composedSizes t k => some s!"Cannot compose {t} with {k}: dimension mismatch."
  | scaleNotPositive s => some s!"cst: expected positive scale, got {s}."
  | boxBounds l u => some s!"Box bounds must satisfy lower <= upper, got ({l}, {u})."
  | rescaleUnsupported => some "rescale: automatic step-size rescaling is not supported."
  | termCount n => some s!"terms: expected 2 non-smooth terms, got {n}."
  | twoOperators => some "terms: at most one non-smooth term may carry a linear operator."
  | nuNotPositive s => some s!"nu: expected positive value, got {s}."
  | stepsNotInferable b =>
    some s!"beta={b}: cannot infer step sizes, specify one of Parameter[tau, sigma]."
  | tauNotPositive s => some s!"tau: expected positive step, got {s}."
  | tauTooLarge t l => some s!"tau={t}: step size too large, must not exceed 2/beta={l}."
  | sigmaNotPositive s => some s!"sigma: expected positive step, got {s}."
  | tauNotInferable b =>
    some s!"beta={b}: cannot infer a positive tau, specify Parameter[tau]."
  | unknownMethod t =>
    some s!"method: expected one of ['plain', 'accelerated', 'ista', 'fista'], got {t}."
  | lambdaNotPositive s => some s!"lambda: expected positive relaxation constant, got {s}."
  | lambdaMissing => some "lambda: relaxation constant required by the plain method."
  | iterationLimit s => some s!"n: expected positive integer, got {s}."
  | durationLimit s => some s!"t: expected positive duration, got {s}."
  | thresholdNotPositive s => some s!"eps: expected positive threshold, got {s}."
  | normOrderNegative s => some s!"norm: expected non-negative, got {s}."
  | notScalarOrVector v s => some s!"{v}: expected scalar or 1D array, got shape {s}."
  | noBackend v => some s!"No known array type to match {v}."
  | noArrayModule k => some s!"Could not infer array module for {k}."
  | evaluationMode s => some s!"mode: expected one of ['compute', 'persist'], got {s}."
  | stopRate s => some s!"stop_rate: expected positive integer, got {s}."
  | writebackRate s =>
    some s!"writeback_rate: expected None, 0 or a multiple of stop_rate, got {s}."
  | verbosity r s => some s!"verbosity: expected a multiple of stop_rate={r}, got {s}."
  | logVariables k => some s!"log_var: expected collection of names, got {k}."
  | folderNotPath k => some s!"folder: expected path-like, got {k}."
  | noRun => some "Illegal method call: invoke Solver.fit() first."
  | wrongMode m => some s!"Illegal method call: only valid for Solver.fit(mode=Any[{m}])."
  | primalNotLogged =>
    some "Primal variable x was not logged (declare it in log_var to log it)."
  | dualNotLogged => some "Dual variable z was not logged (declare it in log_var to log it)."
  | unknownSolution w =>
    some s!"Parameter which must be one of ['primal', 'dual'] got: {w}."
  | folderExists p => some s!"{p} already exists."
  | missingDirectory p => some s!"The directory {p} does not exist."
  | notDirectory p => some s!"{p} is not a directory."
  | _ => none

end Fault

end PrimalDual
