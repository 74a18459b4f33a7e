import PrimalDual.Scalar.Binary64
import PrimalDual.Value.Storage
import PrimalDual.Run.Session
import PrimalDual.Proofs.Exact.Number
import PrimalDual.Proofs.NdArray.Broadcast
import PrimalDual.Proofs.NdArray.Stack
import PrimalDual.Proofs.Splitting.StepSize
import PrimalDual.Proofs.NdArray.Point
import PrimalDual.Proofs.Convex.Functional
import PrimalDual.Proofs.Convex.Problem
import PrimalDual.Proofs.Operator.Action
import PrimalDual.Proofs.Functional.Smooth
import PrimalDual.Proofs.NdArray.Truth
import PrimalDual.Proofs.Functional.Penalty
import PrimalDual.Proofs.Functional.Proximable
import PrimalDual.Proofs.Splitting.Iterate
import PrimalDual.Proofs.Splitting.Descent
import PrimalDual.Proofs.Splitting.FixedPoint
import PrimalDual.Proofs.Run.Drive
import PrimalDual.Proofs.Run.Pull
import PrimalDual.Proofs.Run.Tick
import PrimalDual.Proofs.Run.Trace
import PrimalDual.Proofs.Run.Reached
import PrimalDual.Proofs.Run.Start
import PrimalDual.Proofs.Run.Completion
import PrimalDual.Proofs.Run.Frame
import PrimalDual.Proofs.Run.Modes
import PrimalDual.Proofs.Functional.Minimiser
import PrimalDual.Proofs.NdArray.Spot
import PrimalDual.Proofs.Operator.Locality
import PrimalDual.Proofs.Functional.Locality
import PrimalDual.Proofs.Splitting.Rows
import PrimalDual.Proofs.Run.Steps
import PrimalDual.Proofs.Splitting.Driver
import PrimalDual.Proofs.Criterion.Renewal
import PrimalDual.Proofs.Archive.Keeping
import PrimalDual.Proofs.Archive.Name
import PrimalDual.Proofs.Run.Folder
import PrimalDual.Proofs.Run.Mirror
import PrimalDual.Proofs.Run.Repetition
import PrimalDual.Proofs.Run.Isolation
import PrimalDual.Proofs.Criterion.Composition
import PrimalDual.Proofs.Criterion.Reuse
import PrimalDual.Proofs.Run.Turns
import PrimalDual.Proofs.Run.Equipment
import PrimalDual.Proofs.Run.Steady
import PrimalDual.Proofs.Run.LifeCycle
import PrimalDual.Proofs.Archive.Loading
import PrimalDual.Proofs.Run.Checkpoint
import PrimalDual.Proofs.Splitting.Admission
import PrimalDual.Proofs.Splitting.Boundary
import PrimalDual.Proofs.Archive.LastSave
import PrimalDual.Proofs.Run.Blame
import PrimalDual.Proofs.Splitting.Acceleration
import PrimalDual.Proofs.Functional.Moreau
import PrimalDual.Proofs.NdArray.Entries
import PrimalDual.Proofs.Criterion.Norm
import PrimalDual.Proofs.Criterion.Change
import PrimalDual.Proofs.Splitting.Stopping
import PrimalDual.Proofs.Splitting.Exchange
import PrimalDual.Proofs.Operator.Adjoint
import PrimalDual.Proofs.Operator.Storage
import PrimalDual.Proofs.Functional.LeastSquares
import PrimalDual.Proofs.Functional.Wrapping
import PrimalDual.Proofs.Functional.Sharing
import PrimalDual.Proofs.Run.Refusal
import PrimalDual.Proofs.Run.Interruption
import PrimalDual.Proofs.Run.LastCheckpoint
import PrimalDual.Proofs.NdArray.Covering
import PrimalDual.Proofs.Operator.Kinds
import PrimalDual.Proofs.Splitting.Failure
import PrimalDual.Proofs.Functional.Clipping
import PrimalDual.Proofs.NdArray.Spreading
import PrimalDual.Proofs.NdArray.Finiteness
import PrimalDual.Proofs.Functional.RealData
import PrimalDual.Proofs.Splitting.Feasible
import PrimalDual.Proofs.Criterion.Snapshot
import PrimalDual.Proofs.Run.IterationLimit
import PrimalDual.Proofs.NdArray.Shapes
import PrimalDual.Proofs.Criterion.Labels
import PrimalDual.Proofs.Run.Table
import PrimalDual.Proofs.Criterion.Divergence
import PrimalDual.Proofs.Run.Recording
import PrimalDual.Proofs.Splitting.Judgement
import PrimalDual.Proofs.Operator.Stretch
import PrimalDual.Proofs.Splitting.DeclaredBound
