import PrimalDual.Criterion.Duration
import PrimalDual.Criterion.Memory
import PrimalDual.Criterion.Norm

/-!
# Stopping criteria

A criterion looks at the variables of an algorithm and decides whether to stop. It keeps what it needs
from one evaluation to the next, and reports the statistics of the last evaluation. Criteria combine by
conjunction and disjunction; both sides are always evaluated, so that both report.

* `Criterion` — a criterion with its memory.
* `Criterion.stop` — evaluates it: the criterion afterwards, and the decision.
* `Criterion.Combines` — what an evaluation makes of a conjunction or disjunction.
* `Criterion.info` — the statistics of the last evaluation.
* `Criterion.detach` — the criterion with its own copies of the arrays that it refers to.
* `Criterion.clear` — the criterion as it was before any evaluation.
-/

namespace PrimalDual

/-- How a criterion measures a variable and what it accepts. -/
structure NormRule (α : Type) where
  /-- The threshold, a positive number. -/
  threshold : Number α
  /-- The variable. -/
  var : String
  /-- The number of trailing axes that make up a point. -/
  rank : Int
  /-- What is measured of the variable. -/
  feature : Value α → Except Fault (Value α)
  /-- The order of the norm. -/
  order : Number α
  /-- Whether every point has to pass, or any one suffices. -/
  satisfyAll : Bool

/-- What a change from one evaluation to the next is compared with. -/
inductive ChangeKind where
  /-- The threshold itself. -/
  | absolute
  /-- The threshold times the previous norm. -/
  | relative
  deriving DecidableEq, Repr, Inhabited

/-- What a recorder keeps of a variable. -/
inductive Memo (α : Type) where
  /-- The cell of an array in memory. -/
  | cell (at_ : Address)
  /-- An array of its own. -/
  | value (a : NdArray α)

/-- A stopping criterion with its memory. -/
inductive Criterion (α : Type) where
  /-- Stops after a number of evaluations. -/
  | maxIter (limit count : Int)
  /-- Never stops. -/
  | manual
  /-- Says nothing about its decisions. -/
  | unspecified
  /-- Stops once more time than allowed has passed since the start. -/
  | maxDuration (limit : Duration) (start elapsed : Int)
  /-- Never stops, and reports a variable. -/
  | memorize (var : String) (memo : Memo α)
  /-- Stops once the norm of a variable is small. -/
  | size (rule : NormRule α) (norms : NdArray α)
  /-- Stops once the change of a variable is small. -/
  | change (kind : ChangeKind) (rule : NormRule α) (norms : NdArray α) (previous : Option (Value α))
  /-- Stops when both sides do. -/
  | both (left right : Criterion α)
  /-- Stops when either side does. -/
  | either (left right : Criterion α)

namespace NormRule

variable {α : Type} [Scalar α]

/-- The norms before any evaluation. -/
def initialNorms : NdArray α := .tabulateWhole .memory [1] .int64 fun _ => 0

/-- Whether the points that pass suffice. -/
def decides (r : NormRule α) (passed : NdArray α) : Bool :=
  if r.satisfyAll then passed.allTrue else passed.anyTrue

/-- The measured feature of a value. -/
def measure (r : NormRule α) (v : Value α) : Except Fault (NdArray α) := do
  let x ← v.measured
  blockNorm x r.order r.rank

/-- The leading axes of a shape, as a slice that leaves out the last `rank` ones reads them. -/
def leadingAxes (rank : Int) (s : Shape) : Shape :=
  if 0 < rank then s.take (s.length - rank.toNat) else s.take rank.natAbs

/-- The norm rule of a value that is to be checked: its threshold, its rank, its order. -/
def read (threshold : Value α) (var : String) (rank : Value α)
    (feature : Value α → Except Fault (Value α)) (order : Value α) (satisfyAll : Value α) :
    Except Fault (NormRule α) := do
  let eps ← match threshold with
    | .number n =>
      if n.isPositive then pure n else throw (.thresholdNotPositive threshold.shown)
    | v => throw (.thresholdNotPositive v.shown)
  let k ← rank.toWhole
  let p ← match order with
    | .number n =>
      if (Number.int 0).atMost n then pure n else throw (.normOrderNegative order.shown)
    | v => throw (.normOrderNegative v.shown)
  pure ⟨eps, var, k, feature, p, satisfyAll.truthy⟩

end NormRule

namespace Criterion

variable {α : Type} [Scalar α]

/-! ## Construction -/

/-- The criterion that stops after `n` evaluations, a positive number without its fraction. -/
def ofLimit (n : Value α) : Except Fault (Criterion α) :=
  match n.toWhole with
  | .ok k => if 0 < k then .ok (maxIter k 0) else .error (.iterationLimit n.shown)
  | .error _ => .error (.iterationLimit n.shown)

/-- The criterion that stops after a positive duration, counted from `now`. -/
def ofDuration (limit : Duration) (now : Int) : Except Fault (Criterion α) :=
  if 0 < limit then .ok (maxDuration limit now 0) else .error (.durationLimit limit.text)

/-- A duration limit that is no duration. -/
def ofForeignDuration (v : Value α) : Except Fault (Criterion α) := .error (.durationLimit v.shown)

/-- What a recorder keeps before any evaluation. -/
def initialMemo : Memo α := .value (.tabulate .memory [1] .double fun _ => Scalar.zero)

/-- The criterion that reports a variable. -/
def ofVariable (var : String) : Criterion α := memorize var initialMemo

/-- The criterion on the norm of a variable. -/
def ofNorm (r : NormRule α) : Criterion α := size r NormRule.initialNorms

/-- The criterion on the change of a variable. -/
def ofChange (kind : ChangeKind) (r : NormRule α) : Criterion α :=
  change kind r NormRule.initialNorms none

/-! ## Evaluation -/

/-- What a recorder keeps of the variable: one axis of numbers, or a single number. -/
def memoOf (var : String) (o : Observation α) : Slot α → Except Fault (Memo α)
  | .array i =>
    let a := o.memory.read i
    if a.rank ≠ 1 then .error (.notScalarOrVector var a.shape.text)
    else
      match a.backend with
      | .memory => .ok (.cell i)
      | .chunked => .ok (.value (a.onBackend .memory))
  | .value (.array a) =>
    if a.rank ≠ 1 then .error (.notScalarOrVector var a.shape.text)
    else .ok (.value (a.onBackend .memory))
  | .value (.number (.real x)) => .ok (.value (.tabulate .memory [1] .double fun _ => x))
  | .value (.number (.int n)) => .ok (.value (.tabulateWhole .memory [1] .int64 fun _ => n))
  | .value (.number (.bool b)) =>
    .ok (.value (.tabulateWhole .memory [1] .bool fun _ => if b then 1 else 0))
  | .value _ => .error .noCapability

/-- The norms of the current value of a variable, and whether they are small. -/
def evaluateSize (r : NormRule α) (o : Observation α) : Except Fault (NdArray α × Bool) := do
  let v ← o.get r.var
  let fx ← r.feature v
  let norms ← r.measure fx
  let passed ← compare .atMost (.array norms) (.number r.threshold)
  pure (norms, r.decides passed)

/-- A copy of a value that later updates in place do not reach; only collections can be copied. -/
def copyOf : Value α → Except Fault (Value α)
  | .array a => .ok (.array a)
  | .list items => .ok (.list items)
  | .mapping entries => .ok (.mapping entries)
  | _ => .error .noCapability

/-- The norms that are reported before there is a previous value to compare with. -/
def firstNorms (r : NormRule α) (x : Value α) : Except Fault (NdArray α) := do
  match ← r.feature x with
  | .array a => pure (zeroNorms (NormRule.leadingAxes r.rank a.shape))
  | _ => throw .noCapability

/-- Zero in place of NaN. -/
def zeroForNan (a : NdArray α) : NdArray α :=
  match a.kind with
  | .real p => .tabulate a.backend a.shape p fun k =>
      if Scalar.isNan (a.realAt k) then Scalar.zero else a.realAt k
  | .whole _ => a

/-- The statistic of a change and the points that pass: the change against the threshold, or against
the threshold times the previous norm. The statistic `0 / 0` is reported as no change. -/
def compareChange (kind : ChangeKind) (r : NormRule α) (delta : NdArray α) (before : Value α) :
    Except Fault (NdArray α × NdArray α) :=
  match kind with
  | .absolute => do
    let passed ← compare .atMost (.array delta) (.number r.threshold)
    pure (delta, passed)
  | .relative => do
    let scale ← r.measure before
    let bound ← arith .mul (.number r.threshold) (.array scale)
    let passed ← compare .atMost (.array delta) (.array bound)
    let ratio ← arith .div (.array delta) (.array scale)
    pure (zeroForNan ratio, passed)

/-- The statistic of the change since the previous value, and the decision. -/
def evaluateChange (kind : ChangeKind) (r : NormRule α) (previous current : Value α) :
    Except Fault (NdArray α × Bool) := do
  let _ ← current.measured
  let before ← r.feature previous
  let now ← r.feature current
  let difference ← Value.arith .sub now before
  let delta ← r.measure difference
  let (norms, passed) ← compareChange kind r delta before
  pure (norms, r.decides passed)

/-- Evaluates the criterion. The memory of a side that was evaluated is kept even when the other side
cannot be. -/
def stop : Criterion α → Observation α → Criterion α × Except Fault Bool
  | maxIter limit count, _ => (maxIter limit (count + 1), .ok (decide (limit < count + 1)))
  | manual, _ => (manual, .ok false)
  | unspecified, _ => (unspecified, .error .abstract)
  | maxDuration limit start _, o =>
    (maxDuration limit start (o.now - start), .ok (decide (limit < o.now - start)))
  | memorize var memo, o =>
    match (o.slot var).bind (memoOf var o) with
    | .ok memo => (memorize var memo, .ok false)
    | .error e => (memorize var memo, .error e)
  | size r norms, o =>
    match evaluateSize r o with
    | .ok (norms, decision) => (size r norms, .ok decision)
    | .error e => (size r norms, .error e)
  | change kind r norms none, o =>
    match (o.get r.var).bind copyOf with
    | .error e => (change kind r norms none, .error e)
    | .ok x =>
      match firstNorms r x with
      | .ok norms => (change kind r norms (some x), .ok false)
      | .error e => (change kind r norms (some x), .error e)
  | change kind r norms (some previous), o =>
    match o.get r.var with
    | .error e => (change kind r norms (some previous), .error e)
    | .ok x =>
      match evaluateChange kind r previous x with
      | .ok (norms, decision) => (change kind r norms (some x), .ok decision)
      | .error e => (change kind r norms (some previous), .error e)
  | both left right, o =>
    match left.stop o with
    | (left, .error e) => (both left right, .error e)
    | (left, .ok a) =>
      let (right, b) := right.stop o
      (both left right, b.map (a && ·))
  | either left right, o =>
    match left.stop o with
    | (left, .error e) => (either left right, .error e)
    | (left, .ok a) =>
      let (right, b) := right.stop o
      (either left right, b.map (a || ·))

/-- Once its left side has decided, a combination evaluates the right one, too. -/
def Combines (node : Criterion α → Criterion α → Criterion α) (op : Bool → Bool → Bool) : Prop :=
  ∀ (left right : Criterion α) (o : Observation α) (a : Bool), (left.stop o).2 = .ok a →
    (node left right).stop o = (node (left.stop o).1 (right.stop o).1, (right.stop o).2.map (op a))

theorem both_combines : Combines (both : Criterion α → Criterion α → Criterion α) and := by
  intro left right o a h
  rw [stop]
  rcases hleft : left.stop o with ⟨left', decision⟩
  rw [hleft] at h
  cases h
  rfl

theorem either_combines : Combines (either : Criterion α → Criterion α → Criterion α) or := by
  intro left right o a h
  rw [stop]
  rcases hleft : left.stop o with ⟨left', decision⟩
  rw [hleft] at h
  cases h
  rfl

/-! ## Statistics -/

/-- The current content of what a recorder keeps. -/
def memoValue (m : Memory α) : Memo α → NdArray α
  | .cell i => m.read i
  | .value a => a

/-- The name of a criterion on changes. -/
def changeLabel : ChangeKind → String
  | .absolute => "AbsChange"
  | .relative => "RelError"

/-- A label with the variable that it is about. -/
def labelOf (name var : String) : String := name ++ "[" ++ var ++ "]"

/-- Replaces the number under a label, or adds the label at the end. -/
def putStatistic (entries : List (String × Number α)) (entry : String × Number α) :
    List (String × Number α) :=
  if entries.any fun e => e.1 == entry.1 then
    entries.map fun e => if e.1 == entry.1 then entry else e
  else entries ++ [entry]

/-- The statistics of two sides; a label that both use keeps its place and takes the later number. -/
def mergeStatistics (a b : List (String × Number α)) : List (String × Number α) :=
  b.foldl putStatistic a

/-- The statistics of the last evaluation by label. -/
def info : Criterion α → Memory α → Except Fault (List (String × Number α))
  | maxIter _ count, _ => .ok [("N_iter", .int count)]
  | manual, _ => .ok []
  | unspecified, _ => .error .abstract
  | maxDuration _ _ elapsed, _ => .ok [("duration", .real (Duration.seconds elapsed))]
  | memorize var memo, m => summary (labelOf "Memorize" var) (memoValue m memo)
  | size r norms, _ => summary (labelOf "AbsError" r.var) norms
  | change kind r norms _, _ => summary (labelOf (changeLabel kind) r.var) norms
  | both left right, m => do
    let a ← left.info m
    let b ← right.info m
    pure (mergeStatistics a b)
  | either left right, m => do
    let a ← left.info m
    let b ← right.info m
    pure (mergeStatistics a b)

/-- The criterion with its own copies of the arrays that it refers to. -/
def detach (m : Memory α) : Criterion α → Criterion α
  | memorize var memo => memorize var (.value (memoValue m memo))
  | both left right => both (left.detach m) (right.detach m)
  | either left right => either (left.detach m) (right.detach m)
  | c => c

/-- The criterion before any evaluation; the clock of a duration starts again at `now`. -/
def clear (now : Int) : Criterion α → Criterion α
  | maxIter limit _ => maxIter limit 0
  | manual => manual
  | unspecified => unspecified
  | maxDuration limit _ _ => maxDuration limit now 0
  | memorize var _ => ofVariable var
  | size r _ => ofNorm r
  | change kind r _ _ => ofChange kind r
  | both left right => both (left.clear now) (right.clear now)
  | either left right => either (left.clear now) (right.clear now)

end Criterion

end PrimalDual
