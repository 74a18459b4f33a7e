import PrimalDual.Archive.Store
import PrimalDual.Run.Algorithm
import PrimalDual.Run.Settings

/-!
# The course of a run

A run is at some iteration, has some records, and advances by ticks. One tick evaluates the stopping
rule where it is due, records and reports its statistics, takes a checkpoint where one is due, and
takes one step of the algorithm, unless the rule ends the run.

* `Course` — the state of a run.
* `World`, `Scene` — the files, the clock and the printed entries; a course in its world.
* `Scene.tick` — one tick: whether the run goes on.

Whatever goes wrong in a tick is logged and ends it; what was done before stays done.
-/

namespace PrimalDual

/-- The state of a run. -/
structure Course (α σ κ : Type) where
  /-- The state of the algorithm. -/
  state : σ
  /-- The tracked value of the objective, once there is one. -/
  objective : Option (NdArray α)
  /-- The records so far, the first one first. -/
  records : Array (Row α)
  /-- The number of steps begun. -/
  iteration : Nat
  /-- The stopping rule. -/
  rule : κ
  /-- What is recorded of the objective, if it is tracked. -/
  tracker : Option (Memo α)

/-- Everything around a run: the files, the clock, and the entries that were printed. -/
structure World (α : Type) where
  disk : Disk α (Array (LogEntry α))
  /-- The time in microseconds. -/
  now : Int
  printed : Array (LogEntry α)

/-- A run in its world. -/
structure Scene (α σ κ : Type) where
  course : Course α σ κ
  world : World α

/-- The variable that holds the tracked value of the objective. -/
def objectiveName : String := "objective_func"

namespace World

variable {α : Type}

/-- Adds an entry to a log, unless the log is gone, and prints it when asked to. -/
def log (w : World α) (file : Path) (print : Bool) (entry : LogEntry α) : World α :=
  let w := match w.disk.find? file with
    | some (.file entries) => { w with disk := w.disk.put file (.file (entries.push entry)) }
    | _ => w
  if print then { w with printed := w.printed.push entry } else w

end World

namespace Rates

/-- Whether the rule is evaluated at an iteration. -/
def evaluates (r : Rates) (i : Nat) : Bool := i % r.stop = 0

/-- Whether an iteration is reported; without a rate there is no answer. -/
def reports (r : Rates) (i : Nat) : Except Fault Bool :=
  if r.report = 0 then .error .divisionByZero else .ok ((i : Int) % r.report = 0)

/-- Whether a checkpoint is taken at an iteration that does not end the run. -/
def writesBack (r : Rates) (i : Nat) : Bool :=
  match r.writeback with
  | none | some 0 => false
  | some w => i % w = 0

/-- The last iteration with a checkpoint, where they are taken periodically. -/
def lastCheckpoint (r : Rates) (i : Nat) : Option Nat :=
  match r.writeback with
  | none | some 0 => none
  | some w => some (i - i % w)

end Rates

section

variable {α σ κ : Type} [Scalar α] [StoppingRule α κ]

/-! ## What can be seen of a run -/

namespace Course

/-- The variables of the algorithm with the tracked value of the objective. -/
def bindings (A : Algorithm α σ κ) (c : Course α σ κ) : List (Variable α) :=
  let vars := A.bindings c.state
  match c.objective with
  | some a => vars ++ [⟨objectiveName, .array a, false⟩]
  | none => vars

/-- What the stopping rule gets to see. -/
def observe (A : Algorithm α σ κ) (c : Course α σ κ) (now : Int) : Observation α :=
  .ofVariables (c.bindings A) now

/-- Evaluates the rule and, where the objective is tracked, records its value. -/
def judge (A : Algorithm α σ κ) (c : Course α σ κ) (now : Int) :
    Course α σ κ × Except Fault Bool :=
  let seen := c.observe A now
  match StoppingRule.stop c.rule seen with
  | (rule, .error e) => ({ c with rule := rule }, .error e)
  | (rule, .ok decision) =>
    let c := { c with rule := rule }
    match c.tracker with
    | none => (c, .ok decision)
    | some _ =>
      match (seen.slot objectiveName).bind (Criterion.memoOf objectiveName seen) with
      | .ok memo => ({ c with tracker := some memo }, .ok decision)
      | .error e => (c, .error e)

/-- The statistics of the last evaluation. -/
def info (A : Algorithm α σ κ) (c : Course α σ κ) :
    Except Fault (List (String × Number α)) := do
  let memory := Observation.memoryOf (c.bindings A)
  let main ← StoppingRule.info c.rule memory
  match c.tracker with
  | none => pure main
  | some memo =>
    let tracked ← (Criterion.memorize objectiveName memo).info memory
    pure (Criterion.mergeStatistics main tracked)

/-- The record of the last evaluation; a rule without statistics leaves a placeholder. -/
def row (A : Algorithm α σ κ) (c : Course α σ κ) : Except Fault (Row α) := do
  let entries ← c.info A
  let entries := if entries.isEmpty then [("dummy", .real Scalar.zero)] else entries
  let numbers ← entries.mapM fun (label, n) => do
    let x ← n.toReal
    pure (label, x)
  pure ⟨c.iteration, numbers⟩

end Course

/-- The logged variables by name; an unknown one is absent. -/
def loggedValues (S : Settings) (vars : List (Variable α)) : Parameters α :=
  S.logged.map fun name =>
    (name, match vars.find? fun v => v.name == name with
      | some v => v.value
      | none => .null)

/-- What a checkpoint holds: the records as a table, then the logged variables. A logged variable that
is called like the table takes its place. -/
def checkpointItems (history : Option (History α)) (logged : Parameters α) : Parameters α :=
  let table : Value α := match history with
    | some t => .array t.matrix
    | none => .null
  ("history", logged.getD "history" table) :: logged.filter fun entry => entry.1 != "history"

/-- Saves a checkpoint. -/
def World.saveCheckpoint (S : Settings) (w : World α) (records : Array (Row α))
    (logged : Parameters α) : World α × Except Fault Unit :=
  match History.ofRows records.toList with
  | .error e => (w, .error e)
  | .ok history =>
    let (disk, outcome) := saveArrays w.disk S.dataDir (checkpointItems history logged)
    ({ w with disk := disk }, outcome)

/-! ## One tick -/

namespace Scene

/-- What is done during a tick: it may fail, and what it did so far stays. -/
abbrev Action (α σ κ β : Type) := EStateM Fault (Scene α σ κ) β

/-- Adds an entry to the log. -/
def log (S : Settings) (print : Bool) (entry : LogEntry α) (s : Scene α σ κ) : Scene α σ κ :=
  { s with world := s.world.log S.logFile print entry }

/-- Evaluates the objective, if it is tracked, along a single axis. -/
def trackObjective (A : Algorithm α σ κ) : Action α σ κ Unit := fun s =>
  match s.course.tracker with
  | none => .ok () s
  | some _ =>
    let value := match A.objective with
      | some f => f s.course.state
      | none => .error .noObjective
    match value with
    | .ok a => .ok () { s with course := { s.course with objective := some a.flatten } }
    | .error e => .error e s

/-- Evaluates the stopping rule. -/
def evaluate (A : Algorithm α σ κ) : Action α σ κ Bool := fun s =>
  match s.course.judge A s.world.now with
  | (c, .ok decision) => .ok decision { s with course := c }
  | (c, .error e) => .error e { s with course := c }

/-- Adds the record of the last evaluation. -/
def record (A : Algorithm α σ κ) : Action α σ κ Unit := fun s =>
  match s.course.row A with
  | .ok r => .ok () { s with course := { s.course with records := s.course.records.push r } }
  | .error e => .error e s

/-- Reports the last record. -/
def report (S : Settings) (print : Bool) : Action α σ κ Unit := fun s =>
  match s.course.records.back? with
  | some r => .ok () (s.log S print (.statistics s.course.iteration r))
  | none => .error .indexOutOfRange s

/-- Saves a checkpoint. -/
def writeback (A : Algorithm α σ κ) (S : Settings) : Action α σ κ Unit := fun s =>
  match s.world.saveCheckpoint S s.course.records (loggedValues S (s.course.bindings A)) with
  | (w, .ok ()) => .ok () { s with world := w }
  | (w, .error e) => .error e { s with world := w }

/-- Takes a step of the algorithm. -/
def advance (A : Algorithm α σ κ) : Action α σ κ Unit := fun s =>
  let stride := A.step s.course.state
  let s : Scene α σ κ := {
    course := { s.course with state := stride.state, iteration := s.course.iteration + 1 }
    world := { s.world with now := s.world.now + stride.elapsed } }
  match stride.outcome with
  | .ok () => .ok () s
  | .error e => .error e s

/-- The end of a run: the last record, its report, and the last checkpoint. -/
def finish (A : Algorithm α σ κ) (S : Settings) (print : Bool) : Action α σ κ Unit := do
  record A
  report S print
  modify (log S print .satisfied)
  if S.rates.writeback.isSome then writeback A S

/-- The part of a tick after an evaluation that does not end the run. -/
def proceed (A : Algorithm α σ κ) (S : Settings) (print : Bool) (i : Nat) : Action α σ κ Unit := do
  match S.rates.reports i with
  | .ok due => if due then report S print
  | .error e => throw e
  if S.rates.writesBack i then writeback A S
  advance A

/-- What a tick does at iteration `i`, failures aside: whether the run goes on. -/
def work (A : Algorithm α σ κ) (S : Settings) (print : Bool) (i : Nat) : Action α σ κ Bool := do
  if S.rates.evaluates i then
    trackObjective A
    if ← evaluate A then
      finish A S print
      return false
    record A
  proceed A S print i
  return true

/-- One tick: whether the run goes on. A failure is logged with the iteration that was reached. -/
def tick (A : Algorithm α σ κ) (S : Settings) (print : Bool) : Action α σ κ Bool := fun s =>
  let i := s.course.iteration
  match work A S print i s with
  | .ok goesOn t => .ok goesOn t
  | .error e t =>
    .error e (t.log S print (.iterationFailed t.course.iteration (S.rates.lastCheckpoint i)))

end Scene

end

end PrimalDual
