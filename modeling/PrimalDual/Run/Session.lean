import PrimalDual.Run.Recurrence
import PrimalDual.Run.Solver
import PrimalDual.Splitting.Algorithm

/-!
# Sessions

A session works with one solver at a time in a tree of files, and with criteria that are known by name
and may be used by several runs, one after the other.

* `Blueprint` — what a solver is made of.
* `Session` — the world, the solver, and the criteria.
* `Session.create` — makes a solver. If that fails, the last one stays.
* `Session.fit`, `Session.settle`, `Session.pull`, `Session.stop`, `Session.writeback` — its runs.
* `Session.criterionInfo` — the statistics of a named criterion, whether a run uses it or not.

A named criterion is part of the run that uses it. It is taken back, with its own copies of the arrays
that it refers to, before the next run starts.
-/

namespace PrimalDual

/-- What a solver is made of. -/
inductive Blueprint (α : Type) where
  /-- The primal-dual iteration for a problem; the terms have to be a list. -/
  | splitting (smooth : Option (Smooth α)) (terms : Option (List (TermArgument α)))
  | recurrence
  | unspecified

/-- A solver of some algorithm that stops by criteria. -/
structure AnySolver (α : Type) where
  {σ : Type}
  solver : Solver α σ (Criterion α)

/-- Which criterion stops a run. -/
inductive RuleChoice (α : Type) where
  /-- That of the algorithm. -/
  | default
  | given (c : Criterion α)
  | named (name : String)

/-- The world with a solver in it and criteria by name. -/
structure Session (α : Type) where
  world : World α
  /-- The root of the places that texts name. -/
  root : Root
  /-- The label of temporary roots. -/
  temporary : String
  solver : Option (AnySolver α)
  criteria : List (String × Criterion α)
  /-- The name of the criterion that the run uses. -/
  attached : Option String

namespace Session

variable {α : Type} [Scalar α]

/-- A session in an empty tree. -/
def empty (root temporary : String) : Session α where
  world := ⟨.empty, 0, #[]⟩
  root := ⟨root, 0⟩
  temporary := temporary
  solver := none
  criteria := []
  attached := none

/-! ## Criteria by name -/

/-- Makes a criterion known by a name. -/
def register (s : Session α) (name : String) (c : Criterion α) : Session α :=
  { s with
    criteria := s.criteria.filter (fun entry => entry.1 != name) ++ [(name, c)]
    attached := if s.attached = some name then none else s.attached }

/-- The criterion of a name. -/
def criterion? (s : Session α) (name : String) : Option (Criterion α) :=
  (s.criteria.find? fun entry => entry.1 == name).map (·.2)

/-- The criterion that the run of a solver uses, with the arrays that it refers to. -/
def currentRule (a : AnySolver α) : Option (Criterion α × Memory α) :=
  match a.solver.phase with
  | .running c => some (c.rule, Observation.memoryOf (c.bindings a.solver.algorithm))
  | _ => none

/-- The session with the criterion of the run taken back. -/
def takeBack (s : Session α) : Session α :=
  match s.attached, s.solver.bind currentRule with
  | some name, some (c, memory) => s.register name (c.detach memory)
  | _, _ => { s with attached := none }

/-- The statistics of a named criterion. -/
def criterionInfo (s : Session α) (name : String) : Except Fault (List (String × Number α)) :=
  match s.criterion? name with
  | none => .error .unknownVariable
  | some c =>
    if s.attached = some name then
      match s.solver.bind currentRule with
      | some (c, memory) => c.info memory
      | none => c.info .empty
    else c.info .empty

/-! ## Solvers -/

/-- The solver of a blueprint. -/
def build (b : Blueprint α) (S : Settings) : Except Fault (AnySolver α) :=
  match b with
  | .splitting _ none => .error .wrongType
  | .splitting f (some terms) => .ok ⟨.ofAlgorithm (splittingAlgorithm f terms) S⟩
  | .recurrence => .ok ⟨.ofAlgorithm recurrenceAlgorithm S⟩
  | .unspecified => .ok ⟨.ofAlgorithm .unspecified S⟩

/-- The arguments of a solver with the defaults of its blueprint. -/
def blueprintArguments (b : Blueprint α) (given : Parameters α) : Parameters α :=
  match b with
  | .splitting _ _ => given.setDefault "log_var" (.tuple [.text "x", .text "z"])
  | _ => given

/-- Makes a solver. The directory that was prepared for it stays, whether it can be made or not. -/
def create (s : Session α) (b : Blueprint α) (given : Parameters α) :
    Session α × Except Fault Unit :=
  let (disk, settings) :=
    Settings.read s.world.disk s.root s.temporary (blueprintArguments b given)
  let s := { s with world := { s.world with disk := disk } }
  match settings.bind (build b) with
  | .error e => (s, .error e)
  | .ok a => ({ s.takeBack with solver := some a }, .ok ())

/-- The session after something was done with its solver. -/
def withSolver {σ : Type} (s : Session α) (solver : Solver α σ (Criterion α)) (w : World α) :
    Session α :=
  { s with solver := some ⟨solver⟩, world := w }

/-- The criterion that a choice stands for. -/
def choose (s : Session α) : RuleChoice α → Except Fault (Option (Criterion α))
  | .default => .ok none
  | .given c => .ok (some c)
  | .named name =>
    match s.criterion? name with
    | some c => .ok (some c)
    | none => .error .unknownVariable

/-- The name of the criterion that a run uses, once it is set up. -/
def attachment (a : AnySolver α) (choice : RuleChoice α) : Option String :=
  match choice, currentRule a with
  | .named name, some _ => some name
  | _, _ => none

/-- Starts a run, with nothing printed yet. -/
def fit (fuel : Nat) (s : Session α) (a : AnySolver α) (mode : Mode) (choice : RuleChoice α)
    (tracking : Bool) (given : Parameters α) : Session α × Except Fault Unit :=
  let s := s.takeBack
  match s.choose choice with
  | .error e => (s, .error e)
  | .ok rule =>
    let w := { s.world with printed := #[] }
    let (solver, w, outcome) := a.solver.fit fuel w ⟨mode, rule, tracking, given⟩
    let s := s.withSolver solver w
    ({ s with attached := attachment ⟨solver⟩ choice }, outcome)

/-- Lets the worker of a run in the background go on for at most `fuel` ticks. -/
def settle (fuel : Nat) (s : Session α) (a : AnySolver α) : Session α :=
  let (solver, w) := a.solver.work fuel s.world
  s.withSolver solver w

/-- Takes at most `count` items of the steps of a manual run. -/
def pull (bound : Value α) (count : Nat) (s : Session α) (a : AnySolver α) :
    Session α × Solver.Pulled α :=
  let (solver, w, pulled) := a.solver.pull bound count s.world
  (s.withSolver solver w, pulled)

/-- Stops a run in the background. -/
def stop (s : Session α) (a : AnySolver α) : Session α × Except Fault Unit :=
  let (solver, outcome) := a.solver.stop
  (s.withSolver solver s.world, outcome)

/-- Saves a checkpoint. -/
def writeback (s : Session α) (a : AnySolver α) : Session α × Except Fault Unit :=
  let (w, outcome) := a.solver.writeback s.world
  ({ s with world := w }, outcome)

/-! ## Files -/

/-- The log of a solver. -/
def log (s : Session α) (a : AnySolver α) : Except Fault (List (LogEntry α)) :=
  match s.world.disk.find? a.solver.settings.logFile with
  | some (.file entries) => .ok entries.toList
  | some _ => .error .directoryPath
  | none => .error .missingPath

/-- What the last checkpoint of a solver holds. -/
def load (s : Session α) (a : AnySolver α) : Except Fault (List (String × Value α)) :=
  loadArrays s.world.disk a.solver.settings.dataDir

/-- The names in the directory of a solver. -/
def list (s : Session α) (a : AnySolver α) : Except Fault (List String) :=
  s.world.disk.list a.solver.settings.workdir

/-- Creates an empty file. -/
def touch (s : Session α) (place : String) : Session α × Except Fault Unit :=
  match s.world.disk.touch (.ofText s.root place) #[] with
  | .ok disk => ({ s with world := { s.world with disk := disk } }, .ok ())
  | .error e => (s, .error e)

end Session

end PrimalDual
