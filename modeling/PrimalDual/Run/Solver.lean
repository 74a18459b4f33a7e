import PrimalDual.Run.Course

/-!
# Solvers

A solver starts runs of its algorithm, one after the other, in one of three modes. A blocking run is
over when `fit` returns. A manual run advances as far as its caller pulls. A run in the background
advances on its own until its rule ends it, it fails, or it is stopped.

* `Mode`, `Phase`, `Solver` — the modes, what is left of the last run, and the solver.
* `Solver.fit` — starts a run.
* `Solver.work` — what a worker does: at most so many ticks.
* `Solver.pull` — the steps of a manual run with the logged variables after each.
* `Solver.busy`, `Solver.stop` — a run in the background.
* `Solver.stats`, `Solver.writeback`, `Solver.objective`, `Solver.solution` — what a solver shows.

A run is open from the `fit` that starts it until it ends, fails, is stopped, or another one starts.
Calls that need an open run of some mode are refused without one.
-/

namespace PrimalDual

/-- The modes of a run. -/
inductive Mode where
  | block
  | manual
  | background
  deriving DecidableEq, Repr, Inhabited

/-- The name of a mode. -/
def Mode.name : Mode → String
  | block => "BLOCK"
  | manual => "MANUAL"
  | background => "ASYNC"

/-- What there is of the last run. -/
inductive Phase (α σ κ : Type) where
  /-- No state of the algorithm, only the records of a run before. -/
  | blank (records : Array (Row α))
  /-- An initial state, but no stopping rule. -/
  | prepared (state : σ)
  /-- A run with a stopping rule. -/
  | running (course : Course α σ κ)

/-- A solver. -/
structure Solver (α σ κ : Type) where
  algorithm : Algorithm α σ κ
  settings : Settings
  phase : Phase α σ κ
  /-- The mode of the open run, if there is one. -/
  mode : Option Mode
  /-- Whether a worker still advances the run. -/
  active : Bool
  /-- What ended the worker, unless the rule did. -/
  failure : Option Fault
  /-- Whether entries of the log are printed, too. -/
  printing : Bool

/-- What `fit` is given. -/
structure FitArguments (α κ : Type) where
  mode : Mode
  /-- The stopping rule, that of the algorithm when there is none. -/
  rule : Option κ
  /-- Whether the objective is tracked. -/
  tracking : Bool
  /-- The parameters of the algorithm. -/
  parameters : Parameters α

namespace Solver

section

variable {α σ κ : Type}

/-- A solver before its first run. -/
def ofAlgorithm (A : Algorithm α σ κ) (S : Settings) : Solver α σ κ :=
  ⟨A, S, .blank #[], none, false, none, false⟩

/-- The state of the algorithm. -/
def state? (s : Solver α σ κ) : Option σ :=
  match s.phase with
  | .blank _ => none
  | .prepared state => some state
  | .running c => some c.state

/-- The variables of the algorithm. -/
def bindings (s : Solver α σ κ) : List (Variable α) :=
  match s.phase with
  | .blank _ => []
  | .prepared state => s.algorithm.bindings state
  | .running c => c.bindings s.algorithm

/-- The records of the last run. -/
def records (s : Solver α σ κ) : Array (Row α) :=
  match s.phase with
  | .blank records => records
  | .prepared _ => #[]
  | .running c => c.records

/-- The solver without an open run. -/
def close (s : Solver α σ κ) : Solver α σ κ :=
  { s with mode := none, active := false, failure := none }

/-- Accepts an open run of the allowed modes. -/
def checkMode (s : Solver α σ κ) (allowed : List Mode) : Except Fault Unit :=
  match s.mode with
  | none => .error .noRun
  | some m =>
    if allowed.contains m then .ok ()
    else .error (.wrongMode (String.intercalate ", " (allowed.map Mode.name)))

variable [Scalar α]

/-! ## What a solver shows -/

/-- The logged variables. -/
def logged (s : Solver α σ κ) : Parameters α := loggedValues s.settings s.bindings

/-- The logged variables and the table of records. -/
def stats (s : Solver α σ κ) : Except Fault (Parameters α × Option (History α)) := do
  let history ← History.ofRows s.records.toList
  pure (s.logged, history)

/-- Saves a checkpoint. -/
def writeback (s : Solver α σ κ) (w : World α) : World α × Except Fault Unit :=
  w.saveCheckpoint s.settings s.records s.logged

/-- The objective in the current state. -/
def objective (s : Solver α σ κ) : Except Fault (NdArray α) :=
  match s.algorithm.objective, s.state? with
  | none, _ => .error .noObjective
  | some _, none => .error .unknownVariable
  | some f, some state => f state

/-- The solution of a given name. -/
def solution (s : Solver α σ κ) (which : Option (Value α)) : Except Fault (Value α) :=
  s.algorithm.solution s.state? (s.stats.map (·.1)) which

/-! ## Advancing a run -/

variable [StoppingRule α κ]

/-- One tick of the run: whether it goes on. Without a state there are no variables to go on with. -/
def tick (s : Solver α σ κ) (w : World α) : Solver α σ κ × World α × Except Fault Bool :=
  match s.phase with
  | .running c =>
    match Scene.tick s.algorithm s.settings s.printing ⟨c, w⟩ with
    | .ok goesOn t => ({ s with phase := .running t.course }, t.world, .ok goesOn)
    | .error e t => ({ s with phase := .running t.course }, t.world, .error e)
  | _ => (s, w, .error .unknownVariable)

/-- What a worker does within `fuel` ticks: it advances the run until the rule ends it or a tick fails,
and keeps the failure. -/
def work : Nat → Solver α σ κ → World α → Solver α σ κ × World α
  | 0, s, w => (s, w)
  | fuel + 1, s, w =>
    if !s.active then (s, w)
    else
      match s.tick w with
      | (s, w, .ok true) => work fuel s w
      | (s, w, .ok false) => ({ s with active := false }, w)
      | (s, w, .error e) => ({ s with active := false, failure := some e }, w)

/-- Whether the run in the background still advances. -/
def busy (s : Solver α σ κ) : Except Fault Bool := do
  s.checkMode [.background, .block]
  pure s.active

/-- Stops the run in the background; what ended it early comes up here. -/
def stop (s : Solver α σ κ) : Solver α σ κ × Except Fault Unit :=
  match s.checkMode [.background, .block] with
  | .error e => (s, .error e)
  | .ok () =>
    match s.failure with
    | some e => (s.close, .error e)
    | none => (s.close, .ok ())

/-! ## Starting a run -/

/-- Empties the log; its directory has to be there. -/
def openLog (s : Solver α σ κ) (w : World α) : World α × Except Fault Unit :=
  let file := s.settings.logFile
  if !w.disk.isDirectory s.settings.workdir then (w, .error .missingPath)
  else if w.disk.isDirectory file then (w, .error .directoryPath)
  else ({ w with disk := w.disk.put file (.file #[]) }, .ok ())

/-- A run at its start. -/
def initialCourse (state : σ) (rule : κ) (tracking : Bool) : Course α σ κ where
  state := state
  objective := none
  records := #[]
  iteration := 0
  rule := rule
  tracker := if tracking then some Criterion.initialMemo else none

/-- Sets the run up, up to the point where its first tick can be taken. -/
def prepare (s : Solver α σ κ) (w : World α) (args : FitArguments α κ) :
    Solver α σ κ × World α × Except Fault Unit :=
  let log (w : World α) (entry : LogEntry α) := w.log s.settings.logFile s.printing entry
  match s.algorithm.start args.parameters with
  | .error e => (s, log w .setupFailed, .error e)
  | .ok state =>
    let w := match s.algorithm.note state with
      | some entry => log w entry
      | none => w
    let rule : Except Fault κ := match args.rule with
      | some r => .ok r
      | none => s.algorithm.rule state
    match rule with
    | .error e => ({ s with phase := .prepared state }, log w .setupFailed, .error e)
    | .ok rule =>
      let rule := StoppingRule.clear w.now rule
      ({ s with phase := .running (initialCourse state rule args.tracking) }, w, .ok ())

/-- Starts a run: nothing of the last one is left, except its records when the log cannot be opened. A
blocking run is done within `fuel` ticks; a run in the background is left to its worker. -/
def fit (fuel : Nat) (s : Solver α σ κ) (w : World α) (args : FitArguments α κ) :
    Solver α σ κ × World α × Except Fault Unit :=
  match s.openLog w with
  | (w, .error e) => ({ s with phase := .blank s.records }, w, .error e)
  | (w, .ok ()) =>
    let s := { s.close with
      phase := .blank #[]
      printing := args.mode == Mode.block && s.settings.showProgress }
    match s.prepare w args with
    | (s, w, .error e) => (s, w, .error e)
    | (s, w, .ok ()) =>
      match args.mode with
      | .manual => ({ s with mode := some .manual }, w, .ok ())
      | .background => ({ s with mode := some .background, active := true }, w, .ok ())
      | .block =>
        let (s, w) := work fuel { s with mode := some .block, active := true } w
        let (s, outcome) := s.stop
        (s, w, outcome)

/-! ## Pulling a manual run -/

/-- Whether a bound on the number of steps allows another one. -/
def allowsMore (bound : Value α) (done : Nat) : Except Fault Bool :=
  match bound with
  | .null => .ok true
  | .number n => .ok ((Number.int done).below n)
  | _ => .error .wrongType

/-- What pulling a run gives: the logged variables after each step, and what ended it early. -/
structure Pulled (α : Type) where
  items : List (Parameters α)
  failure : Option Fault

/-- At most `count` further steps after `done` ones. -/
def pullSteps (bound : Value α) : Nat → Nat → Solver α σ κ → World α →
    Solver α σ κ × World α × Pulled α
  | 0, _, s, w => (s, w, ⟨[], none⟩)
  | count + 1, done, s, w =>
    match allowsMore bound done with
    | .error e => (s, w, ⟨[], some e⟩)
    | .ok false => (s, w, ⟨[], none⟩)
    | .ok true =>
      match s.tick w with
      | (s, w, .error e) => (s.close, w, ⟨[], some e⟩)
      | (s, w, .ok false) => (s.close, w, ⟨[], none⟩)
      | (s, w, .ok true) =>
        match s.stats with
        | .error e => (s, w, ⟨[], some e⟩)
        | .ok (data, _) =>
          let (s, w, rest) := pullSteps bound count (done + 1) s w
          (s, w, { rest with items := data :: rest.items })

/-- Takes at most `count` items of the steps up to a bound. Taking none does not even ask whether a
manual run is open. -/
def pull (bound : Value α) (count : Nat) (s : Solver α σ κ) (w : World α) :
    Solver α σ κ × World α × Pulled α :=
  if count = 0 then (s, w, ⟨[], none⟩)
  else
    match s.checkMode [.manual] with
    | .error e => (s, w, ⟨[], some e⟩)
    | .ok () => pullSteps bound count 0 s w

end

end Solver

end PrimalDual
