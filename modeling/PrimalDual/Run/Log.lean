import PrimalDual.Run.History
import PrimalDual.Splitting.Schedule

/-!
# The log of a run

A run writes one entry for its setup, for each report of statistics, for its end, and for each failure.
Entries keep their numbers; how those are written is decided when the log is read.

* `LogEntry` — the entries.
* `LogEntry.lines` — the lines of an entry, the first one after its level.
-/

namespace PrimalDual

/-- An entry of the log. -/
inductive LogEntry (α : Type) where
  /-- The method, the steps, the terms and the operator of a splitting run. -/
  | setup (method : Method) (tau sigma : Value α) (primal dual operator : String)
  /-- The record that is reported at an iteration. -/
  | statistics (iteration : Nat) (record : Row α)
  /-- The criterion is satisfied. -/
  | satisfied
  /-- The run could not be set up. -/
  | setupFailed
  /-- An iteration failed; the last checkpoint, where checkpoints are taken. -/
  | iterationFailed (iteration : Nat) (checkpoint : Option Nat)
  deriving Inhabited

/-- The decimal digits in groups of three, from the last one. -/
def groupDigits (n : Nat) : String :=
  let rec group : List Char → List Char
    | a :: b :: c :: d :: rest => a :: b :: c :: '_' :: group (d :: rest)
    | s => s
  String.ofList (group (toString n).toList.reverse).reverse

namespace LogEntry

variable {α : Type}

/--
The lines of an entry. `step` writes a step size and `number` a statistic.
-/
def lines (step : Value α → String) (number : α → String) : LogEntry α → List String
  | setup method tau sigma primal dual operator =>
    ["DEBUG -- FBPD: method=" ++ method.tag ++ ", tau=" ++ step tau ++ ", sigma=" ++ step sigma ++
      ", primal-side=" ++ primal ++ ", dual-side=" ++ dual ++ ", K=" ++ operator]
  | statistics iteration record =>
    ("INFO -- Iteration " ++ groupDigits iteration) ::
      ("\titeration: " ++ toString record.iteration) ::
      record.entries.map fun (label, x) => "\t" ++ label ++ ": " ++ number x
  | satisfied => ["INFO -- Stopping Criterion satisfied -> END"]
  | setupFailed => ["ERROR -- Initialization failed -> ABORT"]
  | iterationFailed iteration checkpoint =>
    ("ERROR -- Something went wrong at iteration " ++ toString iteration ++ " -> EXCEPTION RAISED") ::
      match checkpoint with
      | some j => ["Last valid checkpoint done at iteration=" ++ toString j ++ "."]
      | none => []

end LogEntry

end PrimalDual
