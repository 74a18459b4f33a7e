import PrimalDual.Fault
import PrimalDual.NdArray.Basic

/-!
# Records of a run

Each evaluation of the stopping criterion leaves a record of its statistics. The records of a run make
up a table when they all have the same labels.

* `Row` — the record of one evaluation.
* `History`, `History.ofRows` — the table of all records.
* `History.matrix` — the table as an array of floating-point numbers.
-/

namespace PrimalDual

/-- The record of one evaluation. -/
structure Row (α : Type) where
  /-- The iteration that it was made at. -/
  iteration : Nat
  /-- The statistics by label. -/
  entries : List (String × α)
  deriving Repr, Inhabited

namespace Row

variable {α : Type}

/-- The labels of the statistics. -/
def labels (r : Row α) : List String := r.entries.map (·.1)

/-- The statistics without their labels. -/
def numbers (r : Row α) : List α := r.entries.map (·.2)

end Row

/-- A table of records with common labels. -/
structure History (α : Type) where
  labels : List String
  rows : List (Row α)
  /-- Every record has the labels of the table. -/
  labels_eq : ∀ r ∈ rows, r.labels = labels

namespace History

variable {α : Type}

/-- The table of some records; there is none without records. -/
def ofRows (rows : List (Row α)) : Except Fault (Option (History α)) :=
  match rows with
  | [] => .ok none
  | first :: _ =>
    if h : ∀ r ∈ rows, r.labels = first.labels then .ok (some ⟨first.labels, rows, h⟩)
    else .error .fieldsDiffer

variable [Scalar α]

/-- The table as an array, one row for each record: the iteration, then the statistics. -/
def matrix (t : History α) : NdArray α :=
  let cells := (t.rows.flatMap fun r => Scalar.ofInt r.iteration :: r.numbers).toArray
  .tabulate .memory [t.rows.length, t.labels.length + 1] .double fun k =>
    cells.getD k Scalar.zero

end History

end PrimalDual
