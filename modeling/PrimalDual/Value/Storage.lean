import PrimalDual.Text.Blank
import PrimalDual.Value.Arith

/-!
# Where values live

A chunked array is evaluated on demand; this module says how values of any kind are evaluated, moved
to memory, and copied. Whether an array may be changed in place depends on who owns its elements.

* `Value.backend`, `Value.backendOr` — where an array lives, and where to work with a value.
* `EvaluationMode`, `Value.evaluate` — evaluation to memory, or of the chunks alone.
* `Value.inMemory`, `Value.snapshot` — an array in memory, and a copy for keeping.
* `ArrayHandle`, `ArrayHandle.safe` — an array that may be changed in place.
-/

namespace PrimalDual

section

variable {α : Type} [Scalar α]

namespace Value

/-- The array behind a value that has to be one. -/
def requireArray : Value α → Except Fault (NdArray α)
  | array a => .ok a
  | v => .error (.noBackend v.shown)

/-- Where an array lives. -/
def backend (v : Value α) : Except Fault Backend := v.requireArray.map NdArray.backend

/-- Where to work with a value: where it lives, or at a given place when it is no array. -/
def backendOr (v : Value α) (otherwise : Option Backend) : Except Fault Backend :=
  match v, otherwise with
  | array a, _ => .ok a.backend
  | _, some b => .ok b
  | v, none => .error (.noArrayModule v.kindName)

end Value

/-- How chunked arrays are evaluated. -/
inductive EvaluationMode where
  /-- To arrays in memory. -/
  | compute
  /-- To chunked arrays whose chunks are known. -/
  | persist
  deriving DecidableEq, Repr, Inhabited

namespace EvaluationMode

/-- The names of the modes. -/
def names : List (String × EvaluationMode) := [("compute", compute), ("persist", persist)]

/-- The mode that a name stands for, blanks at its ends and the case of its letters aside. -/
def read (v : Value α) : Except Fault EvaluationMode :=
  let found := match v with
    | .text s => (names.find? fun entry => entry.1 == (strip s).toLower).map (·.2)
    | _ => none
  match found with
  | some m => .ok m
  | none => .error (.evaluationMode v.shown)

/-- The backend after evaluation. -/
def target : EvaluationMode → Backend → Backend
  | compute, _ => .memory
  | persist, b => b

end EvaluationMode

namespace Value

/-- Evaluates an array; other values stay as they are. -/
def evaluate (m : EvaluationMode) : Value α → Value α
  | array a => array (a.onBackend (m.target a.backend))
  | v => v

/-- The array moved to memory. -/
def inMemory (v : Value α) : Except Fault (NdArray α) :=
  v.requireArray.map fun a => a.onBackend .memory

/-- A copy of the array that updates in place do not reach. -/
def snapshot (v : Value α) : Except Fault (NdArray α) := v.requireArray

end Value

end

/-- An array together with what is known about its elements. -/
structure ArrayHandle (α : Type) where
  content : NdArray α
  /-- Whether the elements belong to this array alone. -/
  owned : Bool
  /-- Whether the elements may be written. -/
  writable : Bool

namespace ArrayHandle

variable {α : Type}

/-- An array of its own. -/
def owner (a : NdArray α) : ArrayHandle α := ⟨a, true, true⟩

/-- An array that shows the elements of another one. -/
def view (a : NdArray α) : ArrayHandle α := ⟨a, false, true⟩

/-- An array of its own that must not be written. -/
def readOnly (a : NdArray α) : ArrayHandle α := ⟨a, true, false⟩

/-- A view of all but the first entry along the first axis. -/
def tail [Scalar α] (a : NdArray α) : Except Fault (ArrayHandle α) :=
  match a.shape with
  | [] => .error .indexOutOfRange
  | n :: rest => .ok (view (a.gather ((n - 1) :: rest) fun k => k + Shape.size rest))

/-- A view that shows the array twice along a new first axis. -/
def twice [Scalar α] (a : NdArray α) : ArrayHandle α :=
  view (a.gather (2 :: a.shape) fun k => k % a.size)

/-- Whether the array may be changed in place. A chunked one may: it is rebound. -/
def isSafe (h : ArrayHandle α) : Bool :=
  h.content.backend = .chunked || (h.owned && h.writable)

/-- The array itself if it may be changed in place, or a copy of its own. -/
def safe (h : ArrayHandle α) : ArrayHandle α := if h.isSafe then h else owner h.content

/-- What the array shows after an update in place of the one that `safe` gives. -/
def afterUpdate (h : ArrayHandle α) (updated : NdArray α) : NdArray α :=
  if h.isSafe && h.content.backend = .memory then updated else h.content

/-- The safe array may be changed in place. -/
theorem isSafe_safe (h : ArrayHandle α) : h.safe.isSafe = true := by
  rw [safe]
  split
  · assumption
  · simp [owner, isSafe]

end ArrayHandle

end PrimalDual
