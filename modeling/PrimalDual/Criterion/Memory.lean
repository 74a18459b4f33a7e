import PrimalDual.Value.Arith

/-!
# Variables and the arrays they share

The variables of an algorithm hold numbers, texts, or arrays that live in shared cells: an update in
place changes a cell, and everyone who refers to that cell sees the change. A chunked array is never
changed; its variable is bound to a new cell instead.

* `Memory`, `Address` — the cells.
* `Slot`, `Variables` — what the variables hold.
* `Observation` — what a stopping criterion gets to see: the cells, the variables and the clock.

**`Memory.read_write_self`** and **`Memory.read_write_other`**: a write changes its own cell only.
-/

namespace PrimalDual

/-- The place of a cell. -/
abbrev Address := Nat

/-- The cells that hold arrays. -/
structure Memory (α : Type) where
  cells : Array (NdArray α)

namespace Memory

variable {α : Type}

/-- An array without elements, the content of a cell that does not exist. -/
def nothing : NdArray α := .tabulateWhole .memory [0] .bool fun _ => 0

instance : Inhabited (NdArray α) := ⟨nothing⟩

/-- No cells. -/
def empty : Memory α := ⟨#[]⟩

/-- The array in a cell. -/
def read (m : Memory α) (at_ : Address) : NdArray α := m.cells.getD at_ nothing

/-- Changes the array in a cell. -/
def write (m : Memory α) (at_ : Address) (a : NdArray α) : Memory α :=
  ⟨m.cells.setIfInBounds at_ a⟩

/-- A new cell with an array in it. -/
def allocate (m : Memory α) (a : NdArray α) : Memory α × Address :=
  (⟨m.cells.push a⟩, m.cells.size)

/-- A cell that was written to holds what was written. -/
theorem read_write_self (m : Memory α) (i : Address) (a : NdArray α) (h : i < m.cells.size) :
    (m.write i a).read i = a := by
  simp [read, write, h]

/-- A write leaves the other cells alone. -/
theorem read_write_other (m : Memory α) (i j : Address) (a : NdArray α) (h : i ≠ j) :
    (m.write i a).read j = m.read j := by
  simp [read, write, Array.getElem?_setIfInBounds_ne h]

end Memory

/-- What a variable holds. -/
inductive Slot (α : Type) where
  /-- An array in a cell. -/
  | array (at_ : Address)
  /-- A value that is no array. -/
  | value (v : Value α)

/-- The variables by name. -/
abbrev Variables (α : Type) := List (String × Slot α)

/-- What a stopping criterion gets to see. -/
structure Observation (α : Type) where
  memory : Memory α
  bindings : Variables α
  /-- The time in microseconds. -/
  now : Int

namespace Observation

variable {α : Type}

/-- What a variable holds. -/
def slot (o : Observation α) (name : String) : Except Fault (Slot α) :=
  match o.bindings.find? fun entry => entry.1 == name with
  | some (_, s) => .ok s
  | none => .error .unknownVariable

/-- The current value of what a variable holds. -/
def resolve (o : Observation α) : Slot α → Value α
  | .array i => .array (o.memory.read i)
  | .value v => v

/-- The current value of a variable. -/
def get (o : Observation α) (name : String) : Except Fault (Value α) :=
  (o.slot name).map o.resolve

end Observation

end PrimalDual
