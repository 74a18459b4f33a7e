import PrimalDual.NdArray.Kind
import PrimalDual.NdArray.Shape
import PrimalDual.Scalar.Basic

/-!
# Arrays

An array is a shape together with its elements in order, the last axis varying fastest. Elements are
either exact integers of a fixed width or scalars of a storage format. An array lives in memory, or is
split into chunks that are evaluated on demand; both hold the same values, and the difference shows
only where an update in place would change a chunked array, which is rebound instead.

* `Backend` — where the elements live.
* `Cells` — the elements of one kind.
* `NdArray` — an array; the number of elements matches the shape.
* `NdArray.tabulate`, `NdArray.tabulateWhole` — the arrays of given elements.
* `NdArray.realAt`, `NdArray.wholeAt` — the element at a flat index.
-/

namespace PrimalDual

/-- Where the elements of an array live. -/
inductive Backend where
  | memory
  | chunked
  deriving DecidableEq, Repr, Inhabited

namespace Backend

/-- The name of the array library that provides the backend. -/
def name : Backend → String
  | memory => "numpy"
  | chunked => "dask.array"

/-- The result of an operation is chunked as soon as one operand is. -/
def join : Backend → Backend → Backend
  | memory, memory => memory
  | _, _ => chunked

end Backend

/-- The elements of an array, all of one kind. -/
inductive Cells (α : Type) where
  | whole (kind : WholeKind) (values : Array Int)
  | real (precision : Precision) (values : Array α)
  deriving Repr

namespace Cells

variable {α : Type}

/-- The number of elements. -/
def size : Cells α → Nat
  | whole _ v => v.size
  | real _ v => v.size

/-- The kind of the elements. -/
def kind : Cells α → Kind
  | whole k _ => .whole k
  | real p _ => .real p

end Cells

/-- An array of some shape. -/
structure NdArray (α : Type) where
  /-- Where the elements live. -/
  backend : Backend
  /-- The lengths of the axes. -/
  shape : Shape
  /-- The elements, the last axis varying fastest. -/
  cells : Cells α
  /-- There is one element for each place of the shape. -/
  size_eq : cells.size = shape.size

namespace NdArray

variable {α : Type}

/-- The kind of the elements. -/
def kind (a : NdArray α) : Kind := a.cells.kind

/-- The number of elements. -/
def size (a : NdArray α) : Nat := a.shape.size

/-- The number of axes. -/
def rank (a : NdArray α) : Nat := a.shape.length

/-- The array of scalars `f 0, f 1, …`. -/
def tabulate (b : Backend) (s : Shape) (p : Precision) (f : Nat → α) : NdArray α where
  backend := b
  shape := s
  cells := .real p (Array.ofFn fun k : Fin s.size => f k.val)
  size_eq := by simp [Cells.size]

/-- The array of integers `f 0, f 1, …`. -/
def tabulateWhole (b : Backend) (s : Shape) (k : WholeKind) (f : Nat → Int) : NdArray α where
  backend := b
  shape := s
  cells := .whole k (Array.ofFn fun i : Fin s.size => f i.val)
  size_eq := by simp [Cells.size]

/-- The same elements on another backend. -/
def onBackend (b : Backend) (a : NdArray α) : NdArray α := { a with backend := b }

/-- The integer at a flat index, zero outside the array. -/
def wholeAt (a : NdArray α) (k : Nat) : Int :=
  match a.cells with
  | .whole _ v => v.getD k 0
  | .real _ _ => 0

/-- The element at a flat index as a scalar, zero outside the array. -/
def realAt [Scalar α] (a : NdArray α) (k : Nat) : α :=
  match a.cells with
  | .whole _ v => Scalar.ofInt (v.getD k 0)
  | .real _ v => v.getD k Scalar.zero

/-- The elements as scalars. -/
def toScalars [Scalar α] (a : NdArray α) : List α := (List.range a.size).map a.realAt

/-- The elements of an integer array. -/
def toInts (a : NdArray α) : List Int := (List.range a.size).map a.wholeAt

variable [Scalar α]

/-- A scalar that is read back from a tabulated array is the one that was put in. -/
theorem realAt_tabulate (b : Backend) (s : Shape) (p : Precision) (f : Nat → α) (k : Nat)
    (h : k < s.size) : (tabulate b s p f).realAt k = f k := by
  simp [realAt, tabulate, h]

/-- Converts the elements to another kind; a conversion to whole numbers keeps only whole ones. -/
def convert (target : Kind) (a : NdArray α) : NdArray α :=
  match target with
  | .real p =>
    if a.kind = .real p then a
    else tabulate a.backend a.shape p fun k => Scalar.narrow p (a.realAt k)
  | .whole w =>
    if a.kind = .whole w then a
    else
      match a.kind with
      | .whole _ =>
        tabulateWhole a.backend a.shape w fun k =>
          if w = .bool then (if a.wholeAt k = 0 then 0 else 1) else w.wrap (a.wholeAt k)
      | .real _ =>
        tabulateWhole a.backend a.shape w fun k =>
          if w = .bool then (if Scalar.same (a.realAt k) Scalar.zero then 0 else 1)
          else
            match Scalar.floor? (a.realAt k), Scalar.floor? (-(a.realAt k)) with
            | some down, some up => w.wrap (if 0 ≤ down then down else -up)
            | _, _ => w.wrap WholeKind.int64.least

/-- An array of zeros of the same shape, kind and backend. -/
def zerosLike (a : NdArray α) : NdArray α :=
  match a.kind with
  | .whole k => tabulateWhole a.backend a.shape k fun _ => 0
  | .real p => tabulate a.backend a.shape p fun _ => Scalar.zero

/-- The array of some shape whose element at `k` is that of `a` at `place k`. -/
def gather (s : Shape) (place : Nat → Nat) (a : NdArray α) : NdArray α :=
  match a.kind with
  | .whole k => tabulateWhole a.backend s k fun i => a.wholeAt (place i)
  | .real p => tabulate a.backend s p fun i => a.realAt (place i)

/-- The same elements in another shape of the same size. -/
def reshape? (s : Shape) (a : NdArray α) : Option (NdArray α) :=
  if h : a.shape.size = s.size then some { a with shape := s, size_eq := a.size_eq.trans h }
  else none

/-- All elements along one axis. -/
def flatten (a : NdArray α) : NdArray α where
  backend := a.backend
  shape := [a.shape.size]
  cells := a.cells
  size_eq := by rw [a.size_eq]; simp [Shape.size]

end NdArray

end PrimalDual
