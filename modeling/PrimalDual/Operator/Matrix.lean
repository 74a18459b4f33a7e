import PrimalDual.NdArray.Reduce

/-!
# Matrices

A matrix acts on the trailing axis of its input: `(…, N)` becomes `(…, M)`. A dense matrix is an array
with two axes; a sparse one lists its entries, and entries at the same place add up.

* `product`, `SparseMatrix.product` — the products with the trailing axis.
* `SparseMatrix.dot` — the product with an array of two axes.
* `NdArray.transpose`, `SparseMatrix.transpose`, `SparseMatrix.toDense`.
* `spectralNorm`, `frobeniusNorm` — the norms.
-/

namespace PrimalDual

variable {α : Type} [Scalar α]

/-- The number of rows of an array with two axes. -/
def NdArray.rows (a : NdArray α) : Nat := a.shape.getD 0 0

/-- The number of columns of an array with two axes. -/
def NdArray.columns (a : NdArray α) : Nat := a.shape.getD 1 0

/-- The transposed matrix. -/
def NdArray.transpose (a : NdArray α) : NdArray α :=
  let m := a.rows
  let n := a.columns
  let place (k : Nat) : Nat := k % m * n + k / m
  match a.kind with
  | .real p => .tabulate a.backend [n, m] p fun k => a.realAt (place k)
  | .whole w => .tabulateWhole a.backend [n, m] w fun k => a.wholeAt (place k)

/-- The same elements in another shape, which must have the same size. -/
def NdArray.reshape (s : Shape) (a : NdArray α) : Except Fault (NdArray α) :=
  match a.reshape? s with
  | some b => .ok b
  | none => .error .shapeMismatch

/-- The matrix product along the trailing axis in a common kind. -/
def productIn (kind : Kind) (mat x : NdArray α) : NdArray α :=
  let n := mat.columns
  let b := mat.backend.join x.backend
  let out : NdArray α := match kind with
    | .real p =>
      x.mapTail 1 [mat.rows] p fun row i =>
        NdArray.roundedSum p ((List.range n).map fun j =>
          Scalar.narrow p (row j * mat.realAt (i * n + j)))
    | .whole w =>
      x.mapTailWhole 1 [mat.rows] w fun row i =>
        let terms := (List.range n).map fun j => row j * mat.wholeAt (i * n + j)
        if w = .bool then (if terms.any (· ≠ 0) then 1 else 0)
        else w.wrap (terms.foldl (· + ·) 0)
  out.onBackend b

/-- The product of a dense matrix with the trailing axis of an array. -/
def product (mat x : NdArray α) : Except Fault (NdArray α) :=
  match x.shape.getLast? with
  | none => .error .shapeMismatch
  | some n =>
    if n ≠ mat.columns then .error .shapeMismatch
    else .ok (productIn (mat.kind.join x.kind) mat x)

/-- A matrix given by its entries; several entries at one place add up. -/
structure SparseMatrix (α : Type) where
  rows : Nat
  columns : Nat
  /-- The row and column of each entry. -/
  places : List (Nat × Nat)
  /-- The value of each entry, in the order of `places`. -/
  values : NdArray α

namespace SparseMatrix

/-- The matrix with rows and columns exchanged. -/
def transpose (m : SparseMatrix α) : SparseMatrix α where
  rows := m.columns
  columns := m.rows
  places := m.places.map fun (i, j) => (j, i)
  values := m.values

/-- The numbers of the entries in row `i`, with their columns. -/
def rowEntries (m : SparseMatrix α) (i : Nat) : List (Nat × Nat) :=
  (m.places.zipIdx.filter fun e => e.1.1 == i).map fun e => (e.1.2, e.2)

/-- The sum of the scalars at one place. -/
def realAt (m : SparseMatrix α) (i j : Nat) : α :=
  Scalar.sum (((m.rowEntries i).filter fun e => e.1 == j).map fun e => m.values.realAt e.2)

/-- The sum of the integers at one place. -/
def wholeAt (m : SparseMatrix α) (i j : Nat) : Int :=
  (((m.rowEntries i).filter fun e => e.1 == j).map fun e => m.values.wholeAt e.2).foldl (· + ·) 0

/-- The dense form. -/
def toDense (m : SparseMatrix α) : NdArray α :=
  match m.values.kind with
  | .real p =>
    .tabulate .memory [m.rows, m.columns] p fun k =>
      Scalar.narrow p (m.realAt (k / m.columns) (k % m.columns))
  | .whole w =>
    .tabulateWhole .memory [m.rows, m.columns] w fun k =>
      let n := m.wholeAt (k / m.columns) (k % m.columns)
      if w = .bool then (if n = 0 then 0 else 1) else w.wrap n

/-- The sparse form of a dense matrix: its entries other than zero, row by row. -/
def ofDense (a : NdArray α) : SparseMatrix α :=
  let kept := (List.range a.size).filter fun k =>
    if a.kind.isReal then !Scalar.same (a.realAt k) Scalar.zero else a.wholeAt k != 0
  let pick := kept.toArray
  { rows := a.rows
    columns := a.columns
    places := kept.map fun k => (k / a.columns, k % a.columns)
    values := match a.kind with
      | .real p => .tabulate .memory [kept.length] p fun k => a.realAt (pick.getD k 0)
      | .whole w => .tabulateWhole .memory [kept.length] w fun k => a.wholeAt (pick.getD k 0) }

/-- The matrix product with an array of two axes, a column for each point, in a common kind. -/
def dotIn (kind : Kind) (m : SparseMatrix α) (x : NdArray α) : NdArray α :=
  let k := x.columns
  let table : Array (List (Nat × Nat)) := ((List.range m.rows).map m.rowEntries).toArray
  match kind with
  | .real p =>
    .tabulate .memory [m.rows, k] p fun place =>
      NdArray.roundedSum p ((table.getD (place / k) []).map fun e =>
        Scalar.narrow p (m.values.realAt e.2 * x.realAt (e.1 * k + place % k)))
  | .whole w =>
    .tabulateWhole .memory [m.rows, k] w fun place =>
      let terms := (table.getD (place / k) []).map fun e =>
        m.values.wholeAt e.2 * x.wholeAt (e.1 * k + place % k)
      if w = .bool then (if terms.any (· ≠ 0) then 1 else 0)
      else w.wrap (terms.foldl (· + ·) 0)

/-- The matrix product with an array of two axes. -/
def dot (m : SparseMatrix α) (x : NdArray α) : Except Fault (NdArray α) :=
  if x.rows ≠ m.columns then .error .shapeMismatch
  else .ok (m.dotIn (m.values.kind.join x.kind) x)

/--
The product with the trailing axis of an array, which must not be empty. The points are lined up along
one axis and transposed to columns; the product is transposed back and spread over the leading axes.
-/
def product (m : SparseMatrix α) (x : NdArray α) : Except Fault (NdArray α) :=
  match x.shape.getLast? with
  | none => .error .indexOutOfRange
  | some n =>
    if n = 0 then .error .shapeMismatch
    else do
      let points ← x.reshape [x.size / n, n]
      let images ← m.dot points.transpose
      images.transpose.reshape (x.shape.dropLast ++ [m.rows])

end SparseMatrix

/-! ## Norms

The spectral norm is the largest singular value. Plane rotations make the columns orthogonal pair by
pair; once they all are, their lengths are the singular values. The entries are scaled by their largest
magnitude first, so that squares neither overflow nor vanish.
-/

/-- The inner product of two columns. -/
def innerProduct (u v : Array α) : α := Scalar.sum (Array.zipWith (· * ·) u v).toList

/-- The rotation that makes two columns orthogonal, and whether they were not orthogonal yet. -/
def rotatePair (u v : Array α) : Array α × Array α × Bool :=
  let a := innerProduct u u
  let b := innerProduct v v
  let g := innerProduct u v
  let bound := Scalar.ratio 1 10000000000000000 * Scalar.sqrt (a * b)
  if Scalar.atMost (Scalar.abs g) bound then (u, v, false)
  else
    let z := (b - a) / (Scalar.ofInt 2 * g)
    let r := Scalar.one / (Scalar.abs z + Scalar.sqrt (Scalar.one + z * z))
    let t := if Scalar.less z Scalar.zero then -r else r
    let c := Scalar.one / Scalar.sqrt (Scalar.one + t * t)
    let s := c * t
    (Array.zipWith (fun x y => c * x - s * y) u v, Array.zipWith (fun x y => s * x + c * y) u v, true)

/-- The pairs of column numbers in the order in which they are rotated. -/
def columnPairs (n : Nat) : List (Nat × Nat) :=
  (List.range n).flatMap fun i => ((List.range n).filter (i < ·)).map fun j => (i, j)

/-- Rotates every pair of columns once. -/
def sweepColumns (cols : Array (Array α)) : Array (Array α) × Bool :=
  (columnPairs cols.size).foldl (fun (cs, moved) (i, j) =>
    let (u, v, turned) := rotatePair (cs.getD i #[]) (cs.getD j #[])
    ((cs.setIfInBounds i u).setIfInBounds j v, moved || turned)) (cols, false)

/-- Sweeps until no pair moves, at most `fuel` times. -/
def orthogonalize : Nat → Array (Array α) → Array (Array α)
  | 0, cols => cols
  | fuel + 1, cols =>
    let (next, moved) := sweepColumns cols
    if moved then orthogonalize fuel next else next

/-- The largest magnitude of some scalars, NaN if one is. -/
def largestMagnitude (xs : List α) : α :=
  xs.foldl (fun m x => Scalar.maximum m (Scalar.abs x)) Scalar.zero

/-- Whether the squares of all entries vanish. -/
def squaresVanish (a : NdArray α) : Bool :=
  let scale := largestMagnitude a.toScalars
  Scalar.same (scale * scale) Scalar.zero

/-- The largest singular value of a matrix; NaN when an entry is not finite, zero when there is none. -/
def spectralNorm (a : NdArray α) : α :=
  let scale := largestMagnitude a.toScalars
  if Scalar.isNan scale || Scalar.isInfinite scale then Scalar.nan
  else if Scalar.same scale Scalar.zero then Scalar.zero
  else
    -- the shorter side becomes the columns
    let t := if a.rows < a.columns then a.transpose else a
    let cols := (Array.range t.columns).map fun j =>
      (Array.range t.rows).map fun i => t.realAt (i * t.columns + j) / scale
    let lengths := (orthogonalize 60 cols).toList.map fun c => Scalar.sqrt (innerProduct c c)
    scale * largestMagnitude lengths

/-- The square root of the sum of the squares of all entries, in the format of the entries. -/
def frobeniusNorm (a : NdArray α) : α :=
  let p : Precision := match a.kind with
    | .real p => p
    | .whole _ => .double
  let squares := a.toScalars.map fun x => Scalar.narrow p (x * x)
  Scalar.narrow p (Scalar.sqrt (NdArray.roundedSum p squares))

end PrimalDual
