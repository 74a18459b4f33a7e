import PrimalDual.NdArray.Arith

/-!
# Functions of the trailing axes

Norms, inner products and differences read the trailing axes of an array and leave the leading ones
alone: an array of shape `(…, N)` is a stack of points, and every point is treated by itself. All such
functions go through one definition, which hands the function one block of trailing elements at a time;
that no block can see another is thereby plain.

* `NdArray.mapTail`, `NdArray.mapTailWhole` — a function of each trailing block.
* `NdArray.sumTail`, `maxTail`, `allLast` — sums, maxima and conjunctions that keep their axes.
* `NdArray.allTrue`, `NdArray.anyTrue`, `NdArray.greatest`, `NdArray.least` — over all elements.

**`NdArray.realAt_mapTail`** states the element at each place as a function of its own block.
-/

namespace PrimalDual.NdArray

variable {α : Type} [Scalar α]

/-- The scalars of the trailing block that starts at flat index `start`. -/
def blockAt (a : NdArray α) (start : Nat) (j : Nat) : α := a.realAt (start + j)

/-- Replaces the last `rank` axes by `tail`: element `j` of a block becomes `g block j`. -/
def mapTail (rank : Nat) (tail : Shape) (p : Precision) (g : (Nat → α) → Nat → α)
    (a : NdArray α) : NdArray α :=
  let n := (a.shape.tail rank).size
  let m := tail.size
  tabulate a.backend (a.shape.replaceTail rank tail) p fun k => g (a.blockAt (k / m * n)) (k % m)

/-- Replaces the last `rank` axes by `tail` in an array of integers. -/
def mapTailWhole (rank : Nat) (tail : Shape) (w : WholeKind) (g : (Nat → Int) → Nat → Int)
    (a : NdArray α) : NdArray α :=
  let n := (a.shape.tail rank).size
  let m := tail.size
  tabulateWhole a.backend (a.shape.replaceTail rank tail) w fun k =>
    g (fun j => a.wholeAt (k / m * n + j)) (k % m)

/-- Every element of the result depends on its own block alone. -/
theorem realAt_mapTail (rank : Nat) (tail : Shape) (p : Precision) (g : (Nat → α) → Nat → α)
    (a : NdArray α) (k : Nat) (h : k < (a.shape.replaceTail rank tail).size) :
    (a.mapTail rank tail p g).realAt k =
      g (a.blockAt (k / tail.size * (a.shape.tail rank).size)) (k % tail.size) := by
  rw [mapTail, realAt_tabulate _ _ _ _ _ h]

/-- The first `n` scalars of a block. -/
def blockList (n : Nat) (block : Nat → α) : List α := (List.range n).map block

/-- The first `n` integers of a block. -/
def blockInts (n : Nat) (block : Nat → Int) : List Int := (List.range n).map block

/-- Sums of narrow formats are accumulated in binary32 at least. -/
def accumulator : Precision → Precision
  | .half => .single
  | p => p

/-- The sum of scalars of format `p`, from the left, each partial sum rounded. -/
def roundedSum (p : Precision) (xs : List α) : α :=
  Scalar.narrow p
    (xs.foldl (fun s x => Scalar.narrow (accumulator p) (s + x)) Scalar.zero)

/-- The sums over the last `rank` axes, which stay with length one. -/
def sumTail (rank : Nat) (a : NdArray α) : NdArray α :=
  let n := (a.shape.tail rank).size
  let ones := List.replicate rank 1
  match a.kind with
  | .real p => a.mapTail rank ones p fun block _ => roundedSum p (blockList n block)
  | .whole w =>
    a.mapTailWhole rank ones w.sumKind fun block _ =>
      w.sumKind.wrap ((blockInts n block).foldl (· + ·) 0)

/-- The largest scalar of a non-empty list, NaN if there is one. -/
def largest : List α → α
  | [] => Scalar.zero
  | x :: xs => xs.foldl Scalar.maximum x

/-- The smallest scalar of a non-empty list, NaN if there is one. -/
def smallest : List α → α
  | [] => Scalar.zero
  | x :: xs => xs.foldl Scalar.minimum x

/-- The maxima over the last `rank` axes; an empty block has none. -/
def maxTail (rank : Nat) (a : NdArray α) : Except Fault (NdArray α) :=
  let n := (a.shape.tail rank).size
  if n = 0 && (a.shape.lead rank).size != 0 then .error .emptyExtremum
  else
    .ok (a.mapTail rank (List.replicate rank 1) a.kind.precision fun block _ =>
      largest (blockList n block))

/-- Whether all truth values along the last axis hold. -/
def allLast (a : NdArray α) : NdArray α :=
  let n := (a.shape.tail 1).size
  a.mapTailWhole 1 [1] .bool fun block _ => if (blockInts n block).all (· ≠ 0) then 1 else 0

/-- Whether all truth values hold. -/
def allTrue (a : NdArray α) : Bool := a.toInts.all (· ≠ 0)

/-- Whether some truth value holds. -/
def anyTrue (a : NdArray α) : Bool := a.toInts.any (· ≠ 0)

/-- The largest element as a scalar, NaN if there is one. -/
def greatest (a : NdArray α) : Except Fault α :=
  if a.size = 0 then .error .emptyExtremum else .ok (largest a.toScalars)

/-- The smallest element as a scalar, NaN if there is one. -/
def least (a : NdArray α) : Except Fault α :=
  if a.size = 0 then .error .emptyExtremum else .ok (smallest a.toScalars)

end PrimalDual.NdArray
