import Mathlib.Algebra.BigOperators.Fin
import Mathlib.Data.Matrix.Mul
import PrimalDual.Proofs.NdArray.Stack

/-!
# Points of real numbers in a stack

The points of a stack do not see each other, so one of them can be followed through a computation
while the others hold anything, infinities included.  `NdArray.Holds` says that a given point
consists of given real numbers.  On such a point, elementwise arithmetic is that of vectors.

* `NdArray.Holds` — a point of a stack consists of given real numbers.
* `Holds.zip`, `numberZip`, `update`, `map` — operations element by element.
* `Holds.add`, `sub`, `scale`, `divide` — vector arithmetic.
-/

namespace PrimalDual

open Exact NdArray

variable {lead : Shape} {b c : Backend} {n m r : ℕ} {F : ℕ → ℕ → Exact}

/-- Finite elements add up to a finite sum. -/
lemma foldl_add_finite (xs : List ℝ) (s : ℝ) :
    (xs.map finite).foldl (· + ·) (finite s) = finite (s + xs.sum) := by
  induction xs generalizing s with
  | nil => simp
  | cons x xs ih =>
    rw [List.map_cons, List.foldl_cons, finite_add, ih, List.sum_cons, add_assoc]

/-- Finite terms of a list add up to a finite sum. -/
lemma foldl_add_map {ι : Type} (xs : List ι) {f : ι → Exact} {g : ι → ℝ}
    (h : ∀ e ∈ xs, f e = finite (g e)) :
    (xs.map f).foldl (· + ·) (finite 0) = finite (xs.map g).sum := by
  have hmap : xs.map f = (xs.map g).map finite := by
    rw [List.map_map]
    exact List.map_congr_left h
  rw [hmap, foldl_add_finite, zero_add]

lemma total_of_reads {u : ℕ → Exact} {v : Fin n → ℝ} (h : ∀ j : Fin n, u j = finite (v j)) :
    total n u = finite (∑ j, v j) := by
  have hmap : (List.range n).map u = (List.ofFn v).map finite := by
    refine List.ext_getElem (by simp) fun i hi _ => ?_
    have hin : i < n := by simpa using hi
    simpa using h ⟨i, hin⟩
  rw [total, hmap, foldl_add_finite, zero_add, List.sum_ofFn]

namespace NdArray

/-- The array is a stack of points, and point `r` consists of the real numbers `v`. -/
structure Holds (a : NdArray Exact) (b : Backend) (lead : Shape) (n r : ℕ) (v : Fin n → ℝ) :
    Prop where
  lt : r < lead.size
  backend_eq : a.backend = b
  shape_eq : a.shape = lead ++ [n]
  real : a.kind.isReal = true
  row : ∀ j : Fin n, a.realAt (r * n + j) = finite (v j)

variable {a d : NdArray Exact} {o : Operand Exact} {u v w : Fin n → ℝ}

lemma Stack.holds (h : a.Stack b lead n F) (hr : r < lead.size)
    (hv : ∀ j : Fin n, F r j = finite (v j)) : a.Holds b lead n r v where
  lt := hr
  backend_eq := h.backend_eq
  shape_eq := h.shape_eq
  real := h.real
  row j := (h.entry r hr j j.isLt).trans (hv j)

namespace Holds

lemma stack (h : a.Holds b lead n r v) : a.Stack b lead n fun r j => a.realAt (r * n + j) :=
  ⟨h.backend_eq, h.shape_eq, h.real, fun _ _ _ _ => rfl⟩

/-- A point consists of one choice of numbers only. -/
lemma eq (h : a.Holds b lead n r v) (h' : a.Holds c lead n r w) : v = w := by
  funext j
  have hj := (h.row j).symm.trans (h'.row j)
  rwa [finite.injEq] at hj

/-! ## Operations on a point

What an operation does to a point is settled by the numbers that the point meets in the operand.
-/

lemma fits (h : a.Holds b lead n r v) : (Operand.array a).Fits (lead ++ [n]) :=
  Operand.fits_of_stack h.stack

lemma entry (h : a.Holds b lead n r v) (j : Fin n) :
    (Operand.array a).entry lead n r j = finite (v j) := by
  rw [Operand.entry_of_stack h.stack h.lt j.isLt, h.row]

/-- An array with one number for each point can be spread over the elements. -/
lemma column_fits {x : ℝ} (h : a.Holds b lead 1 r fun _ => x) :
    (Operand.array a).Fits (lead ++ [n]) :=
  Operand.fits_of_column h.stack

lemma column_entry {x : ℝ} (h : a.Holds b lead 1 r fun _ => x) (j : Fin n) :
    (Operand.array a).entry lead n r j = finite x := by
  have hrow := h.row 0
  rw [Operand.entry_of_column h.stack h.lt j.isLt]
  exact hrow

lemma zip (op : Operation) (ha : a.Holds b lead n r v) (ho : o.Fits (lead ++ [n]))
    (hw : ∀ j : Fin n, o.entry lead n r j = finite (w j))
    (hu : ∀ j, op.onReal (finite (v j)) (finite (w j)) = finite (u j)) :
    Yields (arith op (.array a) o) (·.Holds (b.join o.backend) lead n r u) := by
  refine (arith_stack op ha.stack ho).mono fun y hy => hy.holds ha.lt fun j => ?_
  rw [ha.row, hw, hu]

lemma numberZip (op : Operation) {x : Number Exact} {ξ : ℝ} (hx : x.Is ξ)
    (ha : a.Holds b lead n r v)
    (hu : ∀ j, op.onReal (finite ξ) (finite (v j)) = finite (u j)) :
    Yields (arith op (.number x) (.array a)) (·.Holds b lead n r u) := by
  refine (arith_number_stack op x ha.stack).mono fun y hy => hy.holds ha.lt fun j => ?_
  rw [hx, ha.row, hu]

/-- An update in place, by an operand that lives where the array lives. -/
lemma update (op : Operation) (ha : a.Holds b lead n r v) (ho : o.Fits (lead ++ [n]))
    (hb : b.join o.backend = b) (hw : ∀ j : Fin n, o.entry lead n r j = finite (w j))
    (hu : ∀ j, op.onReal (finite (v j)) (finite (w j)) = finite (u j)) :
    Yields (a.update op o) (·.Holds b lead n r u) := by
  refine (update_stack op ha.stack ho hb).mono fun y hy => hy.holds ha.lt fun j => ?_
  rw [ha.row, hw, hu]

lemma map {f : Exact → Exact} (ha : a.Holds b lead n r v)
    (hu : ∀ j, f (finite (v j)) = finite (u j)) : (a.mapReal f).Holds b lead n r u :=
  (mapReal_stack ha.stack f).holds ha.lt fun j => by rw [ha.row, hu]

lemma zerosLike (h : a.Holds b lead n r v) : a.zerosLike.Holds b lead n r 0 :=
  (zerosLike_stack h.stack).holds h.lt fun _ => rfl

/-! ## Vector arithmetic -/

lemma add (ha : a.Holds b lead n r v) (hd : d.Holds c lead n r w) :
    Yields (arith .add (.array a) (.array d)) (·.Holds (b.join c) lead n r (v + w)) := by
  rw [← hd.backend_eq]
  exact ha.zip .add hd.fits hd.entry fun _ => rfl

lemma sub (ha : a.Holds b lead n r v) (hd : d.Holds c lead n r w) :
    Yields (arith .sub (.array a) (.array d)) (·.Holds (b.join c) lead n r (v - w)) := by
  rw [← hd.backend_eq]
  exact ha.zip .sub hd.fits hd.entry fun _ => rfl

lemma scale {x : Number Exact} {ξ : ℝ} (hx : x.Is ξ) (ha : a.Holds b lead n r v) :
    Yields (arith .mul (.number x) (.array a)) (·.Holds b lead n r (ξ • v)) :=
  ha.numberZip .mul hx fun _ => rfl

lemma divide {x : Number Exact} {ξ : ℝ} (hx : x.Is ξ) (h0 : ξ ≠ 0) (ha : a.Holds b lead n r v) :
    Yields (arith .div (.array a) (.number x)) (·.Holds b lead n r (ξ⁻¹ • v)) := by
  have h := ha.zip .div (o := .number x) (w := fun _ => ξ) (u := ξ⁻¹ • v) trivial (fun _ => hx)
    fun j => by
      show finite (v j) / finite ξ = _
      rw [finite_div _ h0, Pi.smul_apply, smul_eq_mul, div_eq_inv_mul]
  rwa [Operand.backend, Backend.join_memory] at h

lemma updateAdd (ha : a.Holds b lead n r v) (hd : d.Holds c lead n r w) (hb : b.join c = b) :
    Yields (a.update .add (.array d)) (·.Holds b lead n r (v + w)) := by
  rw [← hd.backend_eq] at hb
  exact ha.update .add hd.fits hb hd.entry fun _ => rfl

lemma updateScale {x : Number Exact} {ξ : ℝ} (hx : x.Is ξ) (ha : a.Holds b lead n r v) :
    Yields (a.update .mul (.number x)) (·.Holds b lead n r (ξ • v)) :=
  ha.update .mul (o := .number x) (w := fun _ => ξ) trivial (Backend.join_memory b) (fun _ => hx)
    fun j => by
      show finite (v j * ξ) = _
      rw [Pi.smul_apply, smul_eq_mul, mul_comm]

/-! ## Sums -/

/-- The sum of the elements, one for each point. -/
lemma sum (h : a.Holds b lead n r v) : (a.sumTail 1).Holds b lead 1 r fun _ => ∑ j, v j :=
  (sumTail_stack h.stack).holds h.lt fun _ => total_of_reads h.row

/-- The squared length, one for each point. -/
lemma squares (h : a.Holds b lead n r v) :
    (a.square.sumTail 1).Holds b lead 1 r fun _ => v ⬝ᵥ v := by
  have hsquare : a.square.Holds b lead n r fun j => v j * v j :=
    (square_stack h.stack).holds h.lt fun j => by rw [h.row, finite_mul]
  exact hsquare.sum

end Holds

end NdArray

end PrimalDual
