import PrimalDual.Proofs.NdArray.Spot
import PrimalDual.Proofs.Operator.Action

/-!
# Operators see one point at a time

The image of a point under a linear operator does not depend on the stack in which the point stands.
For a sparse matrix this needs its entries to lie inside it: an entry beyond the last column would be
multiplied by an element of the next point.

* `LinearOperator.Within` — all entries lie inside the matrix.
* **`LinearOperator.map_same`**, **`adjointMap_same`** — the operator and its adjoint on one point in
  two stacks.
-/

namespace PrimalDual

open NdArray

variable {α : Type}

/-! ## Entries inside the matrix -/

/-- The entries of a sparse matrix lie inside it. -/
def LinearOperator.Within (K : LinearOperator α) : Prop :=
  match K.rule with
  | .sparse m => m.Within
  | _ => True

variable [Scalar α] {s s' : Spot} {x x' : NdArray α}

/-! ## Matrices -/

lemma product_same (mat : NdArray α) (hx : SamePoint s s' x x') :
    Parallel (SamePoint s s') (product mat x) (product mat x') := by
  obtain ⟨n, u, hn, hn'⟩ := hx.shows
  obtain ⟨p, hp⟩ := Kind.join_of_isReal (j := mat.kind) (k := x.kind) (Or.inr hx.real)
  have hlast : x.shape.getLast? = some n := by simp [hn.shape_eq]
  have hlast' : x'.shape.getLast? = some n := by simp [hn'.shape_eq]
  simp only [product, hlast, hlast', productIn, hx.kind_eq, hx.backend_eq, hp]
  split_ifs with hcols
  · exact .refused _
  · refine .ok ((SamePoint.mapTail p hx.backend_eq hn hn' ?_).onBackend _)
    intro u v huv i _
    rw [List.map_congr_left fun j hj => by
      rw [huv j (not_not.mp hcols ▸ List.mem_range.mp hj)]]

lemma SparseMatrix.product_same {m : SparseMatrix α} (hm : m.Within) (hx : SamePoint s s' x x') :
    Parallel (SamePoint s s') (m.product x) (m.product x') := by
  obtain ⟨n, u, hn, hn'⟩ := hx.shows
  obtain ⟨p, hp⟩ := Kind.join_of_isReal (j := m.values.kind) (k := x.kind) (Or.inr hx.real)
  have hlast : x.shape.getLast? = some n := by simp [hn.shape_eq]
  have hlast' : x'.shape.getLast? = some n := by simp [hn'.shape_eq]
  simp only [product_eq hm, hlast, hlast', SparseMatrix.productIn, hx.kind_eq, hp]
  split_ifs with hcols
  · exact .refused _
  · obtain ⟨-, hwidth⟩ : ¬n = 0 ∧ n = m.columns := by simpa using hcols
    refine .ok ((SamePoint.mapTail p hx.backend_eq hn hn' ?_).onBackend _)
    intro u v huv i hi
    rw [m.rowEntries_of_table hi, List.map_congr_left fun e he => by
      rw [huv e.1 (hwidth ▸ (hm _ (mem_rowEntries he).1).2)]]

namespace LinearOperator

/-! ## Differences -/

lemma differences_same (hx : SamePoint s s' x x') :
    Parallel (SamePoint s s') (differences x) (differences x') := by
  obtain ⟨p, hp, hp'⟩ := hx.exists_precision
  obtain ⟨n, u, hn, hn'⟩ := hx.shows
  have hlast : x.shape.getLast? = some n := by simp [hn.shape_eq]
  have hlast' : x'.shape.getLast? = some n := by simp [hn'.shape_eq]
  simp only [differences, hlast, hlast', hp, hp']
  refine .ok (SamePoint.mapTail p hx.backend_eq hn hn' ?_)
  intro u v huv i hi
  rw [huv i (by omega), huv (i + 1) (by omega)]

lemma differencesAdjoint_same (hx : SamePoint s s' x x') :
    Parallel (SamePoint s s') (differencesAdjoint x) (differencesAdjoint x') := by
  obtain ⟨p, hp, hp'⟩ := hx.exists_precision
  obtain ⟨n, u, hn, hn'⟩ := hx.shows
  have hlast : x.shape.getLast? = some n := by simp [hn.shape_eq]
  have hlast' : x'.shape.getLast? = some n := by simp [hn'.shape_eq]
  cases n with
  | zero =>
    simp only [differencesAdjoint, hlast, hlast', hp, hp']
    exact .ok hx
  | succ n =>
    simp only [differencesAdjoint, hlast, hlast', hp, hp']
    refine .ok (SamePoint.mapTail p hx.backend_eq hn hn' ?_)
    intro u v huv i hi
    rw [huv 0 (by omega), huv (n + 1 - 1) (by omega)]
    split_ifs with h0 hlast
    · rfl
    · rfl
    · rw [huv (i - 1) (by omega), huv i (by omega)]

/-! ## Operators -/

variable {K : LinearOperator α}

/-- **The image of a point** is the same in all stacks. -/
theorem map_same (hK : K.Within) (hx : SamePoint s s' x x') :
    Parallel (SamePoint s s') (K.map x) (K.map x') := by
  rw [Within] at hK
  rw [map, map]
  cases hrule : K.rule with
  | identity => exact .ok hx
  | homothety c => exact hx.update .mul (.number _)
  | difference => exact differences_same hx
  | dense a => exact product_same a hx
  | sparse m =>
    rw [hrule] at hK
    exact SparseMatrix.product_same hK hx
  | unspecified => exact .refused _

/-- **The image of a point under the adjoint** is the same in all stacks. -/
theorem adjointMap_same (hK : K.Within) (hx : SamePoint s s' x x') :
    Parallel (SamePoint s s') (K.adjointMap x) (K.adjointMap x') := by
  rw [Within] at hK
  rw [adjointMap, adjointMap]
  cases hrule : K.rule with
  | identity => exact .ok hx
  | homothety c => exact hx.update .mul (.number _)
  | difference => exact differencesAdjoint_same hx
  | dense a => exact product_same a.transpose hx
  | sparse m =>
    rw [hrule] at hK
    exact SparseMatrix.product_same hK.transpose hx
  | unspecified => exact .refused _

end LinearOperator

end PrimalDual
