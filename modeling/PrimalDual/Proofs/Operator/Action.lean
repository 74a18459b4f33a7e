import PrimalDual.Operator.Linear
import PrimalDual.Proofs.NdArray.Point
import PrimalDual.Proofs.Operator.Flattening

/-!
# Operators are their matrices

Each operator multiplies every point of a stack by one real matrix, and its adjoint multiplies by
the transposed matrix.  The matrix is read off the rule of the operator entry by entry.

* `LinearRule.matrix` — the matrix.
* `LinearRule.Acts` — the sizes fit the rule and its numbers are finite.
* `LinearRule.landing` — where the image of an array lives.
* **`map_holds`**, **`adjointMap_holds`** — the operator and its adjoint on a point.
-/

namespace PrimalDual

open Exact Matrix NdArray

variable {lead : Shape} {b : Backend} {m n r : ℕ} {v : Fin n → ℝ} {w : Fin m → ℝ}

/-! ## Dense matrices -/

/-- Where the product with a dense matrix lives does not matter for its elements. -/
lemma product_holds {a x : NdArray Exact} {M : Matrix (Fin m) (Fin n) ℝ} (ha : a.shape = [m, n])
    (hM : ∀ i j, a.realAt (i.val * n + j.val) = finite (M i j)) (hx : x.Holds b lead n r v) :
    Yields (product a x) (·.Holds (a.backend.join b) lead m r (M *ᵥ v)) := by
  have hrows : a.rows = m := by simp [NdArray.rows, ha]
  have hcols : a.columns = n := by simp [NdArray.columns, ha]
  have hlast : x.shape.getLast? = some n := by simp [hx.shape_eq]
  obtain ⟨p, hp⟩ := Kind.join_of_isReal (j := a.kind) (k := x.kind) (Or.inr hx.real)
  simp only [product, hlast, hcols, ne_eq, not_true_eq_false, if_false, productIn, hp, hrows,
    hx.backend_eq, roundedSum_eq, narrow_eq]
  refine Yields.ok ?_
  have hstack := mapTail_stack (m := m) p (g := fun row i =>
    ((List.range n).map fun j => row j * a.realAt (i * n + j)).foldl (· + ·) (finite 0)) hx.stack
    fun u u' huu i _ => by
      rw [List.map_congr_left fun j hj => by rw [huu j (List.mem_range.mp hj)]]
  refine (hstack.onBackend _).holds hx.lt fun i => ?_
  show total n (fun j => x.realAt (r * n + j) * a.realAt (i * n + j)) = _
  rw [total_of_reads (v := fun j => v j * M i j) fun j => by rw [hx.row, hM, finite_mul]]
  congr 1
  exact Finset.sum_congr rfl fun j _ => mul_comm _ _

/-! ## Sparse matrices

A row of a sparse matrix lists columns, and a column may come up several times.  The product goes
through the list once; the matrix has the sum of the list at each column.
-/

namespace SparseMatrix

variable {s : SparseMatrix Exact}

/-- Going through a row once is going through its columns one by one. -/
lemma sum_columns {R : Type} [Semiring R] (L : List (ℕ × ℕ)) (g : ℕ → R) (v : Fin n → R)
    (hL : ∀ e ∈ L, e.1 < n) (u : ℕ → R) (hu : ∀ j : Fin n, u j = v j) :
    (L.map fun e => g e.2 * u e.1).sum
      = ∑ j : Fin n, ((L.filter fun e => e.1 == j.val).map fun e => g e.2).sum * v j := by
  induction L with
  | nil => simp
  | cons e L ih =>
    have he : e.1 < n := hL e List.mem_cons_self
    have hsplit (j : Fin n) : (((e :: L).filter fun e => e.1 == j.val).map fun e => g e.2).sum * v j
        = (if j = ⟨e.1, he⟩ then g e.2 * v j else 0)
          + ((L.filter fun e => e.1 == j.val).map fun e => g e.2).sum * v j := by
      by_cases hj : j = ⟨e.1, he⟩
      · subst hj
        simp [add_mul]
      · have hne : e.1 ≠ j.val := fun h => hj (Fin.ext h.symm)
        simp [hj, hne]
    rw [List.map_cons, List.sum_cons, ih fun e' h => hL e' (List.mem_cons_of_mem _ h),
      Finset.sum_congr rfl fun j _ => hsplit j, Finset.sum_add_distrib, Finset.sum_ite_eq',
      if_pos (Finset.mem_univ _), ← hu ⟨e.1, he⟩]

/-- The places lie inside the matrix and the values are finite. -/
def Fits (s : SparseMatrix Exact) (m n : ℕ) : Prop :=
  s.rows = m ∧ s.columns = n ∧ (∀ e ∈ s.places, e.1 < m ∧ e.2 < n) ∧
    ∀ k < s.places.length, ∃ x, s.values.realAt k = finite x

lemma Fits.within (hs : s.Fits m n) : s.Within := by
  obtain ⟨rfl, rfl, hplaces, -⟩ := hs
  exact hplaces

lemma realAt_finite (hs : s.Fits m n) (i j : ℕ) :
    s.realAt i j = finite (((s.rowEntries i).filter fun e => e.1 == j).map fun e =>
      (s.values.realAt e.2).toReal).sum := by
  rw [realAt, Scalar.sum, zero_eq]
  refine foldl_add_map _ fun e he => ?_
  obtain ⟨x, hx⟩ := hs.2.2.2 e.2 (mem_rowEntries (List.mem_filter.mp he).1).2
  rw [hx, toReal_finite]

lemma product_holds {x : NdArray Exact} {M : Matrix (Fin m) (Fin n) ℝ} (hs : s.Fits m n)
    (hn : 0 < n) (hM : ∀ i j, s.realAt i.val j.val = finite (M i j)) (hx : x.Holds b lead n r v) :
    Yields (s.product x) (·.Holds .memory lead m r (M *ᵥ v)) := by
  have hlast : x.shape.getLast? = some n := by simp [hx.shape_eq]
  obtain ⟨p, hp⟩ := Kind.join_of_isReal (j := s.values.kind) (k := x.kind) (Or.inr hx.real)
  have hguard : (n = 0 || n ≠ s.columns) = false := by simp [hn.ne', hs.2.1]
  simp only [product_eq hs.within, hlast, hguard, Bool.false_eq_true, if_false, productIn, hp,
    hs.1, roundedSum_eq, narrow_eq]
  refine Yields.ok ?_
  have htable {i : ℕ} (hi : i < m) :
      (((List.range m).map s.rowEntries).toArray).getD i [] = s.rowEntries i := by
    have h := s.rowEntries_of_table (hs.1.symm ▸ hi)
    rwa [hs.1] at h
  have hstack := mapTail_stack (m := m) p (g := fun row i =>
    (((((List.range m).map s.rowEntries).toArray).getD i []).map fun e =>
      s.values.realAt e.2 * row e.1).foldl (· + ·) (finite 0)) hx.stack
    fun u u' huu i hi => by
      simp only [htable hi]
      rw [List.map_congr_left fun e he => by
        rw [huu e.1 (hs.2.2.1 _ (mem_rowEntries he).1).2]]
  refine (hstack.onBackend _).holds hx.lt fun i => ?_
  show ((_ : List (ℕ × ℕ)).map _).foldl _ _ = _
  rw [htable i.isLt]
  have hterm : ∀ e ∈ s.rowEntries i, s.values.realAt e.2 * x.realAt (r * n + e.1)
      = finite ((s.values.realAt e.2).toReal * (x.realAt (r * n + e.1)).toReal) := by
    intro e he
    obtain ⟨hplace, hlt⟩ := mem_rowEntries he
    obtain ⟨y, hy⟩ := hs.2.2.2 e.2 hlt
    have hcol : e.1 < n := (hs.2.2.1 _ hplace).2
    have hxe := hx.row ⟨e.1, hcol⟩
    rw [hy, hxe, finite_mul, toReal_finite, toReal_finite]
  rw [foldl_add_map _ hterm, sum_columns _ (fun k => (s.values.realAt k).toReal) v
    (fun e he => (hs.2.2.1 _ (mem_rowEntries he).1).2)
    (fun k => (x.realAt (r * n + k)).toReal) fun j => by rw [hx.row, toReal_finite]]
  congr 1
  refine Finset.sum_congr rfl fun j _ => ?_
  have hij := (realAt_finite hs i j).symm.trans (hM i j)
  rw [finite.injEq] at hij
  exact congrArg (· * v j) hij

/-- The entries at one place are those at the transposed place of the transposed matrix. -/
lemma rowEntries_transpose {α β : Type} (s : SparseMatrix α) (f : ℕ → β) (i j : ℕ) :
    ((s.transpose.rowEntries j).filter fun e => e.1 == i).map (fun e => f e.2)
      = ((s.rowEntries i).filter fun e => e.1 == j).map fun e => f e.2 := by
  have hplace (t : SparseMatrix α) (i j : ℕ) :
      ((t.rowEntries i).filter fun e => e.1 == j).map (fun e => f e.2)
        = (t.places.zipIdx.filter fun e => e.1.1 == i && e.1.2 == j).map fun e => f e.2 := by
    rw [rowEntries, List.filter_map, List.map_map, List.filter_filter]
    simp only [Function.comp_def, Bool.and_comm]
  rw [hplace, hplace]
  simp only [SparseMatrix.transpose, List.zipIdx_map, List.filter_map, List.map_map,
    Function.comp_def, Prod.map, Bool.and_comm, id_eq]

lemma realAt_transpose {α : Type} [Scalar α] (s : SparseMatrix α) (i j : ℕ) :
    s.transpose.realAt j i = s.realAt i j :=
  congrArg Scalar.sum (s.rowEntries_transpose s.values.realAt i j)

lemma wholeAt_transpose {α : Type} (s : SparseMatrix α) (i j : ℕ) :
    s.transpose.wholeAt j i = s.wholeAt i j :=
  congrArg (List.foldl (· + ·) 0) (s.rowEntries_transpose s.values.wholeAt i j)

lemma Fits.transpose (hs : s.Fits m n) : s.transpose.Fits n m := by
  refine ⟨hs.2.1, hs.1, fun e he => ?_, fun k hk => hs.2.2.2 k ?_⟩
  · obtain ⟨e', he', rfl⟩ := List.mem_map.mp he
    exact (hs.2.2.1 e' he').symm
  · simpa [SparseMatrix.transpose] using hk

end SparseMatrix

/-! ## Differences -/

/-- The differences of neighbours. -/
lemma differences_holds {x : NdArray Exact} {v : Fin (m + 1) → ℝ}
    (hx : x.Holds b lead (m + 1) r v) :
    Yields (LinearOperator.differences x)
      (·.Holds b lead m r fun i : Fin m => v i.succ - v i.castSucc) := by
  have hlast : x.shape.getLast? = some (m + 1) := by simp [hx.shape_eq]
  obtain ⟨p, hp⟩ := exists_precision hx.real
  simp only [LinearOperator.differences, hlast, hp, narrow_eq, Nat.add_sub_cancel]
  refine Yields.ok ?_
  have hstack := mapTail_stack (m := m) p (g := fun row i => row (i + 1) - row i) hx.stack
    fun u u' huu i hi => by rw [huu i (by omega), huu (i + 1) (by omega)]
  refine hstack.holds hx.lt fun i => ?_
  have h₁ := hx.row i.succ
  have h₂ := hx.row i.castSucc
  rw [Fin.val_succ] at h₁
  rw [Fin.val_castSucc] at h₂
  rw [h₁, h₂, finite_sub]

/-- The adjoint of the differences, where elements outside the input count as absent. -/
lemma differencesAdjoint_holds {y : NdArray Exact} (hm : 0 < m) (hy : y.Holds b lead m r w) :
    Yields (LinearOperator.differencesAdjoint y) (·.Holds b lead (m + 1) r fun j : Fin (m + 1) =>
      (if h : 0 < j.val then w ⟨j.val - 1, by omega⟩ else 0)
        - if h : j.val < m then w ⟨j.val, h⟩ else 0) := by
  have hlast : y.shape.getLast? = some m := by simp [hy.shape_eq]
  obtain ⟨p, hp⟩ := exists_precision hy.real
  obtain ⟨k, rfl⟩ := Nat.exists_eq_succ_of_ne_zero hm.ne'
  simp only [LinearOperator.differencesAdjoint, hlast, hp, narrow_eq]
  refine Yields.ok ?_
  have hstack := mapTail_stack (m := k + 1 + 1) p
    (g := fun row i => if i = 0 then -(row 0) else if i = k + 1 then row (k + 1 - 1)
      else row (i - 1) - row i) hy.stack
    fun u u' huu i hi => by
      split
      · rw [huu 0 (by omega)]
      · split
        · rw [huu (k + 1 - 1) (by omega)]
        · rw [huu (i - 1) (by omega), huu i (by omega)]
  refine hstack.holds hy.lt fun j => ?_
  by_cases h0 : j.val = 0
  · have hrow := hy.row ⟨0, by omega⟩
    rw [if_pos h0, hrow, finite_neg, dif_neg (by omega), dif_pos (by omega)]
    simp [h0]
  · rw [if_neg h0, dif_pos (by omega)]
    by_cases hlastj : j.val = k + 1
    · have hrow := hy.row ⟨k + 1 - 1, by omega⟩
      rw [if_pos hlastj, hrow, dif_neg (by omega), sub_zero]
      simp [hlastj]
    · have h₁ := hy.row ⟨j.val - 1, by omega⟩
      have h₂ := hy.row ⟨j.val, by omega⟩
      rw [if_neg hlastj, h₁, h₂, dif_pos (by omega), finite_sub]

/-! ## Rules and their matrices -/

namespace LinearRule

/-- The entry in row `i` and column `j` of the matrix that the rule multiplies by. -/
noncomputable def entry : LinearRule Exact → ℕ → ℕ → ℝ
  | identity, i, j => if i = j then 1 else 0
  | homothety c, i, j => if i = j then c.toReal else 0
  | difference, i, j => (if j = i + 1 then 1 else 0) - if j = i then 1 else 0
  | dense a, i, j => (a.realAt (i * a.columns + j)).toReal
  | sparse s, i, j => (s.realAt i j).toReal
  | unspecified, _, _ => 0

/-- The matrix that the rule multiplies by. -/
noncomputable def matrix (R : LinearRule Exact) (m n : ℕ) : Matrix (Fin m) (Fin n) ℝ :=
  .of fun i j => R.entry i j

/--
The rule makes points of size `m` of points of size `n`, and its numbers are finite.  Differences
need two elements at least; a product with a sparse matrix refuses empty points.
-/
def Acts : LinearRule Exact → ℕ → ℕ → Prop
  | identity, m, n => m = n
  | homothety c, m, n => m = n ∧ ∃ x, c = finite x
  | difference, m, n => n = m + 1 ∧ 0 < m
  | dense a, m, n => a.shape = [m, n] ∧ ∀ k < m * n, ∃ x, a.realAt k = finite x
  | sparse s, m, n => s.Fits m n ∧ 0 < m ∧ 0 < n
  | unspecified, _, _ => False

/-- Where the image of an array on `b` lives. -/
def landing : LinearRule Exact → Backend → Backend
  | dense a, b => a.backend.join b
  | sparse _, _ => .memory
  | _, b => b

/-- The size of the image of points of size `n`. -/
def outputs : LinearRule Exact → ℕ → ℕ
  | difference, n => n - 1
  | dense a, _ => a.rows
  | sparse s, _ => s.rows
  | _, n => n

lemma matrix_identity : (identity : LinearRule Exact).matrix n n = 1 := by
  ext i j
  simp [matrix, entry, Matrix.one_apply, Fin.ext_iff]

lemma matrix_homothety (c : ℝ) : (homothety (finite c)).matrix n n = c • 1 := by
  ext i j
  simp [matrix, entry, Matrix.one_apply, Fin.ext_iff]

/-- The entries of a dense matrix are finite. -/
lemma realAt_dense {a : NdArray Exact} (h : (dense a).Acts m n) (i : Fin m) (j : Fin n) :
    a.realAt (i.val * n + j.val) = finite ((dense a).matrix m n i j) := by
  have hcols : a.columns = n := by simp [NdArray.columns, h.1]
  have hlt : i.val * n + j.val < m * n := by
    have hi : i.val < Shape.size [m] := by simp
    have hplace := Shape.place_lt hi j.isLt
    rwa [Shape.size_stack, Shape.size_singleton] at hplace
  obtain ⟨x, hx⟩ := h.2 _ hlt
  simp only [matrix, entry, Matrix.of_apply, hcols, hx, toReal_finite]

lemma realAt_sparse {s : SparseMatrix Exact} (h : s.Fits m n) (i : Fin m) (j : Fin n) :
    s.realAt i j = finite ((sparse s).matrix m n i j) := by
  simp only [matrix, entry, Matrix.of_apply, SparseMatrix.realAt_finite h, toReal_finite]

lemma difference_mulVec (v : Fin (m + 1) → ℝ) :
    (difference : LinearRule Exact).matrix m (m + 1) *ᵥ v = fun i => v i.succ - v i.castSucc := by
  funext i
  have hentry (j : Fin (m + 1)) : (difference : LinearRule Exact).matrix m (m + 1) i j * v j
      = (if j = i.succ then v j else 0) - if j = i.castSucc then v j else 0 := by
    simp only [matrix, entry, Matrix.of_apply, Fin.ext_iff, Fin.val_succ, Fin.val_castSucc, sub_mul,
      ite_mul, one_mul, zero_mul]
  rw [mulVec, dotProduct, Finset.sum_congr rfl fun j _ => hentry j, Finset.sum_sub_distrib,
    Finset.sum_ite_eq', Finset.sum_ite_eq', if_pos (Finset.mem_univ _), if_pos (Finset.mem_univ _)]

lemma difference_transpose_mulVec (w : Fin m → ℝ) :
    ((difference : LinearRule Exact).matrix m (m + 1))ᵀ *ᵥ w = fun j =>
      (if h : 0 < j.val then w ⟨j.val - 1, by omega⟩ else 0)
        - if h : j.val < m then w ⟨j.val, h⟩ else 0 := by
  funext j
  have hentry (i : Fin m) : ((difference : LinearRule Exact).matrix m (m + 1))ᵀ j i * w i
      = (if j.val = i.val + 1 then w i else 0) - if j.val = i.val then w i else 0 := by
    simp only [matrix, entry, Matrix.transpose_apply, Matrix.of_apply, sub_mul, ite_mul, one_mul,
      zero_mul]
  have hafter : (∑ i : Fin m, if j.val = i.val + 1 then w i else 0)
      = if h : 0 < j.val then w ⟨j.val - 1, by omega⟩ else 0 := by
    split
    · rw [Finset.sum_eq_single ⟨j.val - 1, by omega⟩]
      · rw [if_pos (by simp; omega)]
      · intro i _ hi
        exact if_neg fun h => hi (Fin.ext (by simp; omega))
      · simp
    · exact Finset.sum_eq_zero fun i _ => if_neg (by omega)
  have hbefore : (∑ i : Fin m, if j.val = i.val then w i else 0)
      = if h : j.val < m then w ⟨j.val, h⟩ else 0 := by
    split
    · rename_i h
      rw [Finset.sum_eq_single ⟨j.val, h⟩]
      · rw [if_pos rfl]
      · intro i _ hi
        exact if_neg fun h => hi (Fin.ext h.symm)
      · simp
    · exact Finset.sum_eq_zero fun i _ => if_neg (by omega)
  rw [mulVec, dotProduct, Finset.sum_congr rfl fun i _ => hentry i, Finset.sum_sub_distrib,
    hafter, hbefore]

end LinearRule

/-! ## The operator and its adjoint -/

/-- **An operator multiplies every point by its matrix.** -/
theorem map_holds (K : LinearOperator Exact) {x : NdArray Exact} (hK : K.rule.Acts m n)
    (hx : x.Holds b lead n r v) :
    Yields (K.map x) (·.Holds (K.rule.landing b) lead m r (K.rule.matrix m n *ᵥ v)) := by
  rw [LinearOperator.map]
  cases hR : K.rule with
  | identity =>
    rw [hR] at hK
    obtain rfl : m = n := hK
    rw [LinearRule.matrix_identity, one_mulVec]
    exact Yields.ok hx
  | homothety c =>
    rw [hR] at hK
    obtain ⟨rfl, c, rfl⟩ := hK
    rw [LinearRule.matrix_homothety, smul_mulVec, one_mulVec]
    exact hx.updateScale (Number.is_real c)
  | difference =>
    rw [hR] at hK
    obtain ⟨rfl, -⟩ := hK
    rw [LinearRule.difference_mulVec]
    exact differences_holds hx
  | dense a =>
    rw [hR] at hK
    exact product_holds hK.1 (LinearRule.realAt_dense hK) hx
  | sparse s =>
    rw [hR] at hK
    exact SparseMatrix.product_holds hK.1 hK.2.2 (LinearRule.realAt_sparse hK.1) hx
  | unspecified =>
    rw [hR] at hK
    exact hK.elim

/-- **The adjoint of an operator multiplies every point by the transposed matrix.** -/
theorem adjointMap_holds (K : LinearOperator Exact) {y : NdArray Exact} (hK : K.rule.Acts m n)
    (hy : y.Holds b lead m r w) :
    Yields (K.adjointMap y) (·.Holds (K.rule.landing b) lead n r ((K.rule.matrix m n)ᵀ *ᵥ w)) := by
  rw [LinearOperator.adjointMap]
  cases hR : K.rule with
  | identity =>
    rw [hR] at hK
    obtain rfl : m = n := hK
    rw [LinearRule.matrix_identity, transpose_one, one_mulVec]
    exact Yields.ok hy
  | homothety c =>
    rw [hR] at hK
    obtain ⟨rfl, c, rfl⟩ := hK
    rw [LinearRule.matrix_homothety, transpose_smul, transpose_one, smul_mulVec, one_mulVec]
    exact hy.updateScale (Number.is_real c)
  | difference =>
    rw [hR] at hK
    obtain ⟨rfl, hm⟩ := hK
    rw [LinearRule.difference_transpose_mulVec]
    exact differencesAdjoint_holds hm hy
  | dense a =>
    rw [hR] at hK
    have hback : a.transpose.backend = a.backend := transpose_backend a
    show Yields (product a.transpose y) (·.Holds (a.backend.join b) lead n r _)
    rw [← hback]
    refine product_holds (transpose_shape hK.1) (fun j i => ?_) hy
    rw [realAt_transpose hK.1 i.isLt j.isLt, LinearRule.realAt_dense hK]
    rfl
  | sparse s =>
    rw [hR] at hK
    refine SparseMatrix.product_holds hK.1.transpose hK.2.1 (fun j i => ?_) hy
    rw [SparseMatrix.realAt_transpose, LinearRule.realAt_sparse hK.1]
    rfl
  | unspecified =>
    rw [hR] at hK
    exact hK.elim

end PrimalDual
