import PrimalDual.Proofs.NdArray.Finiteness
import PrimalDual.Proofs.Operator.Adjoint

/-!
# Sparse and dense matrices

A matrix is stored with all its elements, or as a list of entries of which several may stand at one
place and then add up.  The list is multiplied with arrays of two axes only, so that a product with a
stack of points goes through flattened and transposed arrays.  The outcome is the product with the
dense form all the same, for the matrix and for its transpose, however many leading axes there are.

That a row of the list and a row of the dense form have the same sum of products is a fact of exact
arithmetic.  It needs finite numbers: the dense row multiplies an infinite element by the zeros that
the list leaves out.

* `NdArray.transpose_transpose`, `matmul_real`, `matmul_whole` — products of arrays with two axes.
* `SparseMatrix.toDense_transpose` — the dense form of the transposed matrix.
* `SparseMatrix.SumsExactly` — no sum of entries leaves the kind of the values.
* **`SparseMatrix.product_of_exactOn`** — from products with columns to products with points.
* **`SparseMatrix.dot_exact`**, `SparseMatrix.exactOn_of_finite` — products of finite numbers.
* **`LinearOperator.sparse_agrees_with_dense`** — the two operators and their adjoints.
-/

namespace PrimalDual

open Exact NdArray

variable {α : Type} [Scalar α] {lead : Shape} {b : Backend} {m n k : ℕ}

/-! ## Matrices transposed twice -/

namespace NdArray

variable {a : NdArray α}

lemma eq_tabulate {p : Precision} (h : a.kind = .real p) :
    a = tabulate a.backend a.shape p a.realAt := by
  obtain ⟨backend, shape, cells, hsize⟩ := a
  cases cells with
  | whole w vals => cases h
  | real q vals =>
    cases h
    have hvals : vals = Array.ofFn fun i : Fin shape.size => vals.getD i Scalar.zero :=
      Array.ext (by simpa [Cells.size] using hsize) fun i hi _ => by simp [hi]
    simp only [tabulate, realAt, ← hvals]

omit [Scalar α] in
lemma eq_tabulateWhole {w : WholeKind} (h : a.kind = .whole w) :
    a = tabulateWhole a.backend a.shape w a.wholeAt := by
  obtain ⟨backend, shape, cells, hsize⟩ := a
  cases cells with
  | real q vals => cases h
  | whole w' vals =>
    cases h
    have hvals : vals = Array.ofFn fun i : Fin shape.size => vals.getD i 0 :=
      Array.ext (by simpa [Cells.size] using hsize) fun i hi _ => by simp [hi]
    simp only [tabulateWhole, wholeAt, ← hvals]

lemma transpose_transpose (ha : a.shape = [m, n]) : a.transpose.transpose = a := by
  have hplace {k : ℕ} (hk : k < Shape.size [m, n]) :
      (k % n * m + k / n) % m * n + (k % n * m + k / n) / m = k := by
    obtain ⟨r, i, hr, hi, rfl⟩ := Shape.exists_place [m] hk
    rw [Shape.size_singleton] at hr
    rw [Shape.place_mod hi, Shape.place_div hi, Shape.place_mod hr, Shape.place_div hr]
  cases hk : a.kind with
  | real p =>
    rw [eq_tabulate hk, ha, transpose_tabulate, transpose_tabulate]
    exact tabulate_congr fun k hk => by rw [hplace hk]
  | whole w =>
    rw [eq_tabulateWhole hk, ha, transpose_tabulateWhole, transpose_tabulateWhole]
    exact tabulateWhole_congr fun k hk => by rw [hplace hk]

end NdArray

/-! ## Products over stacks -/

section

variable {mat x points : NdArray α}

/-- The product of two matrices with two axes each. -/
def NdArray.matmul (mat x : NdArray α) : Except Fault (NdArray α) :=
  (product mat x.transpose).map NdArray.transpose

/-- The points of a stack as the columns of a matrix. -/
def NdArray.pointColumns (n : ℕ) (x : NdArray α) : Except Fault (NdArray α) :=
  (x.reshape [x.size / n, n]).map NdArray.transpose

lemma product_of_fits (lead : Shape) (hx : x.shape = lead ++ [mat.columns]) :
    product mat x = .ok (productIn (mat.kind.join x.kind) mat x) := by
  simp [product, hx]

/-- The product with flattened leading axes is the product, flattened. -/
lemma productIn_reshape (hx : x.shape = lead ++ [mat.columns])
    (hshape : points.shape = [lead.size, mat.columns]) (hcells : points.cells = x.cells)
    (hback : points.backend = x.backend) (kind : Kind) :
    (productIn kind mat points).reshape (lead ++ [mat.rows]) = .ok (productIn kind mat x) := by
  have hpoints : points.shape = [lead.size] ++ [mat.columns] := hshape
  have hsize : Shape.size ([lead.size] ++ [mat.rows]) = Shape.size (lead ++ [mat.rows]) := by
    rw [Shape.size_stack, Shape.size_stack, Shape.size_singleton]
  cases kind with
  | real p =>
    simp only [productIn, mapTail, hx, hpoints, hback, Shape.replaceTail_stack, Shape.tail_stack,
      Shape.size_singleton, onBackend_tabulate, reshape_tabulate _ _ hsize, blockAt, NdArray.realAt,
      hcells]
  | whole w =>
    simp only [productIn, mapTailWhole, hx, hpoints, hback, Shape.replaceTail_stack,
      Shape.tail_stack, Shape.size_singleton, onBackend_tabulateWhole,
      reshape_tabulateWhole _ _ hsize, NdArray.wholeAt, hcells]

/-- The elements of a product of floating-point elements. -/
lemma matmul_real {p : Precision} (hx : x.shape = [mat.columns, k])
    (hkind : mat.kind.join x.kind = .real p) :
    mat.matmul x = .ok (tabulate (mat.backend.join x.backend) [mat.rows, k] p fun q =>
      roundedSum p ((List.range mat.columns).map fun j => Scalar.narrow p
        (x.realAt (j * k + q % k) * mat.realAt (q / k * mat.columns + j)))) := by
  have hT : x.transpose.shape = [k, mat.columns] := transpose_shape hx
  have hlead : Shape.replaceTail [k, mat.columns] 1 [mat.rows] = [k, mat.rows] :=
    Shape.replaceTail_stack [k] _ _
  have htail : Shape.tail [k, mat.columns] 1 = [mat.columns] := Shape.tail_stack [k] _
  rw [NdArray.matmul, product_of_fits [k] hT, transpose_kind, hkind]
  simp only [productIn, mapTail, hT, hlead, htail, transpose_backend, Shape.size_singleton,
    onBackend_tabulate, Except.map, transpose_tabulate]
  refine congrArg Except.ok (tabulate_congr fun q hq => ?_)
  obtain ⟨i, r, hi, hr, rfl⟩ := Shape.exists_place [mat.rows] hq
  rw [Shape.size_singleton] at hi
  rw [Shape.place_mod hr, Shape.place_div hr, Shape.place_mod hi, Shape.place_div hi]
  refine congrArg _ (List.map_congr_left fun j hj => ?_)
  rw [blockAt, realAt_transpose hx (List.mem_range.mp hj) hr]

/-- The elements of a product of whole elements. -/
lemma matmul_whole {w : WholeKind} (hx : x.shape = [mat.columns, k])
    (hkind : mat.kind.join x.kind = .whole w) :
    mat.matmul x = .ok (tabulateWhole (mat.backend.join x.backend) [mat.rows, k] w fun q =>
      let terms := (List.range mat.columns).map fun j =>
        x.wholeAt (j * k + q % k) * mat.wholeAt (q / k * mat.columns + j)
      if w = .bool then (if terms.any (· ≠ 0) then 1 else 0)
      else w.wrap (terms.foldl (· + ·) 0)) := by
  have hT : x.transpose.shape = [k, mat.columns] := transpose_shape hx
  have hlead : Shape.replaceTail [k, mat.columns] 1 [mat.rows] = [k, mat.rows] :=
    Shape.replaceTail_stack [k] _ _
  have htail : Shape.tail [k, mat.columns] 1 = [mat.columns] := Shape.tail_stack [k] _
  rw [NdArray.matmul, product_of_fits [k] hT, transpose_kind, hkind]
  simp only [productIn, mapTailWhole, hT, hlead, htail, transpose_backend, Shape.size_singleton,
    onBackend_tabulateWhole, Except.map, transpose_tabulateWhole]
  refine congrArg Except.ok (tabulateWhole_congr fun q hq => ?_)
  obtain ⟨i, r, hi, hr, rfl⟩ := Shape.exists_place [mat.rows] hq
  rw [Shape.size_singleton] at hi
  rw [Shape.place_mod hr, Shape.place_div hr, Shape.place_mod hi, Shape.place_div hi,
    List.map_congr_left fun j hj => by rw [wholeAt_transpose hx (List.mem_range.mp hj) hr]]

lemma productIn_shape (lead : Shape) (hx : x.shape = lead ++ [n]) (kind : Kind) :
    (productIn kind mat x).shape = lead ++ [mat.rows] := by
  cases kind with
  | real p =>
    show x.shape.replaceTail 1 [mat.rows] = _
    rw [hx, Shape.replaceTail_stack]
  | whole w =>
    show x.shape.replaceTail 1 [mat.rows] = _
    rw [hx, Shape.replaceTail_stack]

end

/-- Only whole kinds have a whole common kind, and only truth values have truth values. -/
lemma Kind.left_of_join_whole {c d : Kind} {w : WholeKind} (h : c.join d = .whole w) :
    ∃ v, c = .whole v ∧ (w = .bool → v = .bool) := by
  cases c with
  | real p => cases d <;> cases h
  | whole v =>
    refine ⟨v, rfl, ?_⟩
    rintro rfl
    cases d with
    | real p => cases h
    | whole u => revert h; cases v <;> cases u <;> decide

namespace SparseMatrix

variable {m : SparseMatrix α} {x : NdArray α}

lemma toDense_shape (m : SparseMatrix α) : m.toDense.shape = [m.rows, m.columns] := by
  rw [toDense]
  cases m.values.kind <;> rfl

lemma toDense_kind (m : SparseMatrix α) : m.toDense.kind = m.values.kind := by
  rw [toDense]
  cases m.values.kind <;> rfl

lemma toDense_backend (m : SparseMatrix α) : m.toDense.backend = .memory := by
  rw [toDense]
  cases m.values.kind <;> rfl

lemma toDense_inMemory (m : SparseMatrix α) : m.toDense.onBackend .memory = m.toDense := by
  rw [toDense]
  cases m.values.kind <;> rfl

lemma toDense_rows (m : SparseMatrix α) : m.toDense.rows = m.rows := by
  rw [NdArray.rows, toDense_shape]
  rfl

lemma toDense_columns (m : SparseMatrix α) : m.toDense.columns = m.columns := by
  rw [NdArray.columns, toDense_shape]
  rfl

/-- The product with the points of a stack as columns is that of the dense form. -/
def ExactOn (m : SparseMatrix α) (x : NdArray α) : Prop :=
  ∀ X, x.pointColumns m.columns = .ok X → m.dot X = m.toDense.matmul X

/--
**From columns to points.**  If the product with the columns is that of the dense form, then so is the
product with the points: flattening and transposing back and forth bring every point back to where it
stood.
-/
theorem product_of_exactOn (hx : x.shape = lead ++ [m.columns]) (hcolumns : 0 < m.columns)
    (hdot : m.ExactOn x) : m.product x = PrimalDual.product m.toDense x := by
  have hlast : x.shape.getLast? = some m.columns := by simp [hx]
  obtain ⟨points, hpoints, hshape, hcells, hback⟩ := exists_points hx hcolumns
  have hdot := hdot points.transpose (by rw [NdArray.pointColumns, hpoints]; rfl)
  rw [← m.toDense_columns] at hx hshape
  have himage : (PrimalDual.productIn (m.toDense.kind.join points.kind) m.toDense points).shape
      = [lead.size, m.rows] := by
    rw [productIn_shape [lead.size] hshape, m.toDense_rows]
    rfl
  have hkind : points.kind = x.kind := by rw [NdArray.kind, NdArray.kind, hcells]
  rw [NdArray.matmul, transpose_transpose hshape,
    product_of_fits [lead.size] (x := points) hshape] at hdot
  simp only [SparseMatrix.product, hlast, hcolumns.ne', hpoints, if_false, bind, Except.bind, hdot,
    Except.map, transpose_transpose himage]
  rw [hx, List.dropLast_concat, ← m.toDense_rows, productIn_reshape hx hshape hcells hback, hkind]
  exact (product_of_fits lead hx).symm

lemma toDense_transpose (m : SparseMatrix α) : m.transpose.toDense = m.toDense.transpose := by
  have hplace {q : ℕ} (hq : q < Shape.size [m.columns, m.rows]) :
      (q % m.rows * m.columns + q / m.rows) / m.columns = q % m.rows ∧
        (q % m.rows * m.columns + q / m.rows) % m.columns = q / m.rows := by
    obtain ⟨j, i, hj, hi, rfl⟩ := Shape.exists_place [m.columns] hq
    rw [Shape.size_singleton] at hj
    rw [Shape.place_mod hi, Shape.place_div hi, Shape.place_mod hj, Shape.place_div hj]
    exact ⟨rfl, rfl⟩
  have hvalues : m.transpose.values = m.values := rfl
  rw [toDense, toDense, hvalues]
  cases m.values.kind with
  | real p =>
    rw [transpose_tabulate]
    refine tabulate_congr fun q hq => ?_
    rw [(hplace hq).1, (hplace hq).2, ← m.realAt_transpose]
    rfl
  | whole w =>
    rw [transpose_tabulateWhole]
    refine tabulateWhole_congr fun q hq => ?_
    dsimp only
    rw [(hplace hq).1, (hplace hq).2, ← m.wholeAt_transpose]
    rfl

/-- The kind of the values holds them and the sums of those at one place. -/
def SumsExactly (m : SparseMatrix α) : Prop :=
  match m.values.kind with
  | .real _ => True
  | .whole w =>
    (∀ k, w.holds (m.values.wholeAt k) = true) ∧ ∀ i j, w.holds (m.wholeAt i j) = true

omit [Scalar α] in
lemma SumsExactly.transpose (h : m.SumsExactly) : m.transpose.SumsExactly := by
  have hvalues : m.transpose.values = m.values := rfl
  rw [SumsExactly] at h ⊢
  rw [hvalues]
  cases hk : m.values.kind with
  | real p => trivial
  | whole w =>
    rw [hk] at h
    exact ⟨h.1, fun j i => by rw [m.wholeAt_transpose]; exact h.2 i j⟩

/-! ### The elements of the dense form -/

section

variable {s : SparseMatrix Exact} {X : NdArray Exact} {i j r : ℕ}

lemma toDense_wholeAt {w : WholeKind} (hs : s.SumsExactly) (hw : s.values.kind = .whole w)
    (hi : i < s.rows) (hj : j < s.columns) :
    s.toDense.wholeAt (i * s.columns + j) = s.wholeAt i j := by
  rw [SumsExactly, hw] at hs
  have hsum := hs.2 i j
  simp only [toDense, hw]
  rw [wholeAt_of_tabulateWhole _ _ (Shape.entry_lt hi hj), Shape.place_div hj, Shape.place_mod hj]
  split_ifs with hbool hzero
  · exact hzero.symm
  · rw [hbool, WholeKind.holds, Bool.and_eq_true, decide_eq_true_eq, decide_eq_true_eq] at hsum
    simp only [WholeKind.least, WholeKind.greatest] at hsum
    omega
  · exact WholeKind.wrap_of_holds hsum

/-- Whole entries add up to the same sum as scalars. -/
lemma realAt_of_whole {w : WholeKind} (hw : s.values.kind = .whole w) (i j : ℕ) :
    s.realAt i j = finite (s.wholeAt i j) := by
  rw [realAt, Scalar.sum, zero_eq, foldl_add_map _ fun e _ => NdArray.realAt_whole hw e.2, wholeAt,
    ← List.sum_eq_foldl, Int.cast_list_sum, List.map_map]
  rfl

lemma toDense_realAt (hs : s.SumsExactly) (hi : i < s.rows) (hj : j < s.columns) :
    s.toDense.realAt (i * s.columns + j) = s.realAt i j := by
  cases hk : s.values.kind with
  | real p =>
    simp only [toDense, hk]
    rw [realAt_tabulate _ _ _ _ _ (Shape.entry_lt hi hj), Shape.place_div hj, Shape.place_mod hj,
      narrow_eq]
  | whole w =>
    rw [NdArray.realAt_whole (by rw [toDense_kind, hk]), toDense_wholeAt hs hk hi hj,
      realAt_of_whole hk]

/-! ### Exact products -/

/-- A row of the list and a row of the dense form have the same sum of products. -/
lemma row_real (hm : s.Within) (hs : s.SumsExactly) (hvalues : s.values.AllFinite)
    (hX : X.AllFinite) (hi : i < s.rows) :
    ((s.rowEntries i).map fun e => s.values.realAt e.2 * X.realAt (e.1 * k + r)).foldl (· + ·)
        (finite 0)
      = ((List.range s.columns).map fun j =>
          X.realAt (j * k + r) * s.toDense.realAt (i * s.columns + j)).foldl (· + ·)
        (finite 0) := by
  have hfits : s.Fits s.rows s.columns := ⟨rfl, rfl, hm, fun k _ => hvalues k⟩
  have hreads {a : NdArray Exact} (ha : a.AllFinite) (q : ℕ) :
      a.realAt q = finite (a.realAt q).toReal := by
    obtain ⟨x, hx⟩ := ha q
    rw [hx, toReal_finite]
  have hterm : ∀ e ∈ s.rowEntries i, s.values.realAt e.2 * X.realAt (e.1 * k + r)
      = finite ((s.values.realAt e.2).toReal * (X.realAt (e.1 * k + r)).toReal) := by
    intro e _
    rw [hreads hvalues, hreads hX (e.1 * k + r), finite_mul, toReal_finite, toReal_finite]
  rw [foldl_add_map _ hterm, sum_columns (n := s.columns) _ (fun q => (s.values.realAt q).toReal)
    (fun j => (X.realAt (j * k + r)).toReal) (fun e he => hm.column_lt he)
    (fun j => (X.realAt (j * k + r)).toReal) fun _ => rfl]
  refine (total_of_reads fun j => ?_).symm
  rw [toDense_realAt hs hi j.isLt, realAt_finite hfits, hreads hX, finite_mul, toReal_finite,
    mul_comm]

/-- The same for whole elements. -/
lemma row_whole {w : WholeKind} (hm : s.Within) (hs : s.SumsExactly)
    (hw : s.values.kind = .whole w) (hi : i < s.rows) :
    ((s.rowEntries i).map fun e => s.values.wholeAt e.2 * X.wholeAt (e.1 * k + r)).foldl (· + ·) 0
      = ((List.range s.columns).map fun j =>
          X.wholeAt (j * k + r) * s.toDense.wholeAt (i * s.columns + j)).foldl (· + ·) 0 := by
  have hrange (f : ℕ → ℤ) : (List.range s.columns).map f = List.ofFn fun j : Fin s.columns => f j :=
    List.ext_getElem (by simp) (by simp)
  rw [← List.sum_eq_foldl, ← List.sum_eq_foldl, hrange, List.sum_ofFn,
    sum_columns (n := s.columns) _ s.values.wholeAt
      (fun j => X.wholeAt (j * k + r)) (fun e he => hm.column_lt he)
      (fun j => X.wholeAt (j * k + r)) fun _ => rfl]
  refine Finset.sum_congr rfl fun j _ => ?_
  rw [toDense_wholeAt hs hw hi j.isLt, mul_comm, wholeAt, ← List.sum_eq_foldl]

/-- Truth values: something in the row meets something other than zero. -/
lemma row_bool (hm : s.Within) (hs : s.SumsExactly) (hw : s.values.kind = .whole .bool)
    (hi : i < s.rows) :
    (∃ e ∈ s.rowEntries i, s.values.wholeAt e.2 * X.wholeAt (e.1 * k + r) ≠ 0) ↔
      ∃ j < s.columns, X.wholeAt (j * k + r) * s.toDense.wholeAt (i * s.columns + j) ≠ 0 := by
  have hheld (q : ℕ) : 0 ≤ s.values.wholeAt q := by
    have hq := hs
    rw [SumsExactly, hw] at hq
    have hq := hq.1 q
    rw [WholeKind.holds, Bool.and_eq_true, decide_eq_true_eq] at hq
    exact hq.1
  have hzero {i j : ℕ} : s.wholeAt i j ≠ 0 ↔
      ∃ e ∈ s.rowEntries i, e.1 = j ∧ s.values.wholeAt e.2 ≠ 0 := by
    rw [wholeAt, ← List.sum_eq_foldl]
    constructor
    · intro hsum
      obtain ⟨v, hv, hne⟩ := List.exists_mem_ne_zero_of_sum_ne_zero hsum
      obtain ⟨e, he, rfl⟩ := List.mem_map.mp hv
      obtain ⟨he, hj⟩ := List.mem_filter.mp he
      exact ⟨e, he, beq_iff_eq.mp hj, hne⟩
    · rintro ⟨e, he, rfl, hne⟩ hsum
      have hle := List.single_le_sum (l := ((s.rowEntries i).filter fun d => d.1 == e.1).map
        fun d => s.values.wholeAt d.2) (by
          intro v hv
          obtain ⟨d, -, rfl⟩ := List.mem_map.mp hv
          exact hheld d.2) (s.values.wholeAt e.2)
        (List.mem_map.mpr ⟨e, List.mem_filter.mpr ⟨he, beq_self_eq_true _⟩, rfl⟩)
      have hpos := hheld e.2
      omega
  constructor
  · rintro ⟨e, he, hne⟩
    have hj := hm.column_lt he
    refine ⟨e.1, hj, mul_ne_zero (right_ne_zero_of_mul hne) ?_⟩
    rw [toDense_wholeAt hs hw hi hj]
    exact hzero.mpr ⟨e, he, rfl, left_ne_zero_of_mul hne⟩
  · rintro ⟨j, hj, hne⟩
    have hsum := right_ne_zero_of_mul hne
    rw [toDense_wholeAt hs hw hi hj] at hsum
    obtain ⟨e, he, rfl, hvalue⟩ := hzero.mp hsum
    exact ⟨e, he, mul_ne_zero hvalue (left_ne_zero_of_mul hne)⟩

/-- **The product with a matrix of finite numbers is exact.** -/
theorem dot_exact (hm : s.Within) (hs : s.SumsExactly) (hvalues : s.values.AllFinite)
    (hshape : X.shape = [s.columns, k]) (hback : X.backend = .memory) (hX : X.AllFinite) :
    s.dot X = s.toDense.matmul X := by
  have hrows : X.rows = s.columns := by rw [NdArray.rows, hshape]; rfl
  have hcols : X.columns = k := by rw [NdArray.columns, hshape]; rfl
  have hshape' : X.shape = [s.toDense.columns, k] := by rw [hshape, toDense_columns]
  rw [dot, hrows, if_neg (not_not.mpr rfl)]
  cases hkind : s.values.kind.join X.kind with
  | real p =>
    rw [dotIn, hcols, matmul_real hshape' (by rw [toDense_kind, hkind]), toDense_backend, hback,
      toDense_rows, toDense_columns]
    refine congrArg Except.ok (tabulate_congr fun q hq => ?_)
    obtain ⟨i, r, hi, hr, rfl⟩ := Shape.exists_place [s.rows] hq
    rw [Shape.size_singleton] at hi
    simp only [Shape.place_div hr, Shape.place_mod hr, s.rowEntries_of_table hi, roundedSum_eq,
      narrow_eq]
    exact row_real hm hs hvalues hX hi
  | whole w =>
    obtain ⟨v, hv, hbool⟩ := Kind.left_of_join_whole hkind
    rw [dotIn, hcols, matmul_whole hshape' (by rw [toDense_kind, hkind]), toDense_backend, hback,
      toDense_rows, toDense_columns]
    refine congrArg Except.ok (tabulateWhole_congr fun q hq => ?_)
    obtain ⟨i, r, hi, hr, rfl⟩ := Shape.exists_place [s.rows] hq
    rw [Shape.size_singleton] at hi
    simp only [Shape.place_div hr, Shape.place_mod hr, s.rowEntries_of_table hi]
    by_cases hw : w = .bool
    · have hmeets := row_bool (k := k) (r := r) (X := X) hm hs (by rw [hv, hbool hw]) hi
      simp only [if_pos hw, List.any_map, List.any_eq_true, Function.comp_apply, decide_eq_true_eq,
        List.mem_range, hmeets]
    · simp only [if_neg hw, row_whole hm hs hv hi]

/-- **Products with stacks of finite numbers are exact.** -/
theorem exactOn_of_finite {x : NdArray Exact} (hm : s.Within) (hs : s.SumsExactly)
    (hvalues : s.values.AllFinite) (hcolumns : 0 < s.columns) (hx : x.shape = lead ++ [s.columns])
    (hback : x.backend = .memory) (hfinite : x.AllFinite) : s.ExactOn x := by
  intro X hX
  obtain ⟨points, hpoints, hshape, hcells, hback'⟩ := exists_points hx hcolumns
  rw [NdArray.pointColumns, hpoints] at hX
  cases hX
  exact dot_exact hm hs hvalues (transpose_shape hshape)
    (by rw [transpose_backend, hback', hback])
    (transpose_allFinite (AllFinite.of_cells hcells hfinite))

end

end SparseMatrix

/-! ## Operators -/

namespace LinearOperator

variable {s : SparseMatrix Exact} {K D : LinearOperator Exact} {bound bound' : Value Exact}

/--
On every stack of points in memory that `s` multiplies exactly, both functions return the product
with the matrix `a`, and only the trailing axis changes its length.
-/
def ProductsAgree (s : SparseMatrix Exact) (a : NdArray Exact)
    (F G : Value Exact → Except Fault (Value Exact)) : Prop :=
  ∀ (lead : Shape) (x : NdArray Exact), x.shape = lead ++ [s.columns] → x.backend = .memory →
    s.ExactOn x → ∃ y, product a x = .ok y ∧ y.shape = lead ++ [s.rows] ∧
      F (.array x) = .ok (.array y) ∧ G (.array x) = .ok (.array y)

/-- The products are exact on every stack of finite numbers. -/
def ProductsExact (s : SparseMatrix Exact) : Prop :=
  ∀ (lead : Shape) (x : NdArray Exact), x.shape = lead ++ [s.columns] → x.backend = .memory →
    x.AllFinite → s.ExactOn x

lemma sparse_map_eq {x : NdArray Exact} (hcolumns : 0 < s.columns)
    (hx : x.shape = lead ++ [s.columns]) (hexact : s.ExactOn x) :
    ∃ y, product s.toDense x = .ok y ∧ y.shape = lead ++ [s.rows] ∧ s.product x = .ok y := by
  have hx' : x.shape = lead ++ [s.toDense.columns] := by rw [hx, s.toDense_columns]
  refine ⟨_, product_of_fits lead hx', ?_, ?_⟩
  · rw [productIn_shape lead hx, s.toDense_rows]
  · rw [SparseMatrix.product_of_exactOn hx hcolumns hexact, product_of_fits lead hx']

/--
**How a matrix is stored does not show in its products.**  The operators made of a list of entries
and of the dense form have the same matrix; both multiply every stack of points by it along the
trailing axis, and their adjoints by the transposed matrix.  The products with the columns are taken
to be exact, as they are wherever all numbers are finite and no sum of entries leaves its kind.
-/
theorem sparse_agrees_with_dense (hm : s.Within) (hrows : 0 < s.rows) (hcolumns : 0 < s.columns)
    (hK : LinearOperator.sparse s bound = .ok K)
    (hD : LinearOperator.explicit (.array s.toDense) bound' = .ok D) :
    K.toMatrix = .ok s.toDense ∧ D.toMatrix = .ok s.toDense ∧
      ProductsAgree s s.toDense K.apply D.apply ∧
      ProductsAgree s.transpose s.toDense.transpose K.adjoint D.adjoint ∧
      (s.SumsExactly → s.values.AllFinite → ProductsExact s ∧ ProductsExact s.transpose) := by
  obtain ⟨hKrule, -⟩ := sparse_ok hK
  obtain ⟨hDrule, -⟩ := explicit_ok hD
  refine ⟨by rw [toMatrix, hKrule], ?_, ?_, ?_, fun hsums hvalues => ⟨?_, ?_⟩⟩
  · rw [toMatrix, hDrule]
    exact congrArg Except.ok s.toDense_inMemory
  · intro lead x hx hback hexact
    obtain ⟨y, hy, hshape, hproduct⟩ := sparse_map_eq hcolumns hx hexact
    refine ⟨y, hy, hshape, ?_, ?_⟩
    · rw [apply_array, map, hKrule]
      show (s.product x).map _ = _
      rw [hproduct]
      rfl
    · rw [apply_array, map, hDrule]
      show (product s.toDense x).map _ = _
      rw [hy]
      rfl
  · intro lead y hy hback hexact
    obtain ⟨z, hz, hshape, hproduct⟩ := sparse_map_eq (s := s.transpose) hrows hy hexact
    rw [s.toDense_transpose] at hz
    refine ⟨z, hz, hshape, ?_, ?_⟩
    · rw [adjoint_array, adjointMap, hKrule]
      show (s.transpose.product y).map _ = _
      rw [hproduct]
      rfl
    · rw [adjoint_array, adjointMap, hDrule]
      show (product s.toDense.transpose y).map _ = _
      rw [hz]
      rfl
  · exact fun lead x hx hback hfinite =>
      SparseMatrix.exactOn_of_finite hm hsums hvalues hcolumns hx hback hfinite
  · exact fun lead y hy hback hfinite =>
      SparseMatrix.exactOn_of_finite hm.transpose hsums.transpose hvalues hrows hy hback hfinite

/-- Two rows and one column; the entry of the first row is listed in two parts. -/
noncomputable def twoParts : SparseMatrix Exact :=
  ⟨2, 1, [(0, 0), (1, 0), (0, 0)], .tabulate .memory [3] .double fun k => finite (k + 1)⟩

/-- A stack of two points with one element each. -/
noncomputable def pairOfPoints : NdArray Exact :=
  .tabulate .memory [2, 1] .double fun k => finite (k - 1)

theorem two_parts_agree : ∃ K D y, LinearOperator.sparse twoParts (.number (.int 5)) = .ok K ∧
    LinearOperator.explicit (.array twoParts.toDense) (.number (.int 5)) = .ok D ∧
    K.apply (.array pairOfPoints) = .ok (.array y) ∧
    D.apply (.array pairOfPoints) = .ok (.array y) ∧ y.shape = [2, 2] := by
  have hbound : readBound (.number (.int 5)) = .ok (finite ((5 : ℤ) : ℝ)) :=
    readBound_number (Number.is_int 5) (by norm_num)
  have hK : LinearOperator.sparse twoParts (.number (.int 5))
      = .ok ⟨.sparse twoParts, some 2, some 1, finite ((5 : ℤ) : ℝ)⟩ := by
    show (do let b ← readBound (.number (.int 5)); pure ⟨.sparse twoParts, _, _, b⟩ :
      Except Fault (LinearOperator Exact)) = _
    rw [hbound]
    rfl
  have hD : LinearOperator.explicit (.array twoParts.toDense) (.number (.int 5))
      = .ok ⟨.dense twoParts.toDense, some 2, some 1, finite ((5 : ℤ) : ℝ)⟩ := by
    show (do let b ← readBound (.number (.int 5)); pure ⟨.dense twoParts.toDense, _, _, b⟩ :
      Except Fault (LinearOperator Exact)) = _
    rw [hbound]
    rfl
  have hm : twoParts.Within := by
    intro e he
    fin_cases he <;> decide
  obtain ⟨-, -, happly, -, hexact⟩ :=
    sparse_agrees_with_dense hm (by decide) (by decide) hK hD
  have hvalues : twoParts.values.AllFinite := by
    show (tabulate Backend.memory [3] Precision.double fun k : ℕ => finite (k + 1)).AllFinite
    exact tabulate_allFinite fun k _ => isFinite _
  have hpoints : pairOfPoints.AllFinite := by
    rw [pairOfPoints]
    exact tabulate_allFinite fun k _ => isFinite _
  have hfinite := (hexact trivial hvalues).1 [2] pairOfPoints rfl rfl hpoints
  obtain ⟨y, -, hshape, hKy, hDy⟩ := happly [2] pairOfPoints rfl rfl hfinite
  exact ⟨_, _, y, hK, hD, hKy, hDy, hshape⟩

end LinearOperator

end PrimalDual
