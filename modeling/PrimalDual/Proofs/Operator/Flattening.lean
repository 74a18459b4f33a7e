import PrimalDual.Operator.Matrix
import PrimalDual.Proofs.NdArray.Broadcast
import PrimalDual.Proofs.Outcome

/-!
# Products with sparse matrices, point by point

A sparse matrix multiplies arrays of two axes only.  For a stack of points the leading axes are
flattened, the points become columns, and the columns of the product become points again that are
spread over the leading axes.  This file shows that on the way every point comes back to where it
stood: the product is what it would be if each point were multiplied by itself.

* `NdArray.realAt_transpose`, `NdArray.wholeAt_transpose` — the elements of a transposed matrix.
* `NdArray.reshape_tabulate`, `NdArray.transpose_tabulate` — arrays of given elements in new shapes.
* `SparseMatrix.productIn` — the product of each point by itself.
* **`SparseMatrix.product_eq`** — the product is the product of each point by itself.
-/

namespace PrimalDual

variable {α : Type} {b : Backend} {s t : Shape} {m n i j : ℕ}

/-- Element `j` of row `i` of a matrix stands at place `i n + j`. -/
lemma Shape.entry_lt (hi : i < m) (hj : j < n) : i * n + j < Shape.size [m, n] := by
  have hrow : i < Shape.size [m] := by rwa [Shape.size_singleton]
  exact Shape.place_lt hrow hj

/-- The place that an element of a matrix comes from when the matrix is transposed. -/
lemma Shape.swap_lt {k : ℕ} (h : k < Shape.size [n, m]) :
    k % m * n + k / m < Shape.size [m, n] := by
  have hk : k < n * m := by simpa [Shape.size] using h
  have hm : 0 < m := Nat.pos_of_mul_pos_left (Nat.zero_lt_of_lt hk)
  exact Shape.entry_lt (Nat.mod_lt k hm) (Nat.div_lt_of_lt_mul (Nat.mul_comm n m ▸ hk))

/-- Every place of a stack belongs to an element of a point. -/
lemma Shape.exists_place (lead : Shape) {k : ℕ} (h : k < Shape.size (lead ++ [n])) :
    ∃ r i, r < lead.size ∧ i < n ∧ k = r * n + i := by
  rw [Shape.size_stack] at h
  have hn : 0 < n := Nat.pos_of_mul_pos_left (Nat.zero_lt_of_lt h)
  exact ⟨k / n, k % n, Nat.div_lt_of_lt_mul (Nat.mul_comm n _ ▸ h), Nat.mod_lt k hn,
    (Nat.div_add_mod' k n).symm⟩

/-! ## Arrays in new shapes -/

namespace NdArray

lemma tabulate_congr {p : Precision} {f g : ℕ → α} (h : ∀ k < s.size, f k = g k) :
    tabulate b s p f = tabulate b s p g := by
  have hfg : (fun k : Fin s.size => f k.val) = fun k => g k.val := funext fun k => h k k.isLt
  simp only [tabulate, hfg]

lemma tabulateWhole_congr {w : WholeKind} {f g : ℕ → ℤ} (h : ∀ k < s.size, f k = g k) :
    (tabulateWhole b s w f : NdArray α) = tabulateWhole b s w g := by
  have hfg : (fun k : Fin s.size => f k.val) = fun k => g k.val := funext fun k => h k k.isLt
  simp only [tabulateWhole, hfg]

lemma reshape_tabulate (p : Precision) (f : ℕ → α) (h : s.size = t.size) :
    (tabulate b s p f).reshape t = .ok (tabulate b t p f) := by
  have hcells : Array.ofFn (fun k : Fin s.size => f k) = Array.ofFn fun k : Fin t.size => f k :=
    Array.ext (by simp [h]) fun k hk hk' => by simp
  simp only [reshape, reshape?, tabulate, dif_pos h, hcells]

lemma reshape_tabulateWhole (w : WholeKind) (f : ℕ → ℤ) (h : s.size = t.size) :
    (tabulateWhole b s w f : NdArray α).reshape t = .ok (tabulateWhole b t w f) := by
  have hcells : Array.ofFn (fun k : Fin s.size => f k) = Array.ofFn fun k : Fin t.size => f k :=
    Array.ext (by simp [h]) fun k hk hk' => by simp
  simp only [reshape, reshape?, tabulateWhole, dif_pos h, hcells]

lemma onBackend_tabulate (c : Backend) (p : Precision) (f : ℕ → α) :
    (tabulate b s p f).onBackend c = tabulate c s p f := rfl

lemma onBackend_tabulateWhole (c : Backend) (w : WholeKind) (f : ℕ → ℤ) :
    (tabulateWhole b s w f : NdArray α).onBackend c = tabulateWhole c s w f := rfl

/-- Only the shape changes, if the number of elements stays. -/
lemma exists_reshape (a : NdArray α) (h : a.shape.size = t.size) :
    ∃ y, a.reshape t = .ok y ∧ y.shape = t ∧ y.cells = a.cells ∧ y.backend = a.backend := by
  rw [reshape, reshape?, dif_pos h]
  exact ⟨_, rfl, rfl, rfl, rfl⟩

lemma reshape_cells {a y : NdArray α} (h : a.reshape t = .ok y) : y.cells = a.cells := by
  rw [reshape, reshape?] at h
  split_ifs at h
  cases h
  rfl

/-- The leading axes of a stack of points can be flattened. -/
lemma exists_points {x : NdArray α} {lead : Shape} (hx : x.shape = lead ++ [n]) (hn : 0 < n) :
    ∃ points, x.reshape [x.size / n, n] = .ok points ∧ points.shape = [lead.size, n] ∧
      points.cells = x.cells ∧ points.backend = x.backend := by
  have hsize : x.size = lead.size * n := by rw [NdArray.size, hx, Shape.size_stack]
  have hcount : x.size / n = lead.size := by rw [hsize, Nat.mul_div_cancel _ hn]
  rw [hcount]
  refine x.exists_reshape ?_
  rw [← NdArray.size, hsize]
  simp [Shape.size]

variable [Scalar α] {a : NdArray α}

omit [Scalar α] in
lemma wholeAt_of_tabulateWhole (w : WholeKind) (f : ℕ → ℤ) {k : ℕ} (h : k < s.size) :
    (tabulateWhole b s w f : NdArray α).wholeAt k = f k := by
  simp [wholeAt, tabulateWhole, h]

lemma realAt_of_tabulateWhole (w : WholeKind) (f : ℕ → ℤ) {k : ℕ} (h : k < s.size) :
    (tabulateWhole b s w f : NdArray α).realAt k = Scalar.ofInt (f k) := by
  simp [realAt, tabulateWhole, h]

lemma realAt_of_whole {w : WholeKind} (h : a.kind = .whole w) (k : ℕ) :
    a.realAt k = Scalar.ofInt (a.wholeAt k) := by
  rcases hc : a.cells with ⟨w', vals⟩ | ⟨p, vals⟩
  · simp only [realAt, wholeAt, hc]
  · simp [NdArray.kind, Cells.kind, hc] at h

lemma transpose_tabulate (p : Precision) (f : ℕ → α) :
    (tabulate b [m, n] p f).transpose = tabulate b [n, m] p fun k => f (k % m * n + k / m) := by
  show tabulate b [n, m] p (fun k => (tabulate b [m, n] p f).realAt (k % m * n + k / m)) = _
  exact tabulate_congr fun k hk => realAt_tabulate _ _ _ _ _ (Shape.swap_lt hk)

lemma transpose_tabulateWhole (w : WholeKind) (f : ℕ → ℤ) :
    (tabulateWhole b [m, n] w f : NdArray α).transpose
      = tabulateWhole b [n, m] w fun k => f (k % m * n + k / m) := by
  show tabulateWhole b [n, m] w (fun k =>
    (tabulateWhole b [m, n] w f : NdArray α).wholeAt (k % m * n + k / m)) = _
  exact tabulateWhole_congr fun k hk => wholeAt_of_tabulateWhole _ _ (Shape.swap_lt hk)

/-- The transposed matrix has the elements of the matrix, the other way round. -/
lemma realAt_transpose (ha : a.shape = [m, n]) (hi : i < m) (hj : j < n) :
    a.transpose.realAt (j * m + i) = a.realAt (i * n + j) := by
  have hrows : a.rows = m := by simp [NdArray.rows, ha]
  have hcols : a.columns = n := by simp [NdArray.columns, ha]
  have hlt : j * m + i < Shape.size [n, m] := Shape.entry_lt hj hi
  have hplace : (j * m + i) % m * n + (j * m + i) / m = i * n + j := by
    rw [Shape.place_mod hi, Shape.place_div hi]
  rw [NdArray.transpose, hrows, hcols]
  cases hk : a.kind with
  | real p =>
    show (tabulate a.backend [n, m] p fun k => a.realAt (k % m * n + k / m)).realAt _ = _
    rw [realAt_tabulate _ _ _ _ _ hlt, hplace]
  | whole k =>
    show (tabulateWhole a.backend [n, m] k fun k => a.wholeAt (k % m * n + k / m)).realAt _ = _
    rw [realAt_of_tabulateWhole _ _ hlt, hplace, realAt_of_whole hk]

lemma wholeAt_transpose (ha : a.shape = [m, n]) (hi : i < m) (hj : j < n) :
    a.transpose.wholeAt (j * m + i) = a.wholeAt (i * n + j) := by
  have hrows : a.rows = m := by simp [NdArray.rows, ha]
  have hcols : a.columns = n := by simp [NdArray.columns, ha]
  have hlt : j * m + i < Shape.size [n, m] := Shape.entry_lt hj hi
  rw [NdArray.transpose, hrows, hcols]
  rcases hc : a.cells with ⟨w, vals⟩ | ⟨p, vals⟩
  · simp [NdArray.kind, Cells.kind, hc, wholeAt, tabulateWhole, hlt, Shape.place_mod hi,
      Shape.place_div hi]
  · simp [NdArray.kind, Cells.kind, hc, wholeAt, tabulate]

lemma transpose_shape (ha : a.shape = [m, n]) : a.transpose.shape = [n, m] := by
  have hrows : a.rows = m := by simp [NdArray.rows, ha]
  have hcols : a.columns = n := by simp [NdArray.columns, ha]
  rw [NdArray.transpose, hrows, hcols]
  cases a.kind <;> rfl

lemma transpose_kind (a : NdArray α) : a.transpose.kind = a.kind := by
  rw [NdArray.transpose]
  cases a.kind <;> rfl

lemma transpose_backend (a : NdArray α) : a.transpose.backend = a.backend := by
  rw [NdArray.transpose]
  cases a.kind <;> rfl

end NdArray

/-! ## Sparse matrices -/

namespace SparseMatrix

open NdArray

variable {m : SparseMatrix α}

lemma mem_rowEntries {i : ℕ} {e : ℕ × ℕ} (h : e ∈ m.rowEntries i) :
    (i, e.1) ∈ m.places ∧ e.2 < m.places.length := by
  rw [rowEntries, List.mem_map] at h
  obtain ⟨⟨⟨i', j⟩, k⟩, hmem, rfl⟩ := h
  rw [List.mem_filter, beq_iff_eq] at hmem
  obtain ⟨hmem, rfl⟩ := hmem
  have hget := List.mem_zipIdx_iff_getElem?.mp hmem
  exact ⟨List.mem_of_getElem? hget, (List.getElem?_eq_some_iff.mp hget).1⟩

lemma rowEntries_of_table (m : SparseMatrix α) {i : ℕ} (hi : i < m.rows) :
    (((List.range m.rows).map m.rowEntries).toArray).getD i [] = m.rowEntries i := by
  simp [Array.getD, hi]

/-- All entries lie inside the matrix. -/
def Within (m : SparseMatrix α) : Prop := ∀ e ∈ m.places, e.1 < m.rows ∧ e.2 < m.columns

lemma Within.transpose (hm : m.Within) : m.transpose.Within := by
  intro e he
  obtain ⟨e', he', rfl⟩ := List.mem_map.mp he
  exact (hm e' he').symm

lemma Within.column_lt (hm : m.Within) {i : ℕ} {e : ℕ × ℕ} (h : e ∈ m.rowEntries i) :
    e.1 < m.columns := (hm _ (mem_rowEntries h).1).2

variable [Scalar α]

/-- The product of each point by itself, in a common kind. -/
def productIn (kind : Kind) (m : SparseMatrix α) (x : NdArray α) : NdArray α :=
  let table : Array (List (ℕ × ℕ)) := ((List.range m.rows).map m.rowEntries).toArray
  let out : NdArray α := match kind with
    | .real p =>
      x.mapTail 1 [m.rows] p fun row i =>
        roundedSum p ((table.getD i []).map fun e =>
          Scalar.narrow p (m.values.realAt e.2 * row e.1))
    | .whole w =>
      x.mapTailWhole 1 [m.rows] w fun row i =>
        let terms := (table.getD i []).map fun e => m.values.wholeAt e.2 * row e.1
        if w = .bool then (if terms.any (· ≠ 0) then 1 else 0)
        else w.wrap (terms.foldl (· + ·) 0)
  out.onBackend .memory

/--
The product with the points as columns, made points again: element `i` of point `r` is what row `i`
of the matrix makes of point `r`.
-/
lemma columns_eq (hm : m.Within) {x points : NdArray α} {lead : Shape}
    (hx : x.shape = lead ++ [m.columns]) (hshape : points.shape = [lead.size, m.columns])
    (hcells : points.cells = x.cells) (kind : Kind) :
    (m.dotIn kind points.transpose).transpose.reshape (x.shape.dropLast ++ [m.rows])
      = .ok (productIn kind m x) := by
  have hcols : points.transpose.columns = lead.size := by
    rw [NdArray.columns, transpose_shape hshape]
    rfl
  have hsize : Shape.size [lead.size, m.rows] = Shape.size (lead ++ [m.rows]) := by
    rw [Shape.size_stack]
    simp [Shape.size]
  -- what row `i` meets in column `r` is what it meets in point `r`
  have hreal {i r : ℕ} (hr : r < lead.size) {e : ℕ × ℕ} (he : e ∈ m.rowEntries i) :
      points.transpose.realAt (e.1 * lead.size + r) = x.realAt (r * m.columns + e.1) := by
    rw [realAt_transpose hshape hr (hm.column_lt he)]
    simp only [NdArray.realAt, hcells]
  have hwhole {i r : ℕ} (hr : r < lead.size) {e : ℕ × ℕ} (he : e ∈ m.rowEntries i) :
      points.transpose.wholeAt (e.1 * lead.size + r) = x.wholeAt (r * m.columns + e.1) := by
    rw [wholeAt_transpose hshape hr (hm.column_lt he)]
    simp only [NdArray.wholeAt, hcells]
  rw [hx, List.dropLast_concat]
  cases kind with
  | real p =>
    simp only [dotIn, hcols, transpose_tabulate, reshape_tabulate _ _ hsize, productIn, mapTail, hx,
      Shape.replaceTail_stack, Shape.tail_stack, Shape.size_singleton, onBackend_tabulate]
    refine congrArg Except.ok (tabulate_congr fun k hk => ?_)
    obtain ⟨r, i, hr, hi, rfl⟩ := Shape.exists_place _ hk
    rw [Shape.place_mod hi, Shape.place_div hi, Shape.place_mod hr, Shape.place_div hr,
      m.rowEntries_of_table hi]
    refine congrArg _ (List.map_congr_left fun e he => ?_)
    rw [hreal hr he]
    rfl
  | whole w =>
    simp only [dotIn, hcols, transpose_tabulateWhole, reshape_tabulateWhole _ _ hsize, productIn,
      mapTailWhole, hx, Shape.replaceTail_stack, Shape.tail_stack, Shape.size_singleton,
      onBackend_tabulateWhole]
    refine congrArg Except.ok (tabulateWhole_congr fun k hk => ?_)
    obtain ⟨r, i, hr, hi, rfl⟩ := Shape.exists_place _ hk
    simp only [Shape.place_mod hi, Shape.place_div hi, Shape.place_mod hr, Shape.place_div hr,
      m.rowEntries_of_table hi]
    rw [List.map_congr_left fun e he => by rw [hwhole hr he]]

/-- **Every point comes back to where it stood**, multiplied by the matrix. -/
theorem product_eq (hm : m.Within) (x : NdArray α) :
    m.product x = match x.shape.getLast? with
      | none => .error .indexOutOfRange
      | some n =>
        if n = 0 || n ≠ m.columns then .error .shapeMismatch
        else .ok (productIn (m.values.kind.join x.kind) m x) := by
  rw [product]
  cases hlast : x.shape.getLast? with
  | none => rfl
  | some n =>
    obtain ⟨lead, hx⟩ : ∃ lead : Shape, x.shape = lead ++ [n] :=
      List.getLast?_eq_some_iff.mp hlast
    rcases Nat.eq_zero_or_pos n with rfl | hn
    · rfl
    obtain ⟨points, hpoints, hshape, hcells, -⟩ := exists_points hx hn
    have hrows : points.transpose.rows = n := by
      rw [NdArray.rows, transpose_shape hshape]
      rfl
    simp only [hn.ne', hpoints, bind, Except.bind, dot, hrows, if_false, decide_false,
      Bool.false_or, decide_eq_true_eq]
    split_ifs with hcols
    · rfl
    obtain rfl : n = m.columns := not_not.mp hcols
    have hkind : points.transpose.kind = x.kind := by
      rw [transpose_kind, NdArray.kind, NdArray.kind, hcells]
    simp only [hkind]
    exact columns_eq hm hx hshape hcells _

/-- A product consists of the elements of the product with the points as columns. -/
lemma product_cells {x y : NdArray α} (h : m.product x = .ok y) :
    ∃ points : NdArray α, points.cells = x.cells ∧
      y.cells = (m.dotIn (m.values.kind.join x.kind) points.transpose).transpose.cells := by
  rw [product] at h
  split at h
  · cases h
  · split_ifs at h
    obtain ⟨points, hpoints, h⟩ := ok_of_bind h
    obtain ⟨images, himages, h⟩ := ok_of_bind h
    have hkind : points.transpose.kind = x.kind := by
      rw [transpose_kind, NdArray.kind, NdArray.kind, reshape_cells hpoints]
    rw [dot, hkind] at himages
    split_ifs at himages
    cases himages
    exact ⟨points, reshape_cells hpoints, reshape_cells h⟩

end SparseMatrix

end PrimalDual
