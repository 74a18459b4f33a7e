import PrimalDual.Proofs.Convex.Problem
import PrimalDual.Proofs.Operator.Storage

/-!
# How far operators stretch points

The norm of an operator is the least factor by which it stretches points at most.  This file compares
the lengths of points with those of their images, for the operators that know a bound of their norm
without having to look for singular values.

**Lengths.**  A map on stacks that multiplies every point by a matrix stretches points as the matrix
does: `Multiplies.relates_iff`.  So all that follows is about matrices.

**Differences.**  The squares of the differences and of the sums of neighbours add up to four times
the squared length, less what the two ends lack: `differences_add_sums`.  The sums and the ends all
vanish at the origin only, so no other point is stretched by two: `differences_lt`.

**Frobenius norms.**  The Frobenius norm bounds every matrix, row by row, and a matrix with a single
row or column stretches some point as far: `exists_stretched`.

* `StretchesAtMost`, `StretchesBy`, `StretchesBelow` — how long the images of points are.
* `operatorNorm` — the least factor by which a map stretches points at most.
* `frobeniusNorm_eq` — the norm that is computed is the Frobenius norm.
* **`identity_stretchesBy`**, **`homothety_stretchesBy`** — multiples of the identity.
* **`difference_stretchesBelow`**, `difference_stretchesAtMost` — differences and their adjoint.
* **`line_isLeast`** — sparse matrices with a single row or column.
-/

namespace PrimalDual

open Exact Matrix NdArray

variable {m n : ℕ} {L : ℝ} {F : Value Exact → Except Fault (Value Exact)}
  {M : Matrix (Fin m) (Fin n) ℝ}

/-! ## Lengths of points and images -/

/-- The map makes a stack of points of size `m` of every stack of points of size `n`, and every point
is related to its image. -/
def Relates (F : Value Exact → Except Fault (Value Exact))
    (P : (Fin n → ℝ) → (Fin m → ℝ) → Prop) : Prop :=
  ∀ ⦃b lead r v⦄ ⦃x : NdArray Exact⦄, x.Holds b lead n r v →
    ∃ c y w, F (.array x) = .ok (.array y) ∧ y.Holds c lead m r w ∧ P v w

lemma Relates.mono {P Q : (Fin n → ℝ) → (Fin m → ℝ) → Prop} (h : Relates F P)
    (hPQ : ∀ v w, P v w → Q v w) : Relates F Q := by
  intro b lead r v x hx
  obtain ⟨c, y, w, hy, hw, hP⟩ := h hx
  exact ⟨c, y, w, hy, hw, hPQ v w hP⟩

/-- Images of points of size `n` are at most `L` times as long as the points. -/
def StretchesAtMost (F : Value Exact → Except Fault (Value Exact)) (n m : ℕ) (L : ℝ) : Prop :=
  Relates F fun (v : Fin n → ℝ) (w : Fin m → ℝ) => √(w ⬝ᵥ w) ≤ L * √(v ⬝ᵥ v)

/-- Images of points of size `n` are `L` times as long as the points. -/
def StretchesBy (F : Value Exact → Except Fault (Value Exact)) (n m : ℕ) (L : ℝ) : Prop :=
  Relates F fun (v : Fin n → ℝ) (w : Fin m → ℝ) => √(w ⬝ᵥ w) = L * √(v ⬝ᵥ v)

/-- Images of points of size `n` other than the origin are less than `L` times as long as the
points. -/
def StretchesBelow (F : Value Exact → Except Fault (Value Exact)) (n m : ℕ) (L : ℝ) : Prop :=
  Relates F fun (v : Fin n → ℝ) (w : Fin m → ℝ) => v ≠ 0 → √(w ⬝ᵥ w) < L * √(v ⬝ᵥ v)

lemma StretchesBy.atMost (h : StretchesBy F n m L) : StretchesAtMost F n m L :=
  h.mono fun _ _ => le_of_eq

/-- The norm of the map: the least factor by which it stretches points at most. -/
noncomputable def operatorNorm (F : Value Exact → Except Fault (Value Exact)) (n m : ℕ) : ℝ :=
  sInf {L | 0 ≤ L ∧ StretchesAtMost F n m L}

lemma operatorNorm_nonneg (F : Value Exact → Except Fault (Value Exact)) (n m : ℕ) :
    0 ≤ operatorNorm F n m :=
  Real.sInf_nonneg fun _ h => h.1

lemma operatorNorm_le (hL : 0 ≤ L) (h : StretchesAtMost F n m L) : operatorNorm F n m ≤ L :=
  csInf_le ⟨0, fun _ h => h.1⟩ ⟨hL, h⟩

/-- A stack that consists of one point. -/
noncomputable def lonePoint (v : Fin n → ℝ) : NdArray Exact :=
  .tabulate .memory [n] .double fun k => if h : k < n then finite (v ⟨k, h⟩) else finite 0

lemma lonePoint_holds (v : Fin n → ℝ) : (lonePoint v).Holds .memory [] n 0 v where
  lt := Nat.one_pos
  backend_eq := rfl
  shape_eq := rfl
  real := rfl
  row j := by
    rw [lonePoint, Nat.zero_mul, Nat.zero_add, realAt_tabulate _ _ _ _ _ (by simp), dif_pos j.isLt]

/-- Products with a matrix relate points and images as the matrix does. -/
lemma Multiplies.relates_iff (hF : Multiplies F M) {P : (Fin n → ℝ) → (Fin m → ℝ) → Prop} :
    Relates F P ↔ ∀ v, P v (M *ᵥ v) := by
  constructor
  · intro h v
    obtain ⟨c, y, w, hy, hw, hP⟩ := h (lonePoint_holds v)
    obtain ⟨c', y', hy', hw'⟩ := hF (lonePoint_holds v)
    rw [hy] at hy'
    cases hy'
    rwa [hw'.eq hw]
  · intro h b lead r v x hx
    obtain ⟨c, y, hy, hw⟩ := hF hx
    exact ⟨c, y, _, hy, hw, h v⟩

/-! ## Lengths under matrices -/

lemma mul_length (hL : 0 ≤ L) (v : Fin n → ℝ) : L * √(v ⬝ᵥ v) = √(L ^ 2 * (v ⬝ᵥ v)) := by
  rw [Real.sqrt_mul (sq_nonneg L), Real.sqrt_sq hL]

lemma Multiplies.stretchesAtMost_iff (hF : Multiplies F M) (hL : 0 ≤ L) :
    StretchesAtMost F n m L ↔ ∀ v, (M *ᵥ v) ⬝ᵥ (M *ᵥ v) ≤ L ^ 2 * (v ⬝ᵥ v) := by
  rw [StretchesAtMost, hF.relates_iff]
  refine forall_congr' fun v => ?_
  have hnonneg := mul_nonneg (sq_nonneg L) (Functional.dotProduct_self_nonneg v)
  rw [mul_length hL, Real.sqrt_le_sqrt_iff hnonneg]

/-! ## Differences of neighbours -/

/-- The differences and the sums of neighbours meet every element twice, the ends aside. -/
lemma differences_add_sums (v : Fin (m + 1) → ℝ) :
    ∑ i : Fin m, (v i.succ - v i.castSucc) ^ 2
        + (2 * v 0 ^ 2 + 2 * v (Fin.last m) ^ 2 + ∑ i : Fin m, (v i.succ + v i.castSucc) ^ 2)
      = 4 * (v ⬝ᵥ v) := by
  have hfirst : v ⬝ᵥ v = v 0 ^ 2 + ∑ i : Fin m, v i.succ ^ 2 := by
    simp only [dotProduct, ← sq, Fin.sum_univ_succ]
  have hlast : v ⬝ᵥ v = ∑ i : Fin m, v i.castSucc ^ 2 + v (Fin.last m) ^ 2 := by
    simp only [dotProduct, ← sq, Fin.sum_univ_castSucc]
  have hboth : ∑ i : Fin m, (v i.succ - v i.castSucc) ^ 2
        + ∑ i : Fin m, (v i.succ + v i.castSucc) ^ 2
      = 2 * ∑ i : Fin m, v i.succ ^ 2 + 2 * ∑ i : Fin m, v i.castSucc ^ 2 := by
    rw [← Finset.sum_add_distrib, Finset.mul_sum, Finset.mul_sum, ← Finset.sum_add_distrib]
    exact Finset.sum_congr rfl fun i _ => by ring
  linarith

/-- A point that begins with zero and whose neighbours cancel is the origin. -/
lemma eq_zero_of_neighbours {v : Fin (m + 1) → ℝ} (hfirst : v 0 = 0)
    (hsums : ∀ i : Fin m, v i.succ + v i.castSucc = 0) : v = 0 := by
  funext j
  induction j using Fin.induction with
  | zero => exact hfirst
  | succ i ih =>
    have hi := hsums i
    rwa [ih, Pi.zero_apply, add_zero] at hi

/-- **Differences double no length** but that of the origin. -/
lemma differences_lt {v : Fin (m + 1) → ℝ} (hv : v ≠ 0) :
    ∑ i : Fin m, (v i.succ - v i.castSucc) ^ 2 < 4 * (v ⬝ᵥ v) := by
  rw [← differences_add_sums v, lt_add_iff_pos_right]
  by_contra hnot
  have hfirst₀ := sq_nonneg (v 0)
  have hlast₀ := sq_nonneg (v (Fin.last m))
  have hsums : 0 ≤ ∑ i : Fin m, (v i.succ + v i.castSucc) ^ 2 :=
    Finset.sum_nonneg fun i _ => sq_nonneg _
  -- nothing is left at the ends and of the sums, so neighbours cancel from the first element on
  have hfirst : v 0 ^ 2 = 0 := by linarith
  have hzero : ∑ i : Fin m, (v i.succ + v i.castSucc) ^ 2 = 0 := by linarith
  rw [Finset.sum_eq_zero_iff_of_nonneg fun i _ => sq_nonneg _] at hzero
  refine hv (eq_zero_of_neighbours (pow_eq_zero_iff two_ne_zero |>.mp hfirst) fun i => ?_)
  exact pow_eq_zero_iff two_ne_zero |>.mp (hzero i (Finset.mem_univ i))

/-! ## Frobenius norms -/

/-- The Frobenius norm: the length of the matrix as a point of all its entries. -/
noncomputable def frobeniusLength (M : Matrix (Fin m) (Fin n) ℝ) : ℝ := √(∑ i, M i ⬝ᵥ M i)

lemma frobeniusLength_nonneg (M : Matrix (Fin m) (Fin n) ℝ) : 0 ≤ frobeniusLength M :=
  Real.sqrt_nonneg _

lemma frobeniusLength_sq (M : Matrix (Fin m) (Fin n) ℝ) :
    frobeniusLength M ^ 2 = ∑ i, M i ⬝ᵥ M i :=
  Real.sq_sqrt (Finset.sum_nonneg fun i _ => Functional.dotProduct_self_nonneg (M i))

/-- The Frobenius norm bounds every matrix. -/
lemma stretch_le_frobeniusLength (M : Matrix (Fin m) (Fin n) ℝ) (v : Fin n → ℝ) :
    (M *ᵥ v) ⬝ᵥ (M *ᵥ v) ≤ frobeniusLength M ^ 2 * (v ⬝ᵥ v) := by
  rw [frobeniusLength_sq, Finset.sum_mul]
  refine Finset.sum_le_sum fun i _ => ?_
  rw [← sq]
  exact Functional.dotProduct_sq_le (M i) v

/-- A matrix with a single row or column stretches some point by its Frobenius norm.  A column
stretches all points alike; a row stretches itself most, unless it is the origin. -/
lemma exists_stretched (M : Matrix (Fin m) (Fin n) ℝ) (hmin : min m n = 1) :
    ∃ v, v ≠ 0 ∧ (M *ᵥ v) ⬝ᵥ (M *ᵥ v) = frobeniusLength M ^ 2 * (v ⬝ᵥ v) := by
  rw [frobeniusLength_sq]
  have hones : (1 : Fin n → ℝ) ≠ 0 := by
    intro h
    have hn : 0 < n := by omega
    exact one_ne_zero (congrFun h ⟨0, hn⟩)
  rcases (by omega : n = 1 ∨ m = 1) with rfl | rfl
  · refine ⟨1, hones, ?_⟩
    simp [dotProduct, mulVec]
  · by_cases hrow : M 0 = 0
    · refine ⟨1, hones, ?_⟩
      simp [dotProduct, mulVec, hrow]
    · refine ⟨M 0, hrow, ?_⟩
      simp only [dotProduct, mulVec, Fin.sum_univ_one]

/-- The sum over all places of a matrix goes row by row. -/
lemma sum_places (M : Matrix (Fin m) (Fin n) ℝ) :
    ∑ k : Fin (m * n), M k.divNat k.modNat * M k.divNat k.modNat = ∑ i, M i ⬝ᵥ M i := by
  have hpairs := finProdFinEquiv.symm.sum_comp fun e : Fin m × Fin n => M e.1 e.2 * M e.1 e.2
  exact hpairs.trans (Fintype.sum_prod_type _)

/-- The norm that is computed is the Frobenius norm. -/
lemma frobeniusNorm_eq {a : NdArray Exact} (ha : a.shape = [m, n])
    (hM : ∀ (i : Fin m) (j : Fin n), a.realAt (i * n + j) = finite (M i j)) :
    frobeniusNorm a = finite (frobeniusLength M) := by
  have hsize : a.size = m * n := by simp [NdArray.size, ha, Shape.size]
  have hplace (k : Fin (m * n)) : a.realAt k = finite (M k.divNat k.modNat) := by
    rw [← hM, Fin.coe_divNat, Fin.coe_modNat, Nat.div_add_mod']
  have htotal : total (m * n) (fun k => a.realAt k * a.realAt k) = finite (∑ i, M i ⬝ᵥ M i) := by
    rw [← sum_places]
    exact total_of_reads fun k => by rw [hplace, finite_mul]
  have hnonneg : 0 ≤ ∑ i, M i ⬝ᵥ M i :=
    Finset.sum_nonneg fun i _ => Functional.dotProduct_self_nonneg (M i)
  rw [frobeniusNorm, roundedSum_eq, narrow_eq, frobeniusLength, ← sqrt_finite hnonneg, ← htotal,
    total, toScalars, hsize, List.map_map]
  rfl

/-! ## Operators -/

/-- A multiple of the identity stretches all points by the magnitude of its factor. -/
lemma Multiplies.stretchesBy_smul {γ : ℝ} (hF : Multiplies F (γ • (1 : Matrix (Fin n) (Fin n) ℝ))) :
    StretchesBy F n n |γ| := by
  rw [StretchesBy, hF.relates_iff]
  intro v
  rw [smul_mulVec, one_mulVec, mul_length (abs_nonneg γ), sq_abs, smul_dotProduct, dotProduct_smul,
    smul_eq_mul, smul_eq_mul, ← mul_assoc, ← sq]

namespace LinearOperator

variable {K : LinearOperator Exact} {dim : Value Exact}

theorem identity_stretchesBy (n : ℕ) (h : LinearOperator.identity dim = .ok K) :
    StretchesBy K.apply n n 1 := by
  have happly := apply_multiplies (BuiltIn.identity n h).acts
  rw [(identity_ok h).1, LinearRule.matrix_identity, ← one_smul ℝ (1 : Matrix (Fin n) (Fin n) ℝ)]
    at happly
  have hby := happly.stretchesBy_smul
  rwa [abs_one] at hby

theorem homothety_stretchesBy (n : ℕ) {factor : Value Exact} {γ : ℝ}
    (hfactor : factor.toReal = .ok (finite γ)) (h : LinearOperator.homothety factor dim = .ok K) :
    StretchesBy K.apply n n |γ| := by
  have happly := apply_multiplies (BuiltIn.homothety n hfactor h).acts
  rw [(homothety_ok hfactor h).1, LinearRule.matrix_homothety] at happly
  exact happly.stretchesBy_smul

/-! ### Differences -/

lemma exists_difference (hm : 0 < m) (hdim : dim.toWhole = .ok (m + 1 : ℕ)) :
    ∃ K, LinearOperator.difference dim = .ok K := by
  have htwo : (2 : ℤ) ≤ (m + 1 : ℕ) := by omega
  simp only [LinearOperator.difference, hdim, if_pos htwo]
  exact ⟨_, rfl⟩

/-- The squared length of the differences. -/
lemma difference_stretch (v : Fin (m + 1) → ℝ) :
    ((LinearRule.difference : LinearRule Exact).matrix m (m + 1) *ᵥ v) ⬝ᵥ
        ((LinearRule.difference : LinearRule Exact).matrix m (m + 1) *ᵥ v)
      = ∑ i : Fin m, (v i.succ - v i.castSucc) ^ 2 := by
  rw [LinearRule.difference_mulVec]
  simp only [dotProduct, sq]

/-- **No point but the origin is stretched by two.** -/
theorem difference_stretchesBelow (hdim : dim.toWhole = .ok (m + 1 : ℕ))
    (h : LinearOperator.difference dim = .ok K) : StretchesBelow K.apply (m + 1) m 2 := by
  have happly := apply_multiplies (BuiltIn.difference hdim h).acts
  rw [StretchesBelow, happly.relates_iff, (difference_ok hdim h).1]
  intro v hv
  rw [difference_stretch, mul_length two_pos.le]
  refine Real.sqrt_lt_sqrt (Finset.sum_nonneg fun i _ => sq_nonneg _) ?_
  linarith [differences_lt hv]

/-- The adjoint of the differences stretches no point farther than they do. -/
lemma difference_stretchesAtMost (hdim : dim.toWhole = .ok (m + 1 : ℕ))
    (h : LinearOperator.difference dim = .ok K) :
    StretchesAtMost K.apply (m + 1) m 2 ∧ StretchesAtMost K.adjoint m (m + 1) 2 := by
  have hacts := (BuiltIn.difference hdim h).acts
  have hle (v : Fin (m + 1) → ℝ) :
      (K.rule.matrix m (m + 1) *ᵥ v) ⬝ᵥ (K.rule.matrix m (m + 1) *ᵥ v) ≤ 2 ^ 2 * (v ⬝ᵥ v) := by
    by_cases hv : v = 0
    · simp [hv]
    · rw [(difference_ok hdim h).1, difference_stretch]
      linarith [differences_lt hv]
  rw [(apply_multiplies hacts).stretchesAtMost_iff two_pos.le,
    (adjoint_multiplies hacts).stretchesAtMost_iff two_pos.le]
  exact ⟨hle, transpose_stretch_le (sq_nonneg 2) hle⟩

/-! ### Sparse matrices with a single row or column -/

variable {s : SparseMatrix Exact}

lemma frobeniusNorm_toDense (hs : s.Fits m n) (hsums : s.SumsExactly) :
    frobeniusNorm s.toDense = finite (frobeniusLength ((LinearRule.sparse s).matrix m n)) := by
  refine frobeniusNorm_eq ?_ fun i j => ?_
  · rw [s.toDense_shape, hs.1, hs.2.1]
  · have hi : i < s.rows := hs.1.symm ▸ i.isLt
    have hj : j < s.columns := hs.2.1.symm ▸ j.isLt
    rw [← LinearRule.realAt_sparse hs, ← SparseMatrix.toDense_realAt hsums hi hj, hs.2.1]

/-- Without a given bound the operator of a single row or column takes the Frobenius norm. -/
lemma exists_line (hs : s.Fits m n) (hsums : s.SumsExactly) (hmin : min m n = 1) :
    ∃ K, LinearOperator.sparse s .null = .ok K ∧
      K.bound = finite (frobeniusLength ((LinearRule.sparse s).matrix m n)) := by
  have hleast : min s.rows s.columns = 1 := by rw [hs.1, hs.2.1, hmin]
  have hbound : explicitBound .null (frobeniusNorm s.toDense)
      = .ok (finite (frobeniusLength ((LinearRule.sparse s).matrix m n))) := by
    rw [frobeniusNorm_toDense hs hsums]
    exact readBound_number (Number.is_real _) (frobeniusLength_nonneg _)
  simp only [LinearOperator.sparse, hleast, if_true, hbound]
  exact ⟨_, rfl, rfl⟩

/-- **The Frobenius norm of a single row or column is the least bound.** -/
theorem line_isLeast {bound : Value Exact} (hs : s.Fits m n) (hmin : min m n = 1)
    (h : LinearOperator.sparse s bound = .ok K) :
    IsLeast {L | StretchesAtMost K.apply n m L}
      (frobeniusLength ((LinearRule.sparse s).matrix m n)) := by
  have happly := apply_multiplies (BuiltIn.sparse hs (by omega) (by omega) h).acts
  rw [(sparse_ok h).1] at happly
  have hnonneg := frobeniusLength_nonneg ((LinearRule.sparse s).matrix m n)
  constructor
  · exact (happly.stretchesAtMost_iff hnonneg).mpr (stretch_le_frobeniusLength _)
  · intro L hL
    obtain ⟨v, hv, hstretch⟩ := exists_stretched ((LinearRule.sparse s).matrix m n) hmin
    have hle := happly.relates_iff.mp hL v
    rw [hstretch, ← mul_length hnonneg] at hle
    exact le_of_mul_le_mul_right hle (Real.sqrt_pos.mpr (Functional.dotProduct_self_pos hv))

end LinearOperator

end PrimalDual
