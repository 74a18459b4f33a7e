import PrimalDual.Proofs.Operator.Stretch
import PrimalDual.Proofs.Splitting.Admission

/-!
# The bounds that operators declare

The step sizes are derived from a number `ν`, and the iteration converges for every operator whose
squared norm is at most `ν`.  Callers take the square of the bound that the operator declares, so the
bound had better be one.

Four kinds of operators know their bound by themselves: the identity and the multiplication by a
constant, the differences of neighbours, and sparse matrices with a single row or column.  The others
are given a bound by the caller or look for their largest singular value.

* `LinearOperator.Declares` — the bound of the operator is one, and the steps found with it converge.
* `Declares.of_stretches` — it is enough that no point is stretched farther.
* **`LinearOperator.declared_bounds_hold`** — the four kinds of operators.
-/

namespace PrimalDual

open Exact Matrix NdArray

namespace LinearOperator

variable {K : LinearOperator Exact} {m n : ℕ} {L : ℝ}

/--
The operator declares the bound `L`, and no image is more than `L` times as long as its point.  So
the squared norm of the operator is at most `L²`, and the steps that are found with `L²` in its place
meet the condition of convergence for the operator.
-/
structure Declares (K : LinearOperator Exact) (m n : ℕ) (L : ℝ) : Prop where
  bound_eq : K.bound = finite L
  stretches : StretchesAtMost K.apply n m L
  norm_sq_le : operatorNorm K.apply n m ^ 2 ≤ L ^ 2
  steps_converge : ∀ {β : ℝ} {beta nu : Number Exact} {tau sigma : Value Exact} {τ₀ σ₀ : Option ℝ},
    beta.Is β → 0 ≤ β → nu.Is (L ^ 2) → 0 < L → tau.Pins τ₀ → sigma.Pins σ₀ →
    Completable β τ₀ σ₀ → tau = .null ∨ sigma = .null →
    Yields (stepSizes (.number beta) (.number nu) tau sigma) fun steps =>
      ∃ τ σ, steps.1.Is τ ∧ steps.2.Is σ ∧ Converges β τ σ (operatorNorm K.apply n m)

lemma Declares.of_stretches (hbound : K.bound = finite L) (hL : 0 ≤ L)
    (h : StretchesAtMost K.apply n m L) : K.Declares m n L := by
  have hnorm : operatorNorm K.apply n m ^ 2 ≤ L ^ 2 :=
    pow_le_pow_left₀ (operatorNorm_nonneg _ n m) (operatorNorm_le hL h) 2
  refine ⟨hbound, h, hnorm, ?_⟩
  intro β beta nu tau sigma τ₀ σ₀ hβ hβ0 hν hL0 hτ hσ hcompletable hfree
  have hcompletes := stepSizes_completes hβ hβ0 hν (pow_pos hL0 2) hτ hσ hcompletable
  refine hcompletes.mono fun steps hsteps => ?_
  obtain ⟨τ, σ, htau, hsigma, hbalance, -⟩ := hsteps.balanced hfree
  exact ⟨τ, σ, htau, hsigma, hbalance.converges hnorm⟩

/--
**The bounds that operators declare are valid**, in exact arithmetic and for all sizes:

* the identity and the multiplication by a constant stretch every point exactly by their bound;
* the differences of neighbours exist for all points of two elements or more; their bound is two, no
  point but the origin is stretched that far, and their adjoint stretches no point farther;
* the operator of a sparse matrix with a single row or column takes the Frobenius norm of the matrix,
  which is the least bound that there is.  The sums of entries at one place are taken to be exact, as
  they are unless whole numbers leave their kind.

In each case the square of the bound serves the step sizes: `LinearOperator.Declares`.
-/
theorem declared_bounds_hold :
    (∀ (n : ℕ) {K : LinearOperator Exact} {dim : Value Exact},
      LinearOperator.identity dim = .ok K →
        ∃ L, K.Declares n n L ∧ StretchesBy K.apply n n L) ∧
    (∀ (n : ℕ) {K : LinearOperator Exact} {factor dim : Value Exact} {γ : ℝ},
      factor.toReal = .ok (finite γ) → LinearOperator.homothety factor dim = .ok K →
        ∃ L, K.Declares n n L ∧ StretchesBy K.apply n n L) ∧
    (∀ {m : ℕ} {dim : Value Exact}, 0 < m → dim.toWhole = .ok (m + 1 : ℕ) →
      ∃ K, LinearOperator.difference dim = .ok K ∧ K.Declares m (m + 1) 2 ∧
        StretchesBelow K.apply (m + 1) m 2 ∧ StretchesAtMost K.adjoint m (m + 1) 2) ∧
    ∀ {m n : ℕ} {s : SparseMatrix Exact}, s.Fits m n → s.SumsExactly → min m n = 1 →
      ∃ K L, LinearOperator.sparse s .null = .ok K ∧ frobeniusNorm s.toDense = finite L ∧
        K.Declares m n L ∧ IsLeast {L' | StretchesAtMost K.apply n m L'} L := by
  refine ⟨?_, ?_, ?_, ?_⟩
  · intro n K dim h
    have hby := identity_stretchesBy n h
    exact ⟨1, .of_stretches (identity_ok h).2 zero_le_one hby.atMost, hby⟩
  · intro n K factor dim γ hfactor h
    have hby := homothety_stretchesBy n hfactor h
    exact ⟨|γ|, .of_stretches (homothety_ok hfactor h).2 (abs_nonneg γ) hby.atMost, hby⟩
  · intro m dim hm hdim
    obtain ⟨K, hK⟩ := exists_difference hm hdim
    obtain ⟨happly, hadjoint⟩ := difference_stretchesAtMost hdim hK
    have hbelow := difference_stretchesBelow hdim hK
    exact ⟨K, hK, .of_stretches (difference_ok hdim hK).2.1 two_pos.le happly, hbelow, hadjoint⟩
  · intro m n s hs hsums hmin
    obtain ⟨K, hK, hbound⟩ := exists_line hs hsums hmin
    have hleast := line_isLeast hs hmin hK
    have hdeclares := Declares.of_stretches hbound (frobeniusLength_nonneg _) hleast.1
    exact ⟨K, _, hK, frobeniusNorm_toDense hs hsums, hdeclares, hleast⟩

/-- A single row with the entries three and four. -/
noncomputable def threeAndFour : SparseMatrix Exact :=
  ⟨1, 2, [(0, 0), (0, 1)], .tabulate .memory [2] .double fun k => finite (k + 3)⟩

lemma threeAndFour_value {k : ℕ} (hk : k < 2) :
    threeAndFour.values.realAt k = finite (k + 3) :=
  realAt_tabulate .memory [2] .double (fun k => finite (k + 3)) k (by simpa [Shape.size] using hk)

lemma threeAndFour_fits : threeAndFour.Fits 1 2 := by
  refine ⟨rfl, rfl, fun e he => ?_, fun k hk => ⟨_, threeAndFour_value hk⟩⟩
  fin_cases he <;> decide

lemma threeAndFour_norm : frobeniusNorm threeAndFour.toDense = finite 5 := by
  have hthree : threeAndFour.realAt 0 0 = finite 3 := by
    show Scalar.sum [threeAndFour.values.realAt 0] = _
    simp [Scalar.sum, threeAndFour_value]
  have hfour : threeAndFour.realAt 0 1 = finite 4 := by
    show Scalar.sum [threeAndFour.values.realAt 1] = _
    simp [Scalar.sum, threeAndFour_value]
    norm_num
  have hsquare : (3 : ℝ) * 3 + 4 * 4 = 5 ^ 2 := by norm_num
  rw [frobeniusNorm_toDense threeAndFour_fits trivial]
  simp only [frobeniusLength, dotProduct, LinearRule.matrix, LinearRule.entry, Matrix.of_apply,
    Fin.sum_univ_one, Fin.sum_univ_two, Fin.val_zero, Fin.val_one, hthree, hfour, toReal_finite,
    hsquare, Real.sqrt_sq (by norm_num : (0 : ℝ) ≤ 5)]

/-- The multiplication by minus two, on points of any size. -/
noncomputable def minusTwice : LinearOperator Exact :=
  ⟨.homothety (finite (-2)), none, none, finite 2⟩

lemma minusTwice_ok :
    LinearOperator.homothety (.number (.real (finite (-2)))) .null = .ok minusTwice := by
  have hbound : readBound (.number (.real (Scalar.abs (finite (-2))))) = .ok (finite 2) := by
    rw [abs_finite, abs_neg, abs_two]
    exact readBound_number (Number.is_real 2) two_pos.le
  show (do let b ← readBound _; pure ⟨.homothety (finite (-2)), none, none, b⟩ :
    Except Fault (LinearOperator Exact)) = _
  rw [hbound]
  rfl

/-- The identity, the multiplication by minus two, the differences of points of three elements, and
the row of length five. -/
theorem sample_bounds_hold :
    (anyIdentity.Declares 3 3 1 ∧ StretchesBy anyIdentity.apply 3 3 1) ∧
    (minusTwice.Declares 3 3 2 ∧ StretchesBy minusTwice.apply 3 3 2) ∧
    (∃ K, LinearOperator.difference (.number (.int 3)) = .ok K ∧ K.Declares 2 3 2 ∧
      StretchesBelow K.apply 3 2 2 ∧ StretchesAtMost K.adjoint 2 3 2) ∧
    ∃ K, LinearOperator.sparse threeAndFour .null = .ok K ∧ K.Declares 1 2 5 ∧
      IsLeast {L | StretchesAtMost K.apply 2 1 L} 5 := by
  obtain ⟨hidentity, hhomothety, hdifference, hline⟩ := declared_bounds_hold
  have hany : LinearOperator.identity (.null : Value Exact) = .ok anyIdentity := rfl
  have hthree : (Value.number (.int 3) : Value Exact).toWhole = .ok (2 + 1 : ℕ) := rfl
  have hfactor : (Value.number (.real (finite (-2))) : Value Exact).toReal = .ok (finite (-2)) := rfl
  refine ⟨?_, ?_, hdifference two_pos hthree, ?_⟩
  · obtain ⟨L, hdeclares, hby⟩ := hidentity 3 hany
    obtain rfl : L = 1 := finite.inj (hdeclares.bound_eq.symm.trans one_eq)
    exact ⟨hdeclares, hby⟩
  · obtain ⟨L, hdeclares, hby⟩ := hhomothety 3 hfactor minusTwice_ok
    obtain rfl : L = 2 := finite.inj hdeclares.bound_eq.symm
    exact ⟨hdeclares, hby⟩
  · obtain ⟨K, L, hK, hnorm, hdeclares, hleast⟩ := hline threeAndFour_fits trivial rfl
    rw [threeAndFour_norm] at hnorm
    obtain rfl := finite.inj hnorm
    exact ⟨K, hK, hdeclares, hleast⟩

end LinearOperator

end PrimalDual
