import PrimalDual.Proofs.Functional.Smooth
import PrimalDual.Proofs.Operator.Adjoint

/-!
# Value, gradient and curvature belong together

A least-squares functional computes its value, its gradient and its curvature in three different
places, and the iteration believes all three.  They are about one functional: the value at `y` is
the one of the tangent at `x` plus half the squared length of `A (y - x)`, so the functional is
convex, and has the gradient that it says it has.  How far the value can leave the tangent, and how
fast the gradient can change, is bounded by the curvature, as long as the bound of `A` is one.

The bounds of the identity, of multiplications by a constant and of differences are set by their
constructors and are correct.  A matrix may come with a bound of its own, which is taken as it is.

* `LinearOperator.Bounded` — the bound of an operator bounds its norm.
* `BuiltIn.bounded` — the bounds that do not come from the caller.
* `Smooth.Forward.Trusted` — the forward operators that can be relied on.
* `Smooth.Evaluates` — value and gradient at a point.
* **`leastSquares_expands`** — what holds between two points.
* **`sparse_misses_gradient`** — a matrix without columns.
-/

namespace PrimalDual

open Exact Matrix NdArray

variable {lead : Shape} {b c : Backend} {m n r : ℕ}

/-! ## Norms of operators -/

namespace LinearRule

/-- The rule multiplies by a matrix that the caller gave. -/
def IsExplicit {α : Type} : LinearRule α → Prop
  | dense _ | sparse _ => True
  | _ => False

lemma Acts.outputs_eq {R : LinearRule Exact} (h : R.Acts m n) : R.outputs n = m := by
  cases R with
  | identity => exact h.symm
  | homothety c => exact h.1.symm
  | difference =>
    obtain ⟨rfl, -⟩ := h
    rfl
  | dense a => simp [outputs, NdArray.rows, h.1]
  | sparse s => exact h.1.1
  | unspecified => exact h.elim

/-- Both ends of a difference count once, so differences are at most twice as long. -/
lemma difference_mulVec_sq_le (v : Fin (m + 1) → ℝ) :
    ((difference : LinearRule Exact).matrix m (m + 1) *ᵥ v) ⬝ᵥ
      ((difference : LinearRule Exact).matrix m (m + 1) *ᵥ v) ≤ 2 ^ 2 * (v ⬝ᵥ v) := by
  rw [difference_mulVec]
  have hright : ∑ i : Fin m, v i.succ * v i.succ ≤ v ⬝ᵥ v := by
    rw [dotProduct, Fin.sum_univ_succ]
    exact le_add_of_nonneg_left (mul_self_nonneg _)
  have hleft : ∑ i : Fin m, v i.castSucc * v i.castSucc ≤ v ⬝ᵥ v := by
    rw [dotProduct, Fin.sum_univ_castSucc]
    exact le_add_of_nonneg_right (mul_self_nonneg _)
  calc ∑ i : Fin m, (v i.succ - v i.castSucc) * (v i.succ - v i.castSucc)
      ≤ ∑ i : Fin m, (2 * (v i.succ * v i.succ) + 2 * (v i.castSucc * v i.castSucc)) :=
        Finset.sum_le_sum fun i _ => by linarith [mul_self_nonneg (v i.succ + v i.castSucc)]
    _ = 2 * ∑ i : Fin m, v i.succ * v i.succ + 2 * ∑ i : Fin m, v i.castSucc * v i.castSucc := by
        rw [Finset.sum_add_distrib, Finset.mul_sum, Finset.mul_sum]
    _ ≤ 2 ^ 2 * (v ⬝ᵥ v) := by linarith

end LinearRule

namespace LinearOperator

variable {K : LinearOperator Exact}

/-- The bound of the operator, where it is finite, bounds its norm. -/
def Bounded (K : LinearOperator Exact) (m n : ℕ) : Prop :=
  ∀ L, K.bound = finite L → ∀ a : Fin n → ℝ,
    (K.rule.matrix m n *ᵥ a) ⬝ᵥ (K.rule.matrix m n *ᵥ a) ≤ L ^ 2 * (a ⬝ᵥ a)

/-- Only the bounds of matrices are the caller's business. -/
lemma BuiltIn.bounded (hK : K.BuiltIn m n) (hexplicit : K.rule.IsExplicit → K.Bounded m n) :
    K.Bounded m n := by
  cases hK with
  | identity n h =>
    obtain ⟨hrule, hbound⟩ := identity_ok h
    intro L hL a
    obtain rfl : 1 = L := finite.inj (hbound.symm.trans hL)
    rw [hrule, LinearRule.matrix_identity, one_mulVec, one_pow, one_mul]
  | homothety n hfactor h =>
    obtain ⟨hrule, hbound⟩ := homothety_ok hfactor h
    intro L hL a
    obtain rfl := finite.inj (hbound.symm.trans hL)
    rw [hrule, LinearRule.matrix_homothety, smul_mulVec, one_mulVec, smul_dotProduct,
      dotProduct_smul, smul_eq_mul, smul_eq_mul, sq_abs, sq, mul_assoc]
  | difference hdim h =>
    obtain ⟨hrule, hbound, -⟩ := difference_ok hdim h
    intro L hL a
    obtain rfl := finite.inj (hbound.symm.trans hL)
    rw [hrule]
    exact LinearRule.difference_mulVec_sq_le a
  | explicit hshape hfinite h =>
    refine hexplicit ?_
    rw [(explicit_ok h).1]
    trivial
  | sparse hfits hm hn h =>
    refine hexplicit ?_
    rw [(sparse_ok h).1]
    trivial

/-- What passes for a bound is a number that is not negative, or infinity. -/
lemma readBound_cases {given : Value Exact} {L : Exact} (h : readBound given = .ok L) :
    (∃ x, L = finite x) ∨ L = infinite false := by
  cases given with
  | number N =>
    rw [readBound, Value.nonNegative, Value.toReal, Number.toReal_eq] at h
    cases hN : (Number.int 0).atMost N with
    | false =>
      rw [hN] at h
      cases h
    | true =>
      rw [hN] at h
      obtain rfl : N.value = L := Except.ok.inj h
      rw [Number.atMost_eq, Number.is_int 0] at hN
      rcases hvalue : N.value with x | s | _
      · exact Or.inl ⟨x, rfl⟩
      · rw [hvalue] at hN
        cases s with
        | false => exact Or.inr rfl
        | true => cases hN
      · rw [hvalue] at hN
        cases hN
  | _ => cases h

lemma BuiltIn.bound_cases (hK : K.BuiltIn m n) :
    (∃ L, K.bound = finite L) ∨ K.bound = infinite false := by
  cases hK with
  | identity n h => exact Or.inl ⟨1, (identity_ok h).2⟩
  | homothety n hfactor h => exact Or.inl ⟨_, (homothety_ok hfactor h).2⟩
  | difference hdim h => exact Or.inl ⟨2, (difference_ok hdim h).2.1⟩
  | explicit hshape hfinite h =>
    obtain ⟨-, given, hbound⟩ := explicit_ok h
    exact readBound_cases hbound
  | sparse hfits hm hn h =>
    obtain ⟨-, given, hbound⟩ := sparse_ok h
    exact readBound_cases hbound

end LinearOperator

/-! ## The functional at two points -/

namespace Smooth

variable {data : Value Exact} {forward : Forward Exact} {f : Smooth Exact}
  {A : LinearOperator Exact} {x y : NdArray Exact} {u v : Fin n → ℝ}

/-- The forward operator is left out, or it is one of the library and no wrong bound was given for
it. -/
inductive Forward.Trusted : Forward Exact → ℕ → ℕ → Prop
  | absent {n : ℕ} : Trusted .absent n n
  | operator {K : LinearOperator Exact} {m n : ℕ} (hK : K.BuiltIn m n)
      (hexplicit : K.rule.IsExplicit → K.Bounded m n) : Trusted (.operator K) m n

lemma Forward.Trusted.builtIn (h : forward.Trusted m n)
    (hA : forwardOperator data forward = .ok A) : A.BuiltIn m n ∧ A.Bounded m n := by
  cases h with
  | absent =>
    have hidentity : ∃ dim, LinearOperator.identity dim = .ok A := by
      rw [forwardOperator] at hA
      split at hA
      · obtain rfl := Except.ok.inj hA
        exact ⟨.null, rfl⟩
      · obtain ⟨k, -, hA⟩ := ok_of_bind hA
        exact ⟨_, hA⟩
    obtain ⟨dim, hdim⟩ := hidentity
    have hK : A.BuiltIn m m := .identity m hdim
    refine ⟨hK, hK.bounded fun h => ?_⟩
    rw [(LinearOperator.identity_ok hdim).1] at h
    exact h.elim
  | operator hK hexplicit =>
    obtain rfl := Except.ok.inj hA
    exact ⟨hK, hK.bounded hexplicit⟩

/-- At point `r` of the stack, the functional has the value `φ` and the gradient `γ`. -/
structure Evaluates (f : Smooth Exact) (x : NdArray Exact) (lead : Shape) (n r : ℕ) (φ : ℝ)
    (γ : Fin n → ℝ) : Prop where
  value : ∃ y c, f.apply (.array x) = .ok (.array y) ∧ y.Holds c lead 1 r fun _ => φ
  slope : ∃ g c, f.grad (.array x) = .ok (.array g) ∧ g.Holds c lead n r γ

lemma Fits.evaluates (hf : f.Fits lead n r) (hx : x.Holds b lead n r u) :
    f.Evaluates x lead n r ((f.fitting lead n r).loss u) ((f.fitting lead n r).slope u) := by
  obtain ⟨y, hy, c, hvalue⟩ := value_holds hf hx
  obtain ⟨g, hg, hslope⟩ := gradient_holds hf hx
  constructor
  · refine ⟨y, c, ?_, hvalue⟩
    rw [apply, hy]
    rfl
  · refine ⟨g, _, ?_, hslope⟩
    rw [grad, hg]
    rfl

/--
**Value, gradient and curvature belong together.**  Let the forward operator be left out or be one
of the library, whose bound is right if it is that of a matrix, and let the data fit, if there is
any.  At any two points the functional has values and gradients, and the value at the second one
leaves the tangent at the first one by half the squared length of the image of the step.  That is
never negative, and at most half the curvature times the squared length of the step; and the
gradient is cocoercive with the same constant.  Only where the caller gave a bound that is infinite
is the curvature so, too.
-/
theorem leastSquares_expands (hforward : forward.Trusted m n)
    (hf : leastSquares data forward = .ok f) (hdata : DataFits data lead m r)
    (hx : x.Holds b lead n r u) (hy : y.Holds c lead n r v) :
    ∃ A φ φ' γ γ', ∃ w : Fin m → ℝ, forwardOperator data forward = .ok A ∧
      f.Evaluates x lead n r φ γ ∧ f.Evaluates y lead n r φ' γ' ∧
      (∃ d k e, arith .sub (.array y) (.array x) = .ok d ∧ A.apply (.array d) = .ok (.array k) ∧
        k.Holds e lead m r w) ∧
      φ' - φ - γ ⬝ᵥ (v - u) = 1 / 2 * (w ⬝ᵥ w) ∧ 0 ≤ 1 / 2 * (w ⬝ᵥ w) ∧
      ((∃ L, A.bound = finite L ∧ f.curvature = finite (L ^ 2) ∧
          1 / 2 * (w ⬝ᵥ w) ≤ L ^ 2 / 2 * ((v - u) ⬝ᵥ (v - u)) ∧
          (γ - γ') ⬝ᵥ (γ - γ') ≤ L ^ 2 * ((γ - γ') ⬝ᵥ (u - v))) ∨
        A.bound = infinite false ∧ f.curvature = infinite false) := by
  obtain ⟨A, s, hA, hs, rfl⟩ := leastSquares_ok hf
  obtain ⟨hbuilt, hbounded⟩ := hforward.builtIn hA
  obtain rfl := hbuilt.acts.outputs_eq
  set P : Fitting n := ⟨A.rule.outputs n, A.rule.matrix _ n, dataRow data lead _ r⟩ with hP
  have hfits : (⟨.leastSquares A data, A.dim, s.value⟩ : Smooth Exact).Fits lead n r :=
    ⟨hbuilt.acts, hdata⟩
  have himage : ∃ d k e, arith .sub (.array y) (.array x) = .ok d ∧
      A.apply (.array d) = .ok (.array k) ∧ k.Holds e lead _ r (P.matrix *ᵥ (v - u)) := by
    obtain ⟨d, hd, hd'⟩ := hy.sub hx
    obtain ⟨e, k, hk, hk'⟩ := LinearOperator.apply_multiplies hbuilt.acts hd'
    exact ⟨d, k, e, hd, hk, hk'⟩
  have hnonneg := Functional.dotProduct_self_nonneg (P.matrix *ᵥ (v - u))
  refine ⟨A, P.loss u, P.loss v, P.slope u, P.slope v, P.matrix *ᵥ (v - u), hA,
    hfits.evaluates hx, hfits.evaluates hy, himage, P.loss_sub_tangent u v, by positivity, ?_⟩
  rcases hbuilt.bound_cases with ⟨L, hL⟩ | hinf
  · have hcurved : P.CurvedAtMost (L ^ 2) := hbounded L hL
    rw [hL, Number.square_finite] at hs
    cases hs
    refine Or.inl ⟨L, hL, by rw [sq]; rfl, ?_, P.slope_cocoercive (sq_nonneg L) hcurved u v⟩
    linarith [hcurved (v - u)]
  · rw [hinf] at hs
    cases hs
    exact Or.inr ⟨hinf, rfl⟩

/-! The differences of three numbers, without data, at the origin and at `(0, 1, 2)`. -/

noncomputable def differencesOfThree : LinearOperator Exact :=
  ⟨.difference, some 2, some 3, Scalar.ofInt 2⟩

noncomputable def ramp : NdArray Exact := .tabulate .memory [3] .double fun k => finite k

lemma ramp_holds : ramp.Holds .memory [] 3 0 fun j : Fin 3 => (j : ℝ) where
  lt := Nat.one_pos
  backend_eq := rfl
  shape_eq := rfl
  real := rfl
  row j := by
    rw [ramp, realAt_tabulate _ _ _ _ _ (by simp), zero_mul, zero_add]

/-- Without data, a least-squares functional is made of any operator with a finite bound. -/
lemma leastSquares_null {K : LinearOperator Exact} {L : ℝ} (hL : K.bound = finite L) :
    leastSquares .null (.operator K) = .ok ⟨.leastSquares K .null, K.dim, finite (L * L)⟩ := by
  rw [leastSquares, forwardOperator]
  simp only [bind, Except.bind, hL, Number.square_finite]
  cases K.codim <;> rfl

theorem differences_expand : ∃ f φ φ' γ γ',
    leastSquares .null (.operator differencesOfThree) = .ok f ∧
      f.Evaluates (LinearOperator.origin 3) [] 3 0 φ γ ∧ f.Evaluates ramp [] 3 0 φ' γ' ∧
      φ + γ ⬝ᵥ (fun j : Fin 3 => (j : ℝ)) ≤ φ' := by
  have hbound : differencesOfThree.bound = finite 2 := by simp [differencesOfThree]
  have hdim : (Value.number (.int 3) : Value Exact).toWhole = .ok (2 + 1 : ℕ) := rfl
  have hbuilt : differencesOfThree.BuiltIn 2 3 := .difference hdim rfl
  have hstart := leastSquares_null hbound
  obtain ⟨A, φ, φ', γ, γ', w, -, hx, hy, -, hexpand, hnonneg, -⟩ :=
    leastSquares_expands (m := 2) (.operator hbuilt fun h => h.elim) hstart (Or.inl rfl)
      (LinearOperator.origin_holds 3) ramp_holds
  rw [sub_zero] at hexpand
  exact ⟨_, φ, φ', γ, γ', hstart, hx, hy, by linarith⟩

/-- **A matrix without columns** makes a functional of the point without elements.  In its dense
form there is a value and a gradient, in its sparse form there is neither. -/
theorem sparse_misses_gradient :
    (∃ f, leastSquares .null (.operator LinearOperator.columnlessSparse) = .ok f ∧
      f.apply (.array (LinearOperator.origin 0)) = .error .shapeMismatch ∧
      f.grad (.array (LinearOperator.origin 0)) = .error .shapeMismatch) ∧
    ∃ f φ γ, leastSquares .null (.operator LinearOperator.columnlessDense) = .ok f ∧
      f.Evaluates (LinearOperator.origin 0) [] 0 0 φ γ := by
  have hdense : (⟨.leastSquares LinearOperator.columnlessDense .null, some 0, finite (1 * 1)⟩ :
      Smooth Exact).Fits [] 0 0 := ⟨LinearOperator.columnlessDense_builtIn.acts, Or.inl rfl⟩
  exact ⟨⟨_, leastSquares_null rfl, rfl, rfl⟩, _, _, _, leastSquares_null rfl,
    hdense.evaluates (LinearOperator.origin_holds 0)⟩

end Smooth

end PrimalDual
