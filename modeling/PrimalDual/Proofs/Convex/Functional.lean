import Mathlib.Algebra.Order.BigOperators.Ring.Finset
import Mathlib.Analysis.SpecialFunctions.Pow.Real
import Mathlib.LinearAlgebra.Matrix.DotProduct
import Mathlib.Data.Sign.Basic
import PrimalDual.Proofs.Exact.Real

/-!
# Functionals and their proximal points

A functional is real on its domain and infinite elsewhere.  A proximal point is determined by an
inclusion: `p` is the proximal point of `v` with step `t` when `(v - p) / t` is a subgradient at
`p`.  This file derives the inclusion for every elementary functional from the formula by which its
proximal points are computed.

* `Functional`, `HasSubgradient` — functionals and their subgradients.
* `IsProx`, `IsConjugateProx` — the proximal points of a functional and of its conjugate.
* **`HasSubgradient.monotone`** — subgradients turn with their points.
* **`IsProx.unique`** — a point has one proximal point.
* **`IsProx.minimises`** — it minimises the functional plus the squared distance to the point.
* **`IsProx.moreau`** — the proximal points of the conjugate from those of the functional.
-/

namespace PrimalDual

/-- A functional: real on its domain, infinite elsewhere. -/
structure Functional (n : ℕ) where
  domain : Set (Fin n → ℝ)
  height : (Fin n → ℝ) → ℝ

namespace Functional

variable {n : ℕ} {h : Functional n} {u v w g k p q : Fin n → ℝ} {c t σ : ℝ}

open Classical in
/-- The value as a number that may be infinite. -/
noncomputable def report (h : Functional n) (v : Fin n → ℝ) : Exact :=
  if v ∈ h.domain then .finite (h.height v) else .infinite false

lemma report_of_mem (hv : v ∈ h.domain) : h.report v = .finite (h.height v) := if_pos hv

lemma report_of_notMem (hv : v ∉ h.domain) : h.report v = .infinite false := if_neg hv

/-- The functional stays above the affine function through `u` with slope `g`. -/
def HasSubgradient (h : Functional n) (u g : Fin n → ℝ) : Prop :=
  u ∈ h.domain ∧ ∀ w ∈ h.domain, h.height u + g ⬝ᵥ (w - u) ≤ h.height w

/-- The proximal point of `v` with step `t`. -/
def IsProx (h : Functional n) (t : ℝ) (v p : Fin n → ℝ) : Prop :=
  h.HasSubgradient p (t⁻¹ • (v - p))

/--
The proximal point of `v` with step `σ` of the conjugate.  Subgradients of the conjugate are those
of the functional read backward, so the conjugate itself does not appear.
-/
def IsConjugateProx (h : Functional n) (σ : ℝ) (v q : Fin n → ℝ) : Prop :=
  h.HasSubgradient (σ⁻¹ • (v - q)) q

/-! ## Monotonicity -/

/-- **Subgradients turn with their points.** -/
theorem HasSubgradient.monotone (hu : h.HasSubgradient u g) (hw : h.HasSubgradient w k) :
    0 ≤ (g - k) ⬝ᵥ (u - w) := by
  have h₁ := hu.2 w hw.1
  have h₂ := hw.2 u hu.1
  rw [dotProduct_sub] at h₁ h₂
  rw [sub_dotProduct, dotProduct_sub, dotProduct_sub]
  linarith

lemma eq_of_dotProduct_self_nonpos (hle : (u - w) ⬝ᵥ (u - w) ≤ 0) : u = w := by
  have hnonneg : 0 ≤ (u - w) ⬝ᵥ (u - w) := Finset.sum_nonneg fun j _ => mul_self_nonneg _
  exact sub_eq_zero.mp (dotProduct_self_eq_zero.mp (le_antisymm hle hnonneg))

/-- **A point has one proximal point.** -/
theorem IsProx.unique (ht : 0 < t) (hp : h.IsProx t v p) (hq : h.IsProx t v q) : p = q := by
  have hmono := HasSubgradient.monotone hp hq
  have hdiff : t⁻¹ • (v - p) - t⁻¹ • (v - q) = -(t⁻¹ • (p - q)) := by
    rw [← smul_sub, ← smul_neg]
    congr 1
    abel
  rw [hdiff, neg_dotProduct, smul_dotProduct, smul_eq_mul] at hmono
  refine eq_of_dotProduct_self_nonpos ?_
  by_contra hpos
  have := mul_pos (inv_pos.mpr ht) (not_le.mp hpos)
  linarith

/-- A point has one proximal point of the conjugate. -/
theorem IsConjugateProx.unique (hσ : 0 < σ) (hp : h.IsConjugateProx σ v p)
    (hq : h.IsConjugateProx σ v q) : p = q := by
  have hmono := HasSubgradient.monotone hp hq
  have hdiff : σ⁻¹ • (v - p) - σ⁻¹ • (v - q) = -(σ⁻¹ • (p - q)) := by
    rw [← smul_sub, ← smul_neg]
    congr 1
    abel
  rw [hdiff, dotProduct_neg, dotProduct_smul, smul_eq_mul] at hmono
  refine eq_of_dotProduct_self_nonpos ?_
  by_contra hpos
  have := mul_pos (inv_pos.mpr hσ) (not_le.mp hpos)
  linarith

/--
**A proximal point minimises** the functional plus the squared distance over twice the step.  Any
other point exceeds the minimum at least by its own squared distance from the proximal point.
-/
theorem IsProx.minimises (ht : 0 < t) (hp : h.IsProx t v p) (hw : w ∈ h.domain) :
    h.height p + (p - v) ⬝ᵥ (p - v) / (2 * t) + (w - p) ⬝ᵥ (w - p) / (2 * t)
      ≤ h.height w + (w - v) ⬝ᵥ (w - v) / (2 * t) := by
  have hexpand : (w - v) ⬝ᵥ (w - v)
      = (p - v) ⬝ᵥ (p - v) + (w - p) ⬝ᵥ (w - p) - 2 * ((v - p) ⬝ᵥ (w - p)) := by
    simp only [sub_dotProduct, dotProduct_sub]
    rw [dotProduct_comm v w, dotProduct_comm p w, dotProduct_comm p v]
    ring
  have hslope := hp.2 w hw
  rw [smul_dotProduct, smul_eq_mul] at hslope
  calc h.height p + (p - v) ⬝ᵥ (p - v) / (2 * t) + (w - p) ⬝ᵥ (w - p) / (2 * t)
      = h.height p + t⁻¹ * ((v - p) ⬝ᵥ (w - p)) + (w - v) ⬝ᵥ (w - v) / (2 * t) := by
        rw [hexpand]
        field_simp
        ring
    _ ≤ h.height w + (w - v) ⬝ᵥ (w - v) / (2 * t) := by linarith

/-! ## Moreau's identity and scaling -/

/-- **Moreau's identity**: what is left of `v` after `σ` times the proximal point of `v / σ`. -/
theorem IsProx.moreau (hσ : σ ≠ 0) (hp : h.IsProx σ⁻¹ (σ⁻¹ • v) p) :
    h.IsConjugateProx σ v (v - σ • p) := by
  have hpoint : σ⁻¹ • (v - (v - σ • p)) = p := by
    rw [sub_sub_cancel, smul_smul, inv_mul_cancel₀ hσ, one_smul]
  have hslope : σ⁻¹⁻¹ • (σ⁻¹ • v - p) = v - σ • p := by
    rw [inv_inv, smul_sub, smul_smul, mul_inv_cancel₀ hσ, one_smul]
  rw [IsConjugateProx, hpoint]
  rwa [IsProx, hslope] at hp

/-- The functional times a factor. -/
def scale (c : ℝ) (h : Functional n) : Functional n := ⟨h.domain, fun v => c * h.height v⟩

lemma report_scale (hc : 0 < c) (v : Fin n → ℝ) :
    (h.scale c).report v = .finite c * h.report v := by
  by_cases hv : v ∈ h.domain
  · rw [report_of_mem hv, report_of_mem (h := h.scale c) hv]
    rfl
  · rw [report_of_notMem hv, report_of_notMem (h := h.scale c) hv, Exact.finite_mul_infinite hc]

lemma HasSubgradient.scale (hc : 0 < c) (hu : h.HasSubgradient u (c⁻¹ • g)) :
    (h.scale c).HasSubgradient u g := by
  refine ⟨hu.1, fun w hw => ?_⟩
  have hle := mul_le_mul_of_nonneg_left (hu.2 w hw) hc.le
  rwa [smul_dotProduct, smul_eq_mul, mul_add, mul_inv_cancel_left₀ hc.ne'] at hle

/-- A factor of the functional multiplies the step. -/
lemma IsProx.scale (hc : 0 < c) (hp : h.IsProx (c * t) v p) : (h.scale c).IsProx t v p := by
  refine HasSubgradient.scale hc ?_
  rwa [IsProx, mul_inv, ← smul_smul] at hp

/-! ## The null functional -/

/-- The null functional. -/
def null (n : ℕ) : Functional n := ⟨Set.univ, fun _ => 0⟩

lemma null_isProx : (null n).IsProx t v v := by
  refine ⟨trivial, fun w _ => ?_⟩
  simp [null]

lemma null_isConjugateProx : (null n).IsConjugateProx σ v 0 := by
  refine ⟨trivial, fun w _ => ?_⟩
  simp [null]

/-! ## Indicators

A projection onto a product of intervals goes element by element.
-/

/-- Zero where every element lies in its set, infinite elsewhere. -/
def indicator (I : Fin n → Set ℝ) : Functional n := ⟨{v | ∀ j, v j ∈ I j}, fun _ => 0⟩

lemma indicator_isProx {I : Fin n → Set ℝ} (ht : 0 < t)
    (hp : ∀ j, p j ∈ I j ∧ ∀ y ∈ I j, (v j - p j) * (y - p j) ≤ 0) :
    (indicator I).IsProx t v p := by
  refine ⟨fun j => (hp j).1, fun w hw => ?_⟩
  show 0 + t⁻¹ • (v - p) ⬝ᵥ (w - p) ≤ 0
  rw [zero_add, smul_dotProduct, smul_eq_mul]
  refine mul_nonpos_of_nonneg_of_nonpos (inv_pos.mpr ht).le ?_
  exact Finset.sum_nonpos fun j _ => (hp j).2 (w j) (hw j)

/-! ## The sum of magnitudes

Both of its proximal points go element by element: the functional's are moved toward zero by the
step, the conjugate's are cut off at one.
-/

/-- The sum of magnitudes. -/
def magnitudes (n : ℕ) : Functional n := ⟨Set.univ, fun v => ∑ j, |v j|⟩

/-- The subgradients of the sum of magnitudes, element by element. -/
lemma magnitudes_hasSubgradient (hg : ∀ j, ∀ y : ℝ, |u j| + g j * (y - u j) ≤ |y|) :
    (magnitudes n).HasSubgradient u g := by
  refine ⟨trivial, fun w _ => ?_⟩
  show ∑ j, |u j| + ∑ j, g j * (w j - u j) ≤ ∑ j, |w j|
  rw [← Finset.sum_add_distrib]
  exact Finset.sum_le_sum fun j _ => hg j (w j)

/-- A number moved toward zero by `t`. -/
lemma abs_shrink (ht : 0 < t) (x y : ℝ) :
    |max 0 (|x| - t) * (SignType.sign x : ℝ)|
      + t⁻¹ * (x - max 0 (|x| - t) * (SignType.sign x : ℝ))
        * (y - max 0 (|x| - t) * (SignType.sign x : ℝ)) ≤ |y| := by
  rcases le_or_gt |x| t with hx | hx
  · -- it stops at zero
    rw [max_eq_left (by linarith), zero_mul, abs_zero, sub_zero, sub_zero, zero_add]
    calc t⁻¹ * x * y ≤ |t⁻¹ * x * y| := le_abs_self _
      _ = t⁻¹ * |x| * |y| := by rw [abs_mul, abs_mul, abs_of_pos (inv_pos.mpr ht)]
      _ ≤ t⁻¹ * t * |y| := by gcongr
      _ = |y| := by rw [inv_mul_cancel₀ ht.ne', one_mul]
  · rw [max_eq_right (by linarith)]
    rcases lt_trichotomy x 0 with h | h | h
    · rw [sign_neg h, abs_of_neg h] at *
      have hp : |(-x - t) * ((-1 : SignType) : ℝ)| = -x - t := by
        simp only [SignType.coe_neg_one, mul_neg, mul_one, abs_neg]
        exact abs_of_pos (by linarith)
      have hs : t⁻¹ * (x - (-x - t) * ((-1 : SignType) : ℝ)) = -1 := by
        simp only [SignType.coe_neg_one]
        field_simp
        ring
      rw [hp, hs]
      simp only [SignType.coe_neg_one]
      linarith [neg_abs_le y]
    · rw [h, abs_zero] at hx
      linarith
    · rw [sign_pos h, abs_of_pos h] at *
      have hp : |(x - t) * ((1 : SignType) : ℝ)| = x - t := by
        simp only [SignType.coe_one, mul_one]
        exact abs_of_pos (by linarith)
      have hs : t⁻¹ * (x - (x - t) * ((1 : SignType) : ℝ)) = 1 := by
        simp only [SignType.coe_one]
        field_simp
        ring
      rw [hp, hs]
      simp only [SignType.coe_one]
      linarith [le_abs_self y]

lemma magnitudes_isProx (ht : 0 < t)
    (hp : ∀ j, p j = max 0 (|v j| - t) * (SignType.sign (v j) : ℝ)) :
    (magnitudes n).IsProx t v p := by
  refine magnitudes_hasSubgradient fun j y => ?_
  rw [Pi.smul_apply, Pi.sub_apply, smul_eq_mul, hp j]
  exact abs_shrink ht (v j) y

/-- A number cut off at one. -/
lemma abs_cut (hσ : 0 < σ) (x y : ℝ) :
    |σ⁻¹ * (x - min (max x (-1)) 1)| + min (max x (-1)) 1 * (y - σ⁻¹ * (x - min (max x (-1)) 1))
      ≤ |y| := by
  have hσ' := inv_pos.mpr hσ
  rcases lt_or_ge x (-1) with h | h
  · have hneg : σ⁻¹ * (x - -1) < 0 := mul_neg_of_pos_of_neg hσ' (by linarith)
    rw [max_eq_right h.le, min_eq_left (by norm_num), abs_of_neg hneg]
    linarith [neg_abs_le y]
  · rw [max_eq_left h]
    rcases le_or_gt x 1 with h' | h'
    · rw [min_eq_left h', sub_self, mul_zero, abs_zero, zero_add, sub_zero]
      calc x * y ≤ |x * y| := le_abs_self _
        _ = |x| * |y| := abs_mul x y
        _ ≤ 1 * |y| := by
            gcongr
            exact abs_le.mpr ⟨h, h'⟩
        _ = |y| := one_mul _
    · have hpos : 0 < σ⁻¹ * (x - 1) := mul_pos hσ' (by linarith)
      rw [min_eq_right h'.le, abs_of_pos hpos]
      linarith [le_abs_self y]

lemma magnitudes_isConjugateProx (hσ : 0 < σ) (hq : ∀ j, q j = min (max (v j) (-1)) 1) :
    (magnitudes n).IsConjugateProx σ v q := by
  refine magnitudes_hasSubgradient fun j y => ?_
  rw [Pi.smul_apply, Pi.sub_apply, smul_eq_mul, hq j]
  exact abs_cut hσ (v j) y

/-! ## The Euclidean length -/

/-- The Euclidean length. -/
noncomputable def length (n : ℕ) : Functional n := ⟨Set.univ, fun v => √(v ⬝ᵥ v)⟩

lemma dotProduct_self_nonneg (v : Fin n → ℝ) : 0 ≤ v ⬝ᵥ v :=
  Finset.sum_nonneg fun j _ => mul_self_nonneg (v j)

lemma dotProduct_self_pos (hv : v ≠ 0) : 0 < v ⬝ᵥ v :=
  (dotProduct_self_nonneg v).lt_of_ne fun h => hv (dotProduct_self_eq_zero.mp h.symm)

/-- The square of an inner product is at most the product of the squared lengths. -/
lemma dotProduct_sq_le (v w : Fin n → ℝ) : (v ⬝ᵥ w) ^ 2 ≤ (v ⬝ᵥ v) * (w ⬝ᵥ w) := by
  have h := Finset.sum_mul_sq_le_sq_mul_sq Finset.univ v w
  simpa only [dotProduct, sq] using h

/-- The inner product is at most the product of the lengths. -/
lemma dotProduct_le_length (v w : Fin n → ℝ) : v ⬝ᵥ w ≤ √(v ⬝ᵥ v) * √(w ⬝ᵥ w) := by
  rw [← Real.sqrt_mul (dotProduct_self_nonneg v)]
  exact Real.le_sqrt_of_sq_le (dotProduct_sq_le v w)

lemma length_smul (hc : 0 ≤ c) (v : Fin n → ℝ) : √((c • v) ⬝ᵥ (c • v)) = c * √(v ⬝ᵥ v) := by
  rw [smul_dotProduct, dotProduct_smul, smul_eq_mul, smul_eq_mul, ← mul_assoc,
    Real.sqrt_mul (mul_self_nonneg c), Real.sqrt_mul_self hc]

/-- A point shortened by `t`. -/
lemma length_isProx (ht : 0 < t) (hp : p = (1 - t / max √(v ⬝ᵥ v) t) • v) :
    (length n).IsProx t v p := by
  refine ⟨trivial, fun w _ => ?_⟩
  show √(p ⬝ᵥ p) + t⁻¹ • (v - p) ⬝ᵥ (w - p) ≤ √(w ⬝ᵥ w)
  have hcs := dotProduct_le_length v w
  rcases le_or_gt √(v ⬝ᵥ v) t with hv | hv
  · -- it is shortened to the origin
    have h0 : p = 0 := by
      rw [hp, max_eq_right hv, div_self ht.ne', sub_self, zero_smul]
    rw [h0, sub_zero, sub_zero, dotProduct_zero, Real.sqrt_zero, zero_add, smul_dotProduct,
      smul_eq_mul]
    calc t⁻¹ * (v ⬝ᵥ w) ≤ t⁻¹ * (√(v ⬝ᵥ v) * √(w ⬝ᵥ w)) := by gcongr
      _ ≤ t⁻¹ * (t * √(w ⬝ᵥ w)) := by gcongr
      _ = √(w ⬝ᵥ w) := inv_mul_cancel_left₀ ht.ne' _
  · have hlen : 0 < √(v ⬝ᵥ v) := ht.trans hv
    have hsq : v ⬝ᵥ v = √(v ⬝ᵥ v) * √(v ⬝ᵥ v) :=
      (Real.mul_self_sqrt (dotProduct_self_nonneg v)).symm
    rw [max_eq_left hv.le] at hp
    set ℓ := √(v ⬝ᵥ v) with hℓ
    have hfactor : 0 ≤ 1 - t / ℓ := sub_nonneg.mpr ((div_le_one hlen).mpr hv.le)
    have hdir : t⁻¹ • (v - p) = ℓ⁻¹ • v := by
      rw [hp, sub_smul, one_smul, sub_sub_cancel, smul_smul]
      congr 1
      field_simp
    rw [hdir, dotProduct_sub, smul_dotProduct, smul_dotProduct, smul_eq_mul, smul_eq_mul, hp,
      length_smul hfactor, dotProduct_smul, smul_eq_mul, ← hℓ, hsq]
    calc (1 - t / ℓ) * ℓ + (ℓ⁻¹ * (v ⬝ᵥ w) - ℓ⁻¹ * ((1 - t / ℓ) * (ℓ * ℓ)))
        = ℓ⁻¹ * (v ⬝ᵥ w) := by
          field_simp
          ring
      _ ≤ ℓ⁻¹ * (ℓ * √(w ⬝ᵥ w)) := by gcongr
      _ = √(w ⬝ᵥ w) := inv_mul_cancel_left₀ hlen.ne' _

end Functional

end PrimalDual
