import Mathlib.Order.Monotone.Basic
import PrimalDual.Proofs.Convex.Functional

/-!
# Saddle points and the descent of the primal-dual iteration

The problem is to minimise `f(x) + g(x) + h(K x)` for a least-squares functional `f`.  A point and a
dual point form a saddle when `-∇f(x) - Kᵀ z` is a subgradient of `g` at `x` and `z` is one of `h`
at `K x`.  The two proximal points of an iteration are determined by inclusions of the same form,
so everything here follows by comparing inclusions.

The distance in which the iteration descends is `D(a, b) = |a|²/τ - 2⟨K a, b⟩ + |b|²/σ`.  The
argument has three parts: the inclusions at the proximal points and at a saddle give one inequality
for the cross term of `D`; the gradient costs at most half of the distance travelled; and the rest
is the expansion of a square.

* `transpose_stretch_le` — what bounds a matrix bounds the transposed one.
* `Fitting` — a least-squares functional, with its gradient.
* `Problem`, `Problem.IsSaddle`, `Problem.IsStep` — the problem, its saddles, and the two proximal
  points of an iteration.
* `Problem.energy`, `Problem.cross` — the distance and its cross term.
* **`IsSaddle.minimises`** — saddle points minimise.
* **`isStep_self_iff`** — a point is its own step exactly at a saddle.
* **`IsStep.energy_le`** — the descent.
-/

namespace PrimalDual

open Matrix

/-! ## Transposed matrices -/

/-- What bounds a matrix bounds the transposed one. -/
lemma transpose_stretch_le {m n : ℕ} {M : Matrix (Fin m) (Fin n) ℝ} {ν : ℝ} (hν : 0 ≤ ν)
    (hM : ∀ v, (M *ᵥ v) ⬝ᵥ (M *ᵥ v) ≤ ν * (v ⬝ᵥ v)) (w : Fin m → ℝ) :
    (Mᵀ *ᵥ w) ⬝ᵥ (Mᵀ *ᵥ w) ≤ ν * (w ⬝ᵥ w) := by
  set g := Mᵀ *ᵥ w with hg
  have hmove : g ⬝ᵥ g = w ⬝ᵥ (M *ᵥ g) := by
    rw [hg, mulVec_transpose, ← dotProduct_mulVec]
  have hw := Functional.dotProduct_self_nonneg w
  by_cases hzero : g = 0
  · rw [hzero, dotProduct_zero]
    exact mul_nonneg hν hw
  · -- `|g|⁴ = ⟨w, M g⟩² ≤ |w|² |M g|²`, and the last factor is at most `ν |g|²`
    refine le_of_mul_le_mul_right ?_ (Functional.dotProduct_self_pos hzero)
    calc (g ⬝ᵥ g) * (g ⬝ᵥ g) = (w ⬝ᵥ (M *ᵥ g)) ^ 2 := by rw [← hmove, sq]
      _ ≤ (w ⬝ᵥ w) * ((M *ᵥ g) ⬝ᵥ (M *ᵥ g)) := Functional.dotProduct_sq_le _ _
      _ ≤ (w ⬝ᵥ w) * (ν * (g ⬝ᵥ g)) := mul_le_mul_of_nonneg_left (hM g) hw
      _ = ν * (w ⬝ᵥ w) * (g ⬝ᵥ g) := by ring

/-! ## Least squares -/

/-- Half the squared distance between the image of a point and the data. -/
structure Fitting (n : ℕ) where
  size : ℕ
  matrix : Matrix (Fin size) (Fin n) ℝ
  data : Fin size → ℝ

namespace Fitting

variable {n : ℕ} (f : Fitting n)

/-- No data at all: the null functional. -/
def null (n : ℕ) : Fitting n := ⟨0, 0, 0⟩

/-- The image of a point less the data. -/
def residual (x : Fin n → ℝ) : Fin f.size → ℝ := f.matrix *ᵥ x - f.data

/-- The value. -/
noncomputable def loss (x : Fin n → ℝ) : ℝ := 1 / 2 * (f.residual x ⬝ᵥ f.residual x)

/-- The gradient. -/
def slope (x : Fin n → ℝ) : Fin n → ℝ := f.matrixᵀ *ᵥ f.residual x

lemma null_loss (x : Fin n → ℝ) : (null n).loss x = 0 := by
  show 1 / 2 * ∑ j : Fin 0, _ = _
  rw [Finset.univ_eq_empty, Finset.sum_empty, mul_zero]

lemma null_slope (x : Fin n → ℝ) : (null n).slope x = 0 := by
  funext i
  show ∑ j : Fin 0, (null n).matrixᵀ i j * (null n).residual x j = 0
  rw [Finset.univ_eq_empty, Finset.sum_empty]

lemma slope_dotProduct (x a : Fin n → ℝ) :
    f.slope x ⬝ᵥ a = f.residual x ⬝ᵥ (f.matrix *ᵥ a) := by
  rw [slope, dotProduct_mulVec, mulVec_transpose]

lemma residual_sub (x y : Fin n → ℝ) :
    f.residual x - f.residual y = f.matrix *ᵥ (x - y) := by
  rw [residual, residual, sub_sub_sub_cancel_right, mulVec_sub]

lemma slope_sub (x y : Fin n → ℝ) :
    f.slope x - f.slope y = f.matrixᵀ *ᵥ (f.matrix *ᵥ (x - y)) := by
  rw [slope, slope, ← mulVec_sub, residual_sub]

/-- What a tangent misses is half the squared length of the image of the step. -/
lemma loss_sub_tangent (x y : Fin n → ℝ) : f.loss y - f.loss x - f.slope x ⬝ᵥ (y - x)
    = 1 / 2 * ((f.matrix *ᵥ (y - x)) ⬝ᵥ (f.matrix *ᵥ (y - x))) := by
  rw [slope_dotProduct, ← residual_sub, loss, loss]
  simp only [sub_dotProduct, dotProduct_sub, dotProduct_comm (f.residual y) (f.residual x)]
  ring

/-- The functional stays above its tangents. -/
lemma loss_tangent (x y : Fin n → ℝ) : f.loss x + f.slope x ⬝ᵥ (y - x) ≤ f.loss y := by
  have h := Functional.dotProduct_self_nonneg (f.matrix *ᵥ (y - x))
  linarith [f.loss_sub_tangent x y]

/-- The gradient's curvature is bounded by `β`. -/
def CurvedAtMost (β : ℝ) : Prop :=
  ∀ a : Fin n → ℝ, (f.matrix *ᵥ a) ⬝ᵥ (f.matrix *ᵥ a) ≤ β * (a ⬝ᵥ a)

/-- The gradient is cocoercive: it changes little along steps on which it hardly increases. -/
lemma slope_cocoercive {β : ℝ} (hβ0 : 0 ≤ β) (hβ : f.CurvedAtMost β) (x y : Fin n → ℝ) :
    (f.slope x - f.slope y) ⬝ᵥ (f.slope x - f.slope y)
      ≤ β * ((f.slope x - f.slope y) ⬝ᵥ (x - y)) := by
  have hdrop : (f.slope x - f.slope y) ⬝ᵥ (x - y)
      = (f.matrix *ᵥ (x - y)) ⬝ᵥ (f.matrix *ᵥ (x - y)) := by
    rw [sub_dotProduct, slope_dotProduct, slope_dotProduct, ← sub_dotProduct, residual_sub]
  rw [hdrop, slope_sub]
  exact transpose_stretch_le hβ0 hβ _

/-- The gradient at `x`, used instead of the one at `p`, costs at most a quarter of the curvature
times the squared distance between them. -/
lemma slope_cost {β : ℝ} (hβ : f.CurvedAtMost β) (x y p : Fin n → ℝ) :
    -(β / 4) * ((x - p) ⬝ᵥ (x - p)) ≤ (f.slope x - f.slope y) ⬝ᵥ (p - y) := by
  have hu : (f.slope x - f.slope y) ⬝ᵥ (p - y)
      = (f.matrix *ᵥ (x - y)) ⬝ᵥ (f.matrix *ᵥ (p - y)) := by
    rw [sub_dotProduct, slope_dotProduct, slope_dotProduct, ← sub_dotProduct, residual_sub]
  have hsplit : x - p = (x - y) - (p - y) := (sub_sub_sub_cancel_right x p y).symm
  have hlip := hβ (x - p)
  rw [hu]
  set u := f.matrix *ᵥ (x - y)
  set w := f.matrix *ᵥ (p - y)
  have hxp : f.matrix *ᵥ (x - p) = u - w := by rw [hsplit, mulVec_sub]
  have hnonneg := Functional.dotProduct_self_nonneg (u + w)
  rw [hxp, sub_dotProduct, dotProduct_sub, dotProduct_sub, dotProduct_comm w u] at hlip
  rw [add_dotProduct, dotProduct_add, dotProduct_add, dotProduct_comm w u] at hnonneg
  linarith

end Fitting

/-! ## Problems -/

/-- Minimise `f(x) + g(x) + h(K x)`. -/
structure Problem (m n : ℕ) where
  smooth : Fitting n
  primal : Functional n
  dual : Functional m
  matrix : Matrix (Fin m) (Fin n) ℝ

namespace Problem

variable {m n : ℕ} {P : Problem m n} {x x' p y a e : Fin n → ℝ} {z z' q b d : Fin m → ℝ}
  {τ σ ν β w : ℝ}

/-- The points at which the objective is finite. -/
def feasible (P : Problem m n) : Set (Fin n → ℝ) :=
  {x | x ∈ P.primal.domain ∧ P.matrix *ᵥ x ∈ P.dual.domain}

/-- The objective at a feasible point. -/
noncomputable def objective (P : Problem m n) (x : Fin n → ℝ) : ℝ :=
  P.smooth.loss x + P.primal.height x + P.dual.height (P.matrix *ᵥ x)

open Classical in
/-- The objective as a number that may be infinite. -/
noncomputable def report (P : Problem m n) (x : Fin n → ℝ) : Exact :=
  if x ∈ P.feasible then .finite (P.objective x) else .infinite false

/-- The objective is finite exactly where both terms are. -/
lemma report_eq (P : Problem m n) (x : Fin n → ℝ) :
    P.report x = .finite (P.smooth.loss x) + P.primal.report x
      + P.dual.report (P.matrix *ᵥ x) := by
  by_cases hprimal : x ∈ P.primal.domain
  · by_cases hdual : P.matrix *ᵥ x ∈ P.dual.domain
    · rw [report, if_pos ⟨hprimal, hdual⟩, Functional.report_of_mem hprimal,
        Functional.report_of_mem hdual]
      rfl
    · rw [report, if_neg fun h => hdual h.2, Functional.report_of_mem hprimal,
        Functional.report_of_notMem hdual]
      rfl
  · rw [report, if_neg fun h => hprimal h.1, Functional.report_of_notMem hprimal,
      Functional.report]
    split <;> rfl

/-- `-∇f(x) - Kᵀ z` is a subgradient of `g` at `x`, and `z` is one of `h` at `K x`. -/
def IsSaddle (P : Problem m n) (x : Fin n → ℝ) (z : Fin m → ℝ) : Prop :=
  P.primal.HasSubgradient x (-P.smooth.slope x - P.matrixᵀ *ᵥ z) ∧
    P.dual.HasSubgradient (P.matrix *ᵥ x) z

/-- The two proximal points of an iteration from `x` and `z`. -/
def IsStep (P : Problem m n) (τ σ : ℝ) (x : Fin n → ℝ) (z : Fin m → ℝ) (p : Fin n → ℝ)
    (q : Fin m → ℝ) : Prop :=
  P.primal.IsProx τ (x - τ • (P.smooth.slope x + P.matrixᵀ *ᵥ z)) p ∧
    P.dual.IsConjugateProx σ (z + σ • (P.matrix *ᵥ ((2 : ℝ) • p - x))) q

lemma transpose_dotProduct (P : Problem m n) (z : Fin m → ℝ) (a : Fin n → ℝ) :
    (P.matrixᵀ *ᵥ z) ⬝ᵥ a = (P.matrix *ᵥ a) ⬝ᵥ z := by
  rw [mulVec_transpose, ← dotProduct_mulVec, dotProduct_comm]

/-- **The primal part of a saddle point minimises the objective.** -/
theorem IsSaddle.minimises (h : P.IsSaddle x z) (hy : y ∈ P.feasible) :
    P.objective x ≤ P.objective y := by
  have hf := P.smooth.loss_tangent x y
  have hg := h.1.2 y hy.1
  have hh := h.2.2 _ hy.2
  rw [sub_dotProduct, neg_dotProduct, transpose_dotProduct, mulVec_sub,
    dotProduct_comm _ z] at hg
  rw [objective, objective]
  linarith

/-- The primal part of a saddle point is feasible. -/
lemma IsSaddle.feasible (h : P.IsSaddle x z) : x ∈ P.feasible := ⟨h.1.1, h.2.1⟩

/-! ## The inclusions of a step -/

lemma IsStep.primal_subgradient (hτ : τ ≠ 0) (h : P.IsStep τ σ x z p q) :
    P.primal.HasSubgradient p (τ⁻¹ • (x - p) - (P.smooth.slope x + P.matrixᵀ *ᵥ z)) := by
  have hslope : τ⁻¹ • (x - τ • (P.smooth.slope x + P.matrixᵀ *ᵥ z) - p)
      = τ⁻¹ • (x - p) - (P.smooth.slope x + P.matrixᵀ *ᵥ z) := by
    rw [sub_right_comm, smul_sub, smul_smul, inv_mul_cancel₀ hτ, one_smul]
  rw [← hslope]
  exact h.1

lemma IsStep.dual_subgradient (hσ : σ ≠ 0) (h : P.IsStep τ σ x z p q) :
    P.dual.HasSubgradient (σ⁻¹ • (z - q) + P.matrix *ᵥ ((2 : ℝ) • p - x)) q := by
  have hpoint : σ⁻¹ • (z + σ • (P.matrix *ᵥ ((2 : ℝ) • p - x)) - q)
      = σ⁻¹ • (z - q) + P.matrix *ᵥ ((2 : ℝ) • p - x) := by
    rw [add_sub_right_comm, smul_add, smul_smul, inv_mul_cancel₀ hσ, one_smul]
  rw [← hpoint]
  exact h.2

/-- **A point is its own step exactly at a saddle.** -/
theorem isStep_self_iff (hτ : τ ≠ 0) (hσ : σ ≠ 0) :
    P.IsStep τ σ x z x z ↔ P.IsSaddle x z := by
  have hahead : (2 : ℝ) • x - x = x := by rw [two_smul, add_sub_cancel_right]
  constructor
  · intro h
    have hp := h.primal_subgradient hτ
    have hd := h.dual_subgradient hσ
    rw [sub_self, smul_zero, zero_sub, neg_add'] at hp
    rw [sub_self, smul_zero, zero_add, hahead] at hd
    exact ⟨hp, hd⟩
  · rintro ⟨hp, hd⟩
    constructor
    · rw [Functional.IsProx, sub_right_comm, sub_self, zero_sub, smul_neg, smul_smul,
        inv_mul_cancel₀ hτ, one_smul, neg_add']
      exact hp
    · rw [Functional.IsConjugateProx, add_sub_cancel_left, smul_smul, inv_mul_cancel₀ hσ, one_smul,
        hahead]
      exact hd

/-- The proximal points are determined by where the iteration is. -/
lemma IsStep.unique (hτ : 0 < τ) (hσ : 0 < σ) {p' : Fin n → ℝ} {q' : Fin m → ℝ}
    (h : P.IsStep τ σ x z p q) (h' : P.IsStep τ σ x z p' q') : p = p' ∧ q = q' := by
  obtain rfl := h.1.unique hτ h'.1
  exact ⟨rfl, h.2.unique hσ h'.2⟩

/-! ## The distance -/

/-- `D(a, b) = |a|²/τ - 2⟨K a, b⟩ + |b|²/σ`. -/
noncomputable def energy (P : Problem m n) (τ σ : ℝ) (a : Fin n → ℝ) (b : Fin m → ℝ) : ℝ :=
  (a ⬝ᵥ a) / τ - 2 * ((P.matrix *ᵥ a) ⬝ᵥ b) + (b ⬝ᵥ b) / σ

/-- The cross term of the distance. -/
noncomputable def cross (P : Problem m n) (τ σ : ℝ) (a : Fin n → ℝ) (b : Fin m → ℝ)
    (e : Fin n → ℝ) (d : Fin m → ℝ) : ℝ :=
  (a ⬝ᵥ e) / τ - (P.matrix *ᵥ a) ⬝ᵥ d - (P.matrix *ᵥ e) ⬝ᵥ b + (b ⬝ᵥ d) / σ

/-- The expansion of a square. -/
lemma energy_smul_add (c : ℝ) :
    P.energy τ σ (c • a + e) (c • b + d)
      = c ^ 2 * P.energy τ σ a b + 2 * c * P.cross τ σ a b e d + P.energy τ σ e d := by
  simp only [energy, cross, mulVec_add, mulVec_smul, add_dotProduct, dotProduct_add,
    smul_dotProduct, dotProduct_smul, smul_eq_mul]
  rw [dotProduct_comm e a, dotProduct_comm d b]
  ring

/-- The steps leave room for the curvature, so the distance is at least half of what the curvature
can cost. -/
lemma energy_ge (hσ : 0 < σ) (hgap : 1 / τ - σ * ν = β / 2)
    (hν : ∀ a : Fin n → ℝ, (P.matrix *ᵥ a) ⬝ᵥ (P.matrix *ᵥ a) ≤ ν * (a ⬝ᵥ a))
    (a : Fin n → ℝ) (b : Fin m → ℝ) : β / 2 * (a ⬝ᵥ a) ≤ P.energy τ σ a b := by
  have hsquare := Functional.dotProduct_self_nonneg (b - σ • (P.matrix *ᵥ a))
  simp only [sub_dotProduct, dotProduct_sub, smul_dotProduct, dotProduct_smul,
    smul_eq_mul] at hsquare
  rw [dotProduct_comm b (P.matrix *ᵥ a)] at hsquare
  have hnorm := mul_le_mul_of_nonneg_left (hν a) hσ.le
  have hdiv : 0 ≤ (b ⬝ᵥ b) / σ - 2 * ((P.matrix *ᵥ a) ⬝ᵥ b)
      + σ * ((P.matrix *ᵥ a) ⬝ᵥ (P.matrix *ᵥ a)) := by
    have h := div_nonneg hsquare hσ.le
    have hexpand : (b ⬝ᵥ b - σ * ((P.matrix *ᵥ a) ⬝ᵥ b)
        - σ * ((P.matrix *ᵥ a) ⬝ᵥ b - σ * ((P.matrix *ᵥ a) ⬝ᵥ (P.matrix *ᵥ a)))) / σ
        = (b ⬝ᵥ b) / σ - 2 * ((P.matrix *ᵥ a) ⬝ᵥ b)
          + σ * ((P.matrix *ᵥ a) ⬝ᵥ (P.matrix *ᵥ a)) := by
      field_simp
      ring
    rwa [hexpand] at h
  calc β / 2 * (a ⬝ᵥ a) = (a ⬝ᵥ a) / τ - σ * (ν * (a ⬝ᵥ a)) := by
        rw [← hgap]
        ring
    _ ≤ (a ⬝ᵥ a) / τ - σ * ((P.matrix *ᵥ a) ⬝ᵥ (P.matrix *ᵥ a)) := by linarith
    _ ≤ P.energy τ σ a b := by
        rw [energy]
        linarith

/-- What the inclusions at the proximal points and at a saddle say about the cross term. -/
lemma IsStep.cross_ge (hτ : τ ≠ 0) (hσ : σ ≠ 0) (h : P.IsStep τ σ x z p q)
    (hs : P.IsSaddle x' z') :
    (P.smooth.slope x - P.smooth.slope x') ⬝ᵥ (p - x')
      ≤ P.cross τ σ (x - p) (z - q) (p - x') (q - z') := by
  have hp := (h.primal_subgradient hτ).monotone hs.1
  have hd := (h.dual_subgradient hσ).monotone hs.2
  have hslope : τ⁻¹ • (x - p) - (P.smooth.slope x + P.matrixᵀ *ᵥ z)
        - (-P.smooth.slope x' - P.matrixᵀ *ᵥ z')
      = τ⁻¹ • (x - p) - (P.smooth.slope x - P.smooth.slope x')
        - (P.matrixᵀ *ᵥ ((z - q) + (q - z'))) := by
    rw [sub_add_sub_cancel, mulVec_sub]
    abel
  have hpoint : σ⁻¹ • (z - q) + P.matrix *ᵥ ((2 : ℝ) • p - x) - P.matrix *ᵥ x'
      = σ⁻¹ • (z - q) + (P.matrix *ᵥ (p - x') - P.matrix *ᵥ (x - p)) := by
    rw [add_sub_assoc, ← mulVec_sub, ← mulVec_sub, two_smul]
    congr 2
    abel
  rw [hslope, sub_dotProduct, sub_dotProduct, smul_dotProduct, smul_eq_mul,
    transpose_dotProduct, dotProduct_add] at hp
  rw [hpoint, dotProduct_comm, add_dotProduct, sub_dotProduct, smul_dotProduct, smul_eq_mul] at hd
  rw [cross, div_eq_inv_mul, div_eq_inv_mul]
  linarith

/-- **The descent.**  A step of part `w` toward the proximal points brings the iterates closer to
every saddle point, by at least `w (1 - w)` times the distance to the proximal points. -/
theorem IsStep.energy_le (hτ : τ ≠ 0) (hσ : 0 < σ) (hgap : 1 / τ - σ * ν = β / 2)
    (hν : ∀ a : Fin n → ℝ, (P.matrix *ᵥ a) ⬝ᵥ (P.matrix *ᵥ a) ≤ ν * (a ⬝ᵥ a))
    (hβ : P.smooth.CurvedAtMost β) (hw : 0 ≤ w) (h : P.IsStep τ σ x z p q)
    (hs : P.IsSaddle x' z') :
    P.energy τ σ (x + w • (p - x) - x') (z + w • (q - z) - z')
      ≤ P.energy τ σ (x - x') (z - z') - w * (1 - w) * P.energy τ σ (x - p) (z - q) := by
  have hcost := P.smooth.slope_cost hβ x x' p
  have hcross := h.cross_ge hτ hσ.ne' hs
  have hroom := energy_ge (P := P) hσ hgap hν (x - p) (z - q)
  have hafter (u v v' : Fin n → ℝ) : u + w • (v - u) - v' = (1 - w) • (u - v) + (v - v') := by
    rw [sub_smul, one_smul, smul_sub, smul_sub]
    abel
  have hafter' (u v v' : Fin m → ℝ) : u + w • (v - u) - v' = (1 - w) • (u - v) + (v - v') := by
    rw [sub_smul, one_smul, smul_sub, smul_sub]
    abel
  have hbefore : P.energy τ σ (x - x') (z - z')
      = P.energy τ σ (x - p) (z - q) + 2 * P.cross τ σ (x - p) (z - q) (p - x') (q - z')
        + P.energy τ σ (p - x') (q - z') := by
    have := energy_smul_add (P := P) (τ := τ) (σ := σ) (a := x - p) (b := z - q) (e := p - x')
      (d := q - z') 1
    rw [one_smul, one_smul, sub_add_sub_cancel, sub_add_sub_cancel] at this
    rw [this]
    ring
  rw [hafter, hafter', energy_smul_add, hbefore]
  set E := P.energy τ σ (x - p) (z - q)
  set B := P.cross τ σ (x - p) (z - q) (p - x') (q - z')
  have hlead : 0 ≤ w * (E + 2 * B) := mul_nonneg hw (by linarith)
  linarith

end Problem

end PrimalDual
