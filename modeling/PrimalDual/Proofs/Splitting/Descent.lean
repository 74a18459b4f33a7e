import PrimalDual.Proofs.Splitting.Iterate
import PrimalDual.Proofs.Splitting.Setup
import PrimalDual.Proofs.Splitting.StepSize

/-!
# The iteration approaches every saddle point

With steps that are not both pinned, the distance `D(a, b) = |a|²/τ - 2⟨K a, b⟩ + |b|²/σ` of the
iterates to a saddle point never grows: the steps leave exactly the room that the curvature of the
smooth functional takes.  One iteration of part `w` gains `w (1 - w)` times the distance to the
proximal points.  Along a run the weights stay between zero and one, for both methods, so the
distance never grows over runs of any length.

* `Momentum.Tame` — the weights of the schedule lie between zero and one.
* `start_tame` — the weights of a run that a setup has begun.
* `IterationState.Underway` — what an iteration needs and preserves.
* **`iterate_approaches_saddles`** — the descent, for one iteration and along runs.
-/

namespace PrimalDual

open Exact NdArray Matrix

/-! ## Weights -/

namespace Momentum

/-- The weights lie between zero and one: a constant one does, and Nesterov's sequence has got to
one at least. -/
def Tame : Momentum Exact → Prop
  | constant (some w) => ∃ ω, w.Is ω ∧ 0 < ω ∧ ω ≤ 1
  | nesterov t => ∃ u, t = finite u ∧ 1 ≤ u
  | _ => False

lemma successor_finite (u : ℝ) :
    successor (finite u) = finite ((1 + √(1 + 4 * (u * u))) / 2) := by
  have hnonneg : 0 ≤ 1 + 4 * (u * u) := by linarith [mul_self_nonneg u]
  rw [successor, one_eq, ofInt_eq, ofInt_eq, Int.cast_ofNat, Int.cast_ofNat, finite_mul, finite_mul,
    finite_add, sqrt_finite hnonneg, finite_add, finite_div _ two_ne_zero]

/-- Nesterov's sequence grows. -/
lemma le_successor (u : ℝ) : u ≤ (1 + √(1 + 4 * (u * u))) / 2 := by
  have hsqrt : 2 * u ≤ √(1 + 4 * (u * u)) := by
    refine Real.le_sqrt_of_sq_le ?_
    linarith [mul_pow 2 u 2, sq u]
  linarith

lemma Tame.weight {M : Momentum Exact} (h : M.Tame) :
    ∃ w ω, M.weight = .ok w ∧ w.Is ω ∧ 0 ≤ ω ∧ ω ≤ 1 := by
  cases M with
  | constant w =>
    cases w with
    | none => exact h.elim
    | some w =>
      obtain ⟨ω, hω, hpos, hle⟩ := h
      exact ⟨w, ω, rfl, hω, hpos.le, hle⟩
  | nesterov t =>
    obtain ⟨u, rfl, hu⟩ := h
    have hgrow := le_successor u
    have hpos : 0 < (1 + √(1 + 4 * (u * u))) / 2 := by linarith
    refine ⟨_, (u - 1) / ((1 + √(1 + 4 * (u * u))) / 2), rfl, ?_, ?_, ?_⟩
    · rw [one_eq, finite_sub, successor_finite, finite_div _ hpos.ne']
      exact Number.is_real _
    · exact div_nonneg (sub_nonneg.mpr hu) hpos.le
    · rw [div_le_one hpos]
      linarith
  | unspecified => exact h.elim

lemma Tame.advance {M : Momentum Exact} (h : M.Tame) : M.advance.Tame := by
  cases M with
  | constant w => exact h
  | nesterov t =>
    obtain ⟨u, rfl, hu⟩ := h
    exact ⟨_, successor_finite u, hu.trans (le_successor u)⟩
  | unspecified => exact h.elim

/-- Both methods start with a tame schedule, the plain one if its weight is at most one. -/
lemma tame_ofMethod {method : Method} {lambda : Value Exact} {M : Momentum Exact}
    (h : ofMethod method lambda = .ok M)
    (hplain : method = .plain → ∃ w ω, lambda = .number w ∧ w.Is ω ∧ ω ≤ 1) : M.Tame := by
  cases method with
  | accelerated =>
    cases h
    exact ⟨1, one_eq, le_refl 1⟩
  | plain =>
    obtain ⟨w, ω, rfl, hω, hle⟩ := hplain rfl
    rw [ofMethod, ofWeight] at h
    by_cases hpos : w.isPositive = true
    · rw [if_pos hpos] at h
      cases h
      exact ⟨ω, hω, (Number.isPositive_iff hω).mp hpos, hle⟩
    · rw [if_neg hpos] at h
      cases h

end Momentum

namespace IterationState

variable {b c : Backend} {lead : Shape} {m n r : ℕ} {s : IterationState Exact} {P : Problem m n}
  {β ν τ σ : ℝ} {x : Fin n → ℝ} {z : Fin m → ℝ}

/-! ## The setup -/

/-- The weights of a run lie between zero and one, if the constant one does not exceed one. -/
lemma start_tame {x₀ : Value Exact} {f : Option (Smooth Exact)}
    {terms : Option (List (TermArgument Exact))} {given : Parameters Exact}
    (h : start x₀ f terms given = .ok s)
    (hplain : s.method = .plain → ∃ w ω, given.withDefaults.get "lambda" = .number w ∧
      w.Is ω ∧ ω ≤ 1) : s.momentum.Tame :=
  Momentum.tame_ofMethod (start_ok h).2.2 hplain

/-! ## Runs -/

/-- One more iteration comes last. -/
lemma iterateMany_succ (k : ℕ) (s : IterationState Exact) {s' : IterationState Exact}
    (h : iterateMany k s = (s', .ok ())) : iterateMany (k + 1) s = s'.iterate := by
  induction k generalizing s with
  | zero =>
    rw [iterateMany, Prod.mk.injEq] at h
    rw [← h.1, iterateMany]
    rcases s.iterate with ⟨t, e | u⟩ <;> rfl
  | succ k ih =>
    rw [iterateMany] at h
    rcases hs : s.iterate with ⟨t, e | u⟩
    · rw [hs] at h
      cases h
    · rw [hs] at h
      rw [iterateMany, hs]
      exact ih t h

/-- What an iteration needs and preserves: the state makes sense for the problem, and where it
is. -/
structure Underway (s : IterationState Exact) (P : Problem m n) (b c : Backend) (lead : Shape)
    (r : ℕ) (τ σ : ℝ) (x : Fin n → ℝ) (z : Fin m → ℝ) : Prop where
  sound : s.Sound b c lead m n r
  problem_eq : s.problem lead m n r = P
  steps : s.HasSteps τ σ
  tame : s.momentum.Tame
  located : s.Located b c lead r x z

/-- The steps leave room for the curvature. -/
structure Balanced (P : Problem m n) (τ σ ν β : ℝ) : Prop where
  tau_ne_zero : τ ≠ 0
  sigma_pos : 0 < σ
  gap : 1 / τ - σ * ν = β / 2
  norm_le : ∀ a : Fin n → ℝ, (P.matrix *ᵥ a) ⬝ᵥ (P.matrix *ᵥ a) ≤ ν * (a ⬝ᵥ a)
  curved : P.smooth.CurvedAtMost β

lemma Balanced.energy_le {ω : ℝ} {p xs : Fin n → ℝ} {q zs : Fin m → ℝ} (h : Balanced P τ σ ν β)
    (hω : 0 ≤ ω) (hstep : P.IsStep τ σ x z p q) (hs : P.IsSaddle xs zs) :
    P.energy τ σ (x + ω • (p - x) - xs) (z + ω • (q - z) - zs)
      ≤ P.energy τ σ (x - xs) (z - zs) - ω * (1 - ω) * P.energy τ σ (x - p) (z - q) :=
  hstep.energy_le h.tau_ne_zero h.sigma_pos h.gap h.norm_le h.curved hω hs

lemma Balanced.energy_nonneg (h : Balanced P τ σ ν β) (hβ : 0 ≤ β) (a : Fin n → ℝ)
    (e : Fin m → ℝ) : 0 ≤ P.energy τ σ a e :=
  (mul_nonneg (by linarith) (Functional.dotProduct_self_nonneg a)).trans
    (Problem.energy_ge h.sigma_pos h.gap h.norm_le a e)

/-- One iteration keeps the state in order and does not move away from any saddle point. -/
lemma Underway.iterate (h : s.Underway P b c lead r τ σ x z) (hP : Balanced P τ σ ν β)
    (hβ : 0 ≤ β) (hsaddle : ∃ xs zs, P.IsSaddle xs zs) :
    ∃ s' x' z', s.iterate = (s', .ok ()) ∧ s'.Underway P b c lead r τ σ x' z' ∧
      ∀ xs zs, P.IsSaddle xs zs →
        P.energy τ σ (x' - xs) (z' - zs) ≤ P.energy τ σ (x - xs) (z - zs) := by
  obtain ⟨xs, zs, hs⟩ := hsaddle
  obtain ⟨w, ω, hw, hω, hω0, hω1⟩ := h.tame.weight
  have hprimal : (s.problem lead m n r).primal.domain.Nonempty := by
    rw [h.problem_eq]
    exact ⟨xs, hs.1.1⟩
  have hdual : (s.problem lead m n r).dual.domain.Nonempty := by
    rw [h.problem_eq]
    exact ⟨_, hs.2.1⟩
  obtain ⟨X, Z, A, B, p, q, hiterate, -, -, hstep, hloc⟩ :=
    iterate_eq h.sound h.steps hprimal hdual h.located hw hω
  rw [h.problem_eq] at hstep
  refine ⟨_, _, _, hiterate, ⟨h.sound.moved X Z A B w, h.problem_eq, h.steps, h.tame.advance, hloc⟩,
    fun xs' zs' hs' => ?_⟩
  have hdescent := hP.energy_le hω0 hstep hs'
  have hgain : 0 ≤ ω * (1 - ω) * P.energy τ σ (x - p) (z - q) :=
    mul_nonneg (mul_nonneg hω0 (sub_nonneg.mpr hω1)) (hP.energy_nonneg hβ _ _)
  linarith

/-- A run of any length goes through and keeps the state in order. -/
lemma Underway.iterateMany (h : s.Underway P b c lead r τ σ x z) (hP : Balanced P τ σ ν β)
    (hβ : 0 ≤ β) (hsaddle : ∃ xs zs, P.IsSaddle xs zs) (k : ℕ) :
    ∃ s' x' z', IterationState.iterateMany k s = (s', .ok ()) ∧
      s'.Underway P b c lead r τ σ x' z' := by
  induction k with
  | zero => exact ⟨s, x, z, rfl, h⟩
  | succ k ih =>
    obtain ⟨s₁, x₁, z₁, hrun, h₁⟩ := ih
    obtain ⟨s₂, x₂, z₂, hiterate, h₂, -⟩ := h₁.iterate hP hβ hsaddle
    exact ⟨s₂, x₂, z₂, (iterateMany_succ k s hrun).trans hiterate, h₂⟩

/-- Along a run the distance to every saddle point never grows. -/
lemma Underway.antitone (h : s.Underway P b c lead r τ σ x z) (hP : Balanced P τ σ ν β)
    (hβ : 0 ≤ β) (hsaddle : ∃ xs zs, P.IsSaddle xs zs) :
    ∃ (X : ℕ → Fin n → ℝ) (Z : ℕ → Fin m → ℝ),
      (∀ k, ∃ s', IterationState.iterateMany k s = (s', .ok ()) ∧
        s'.Located b c lead r (X k) (Z k)) ∧
      ∀ xs zs, P.IsSaddle xs zs → Antitone fun k => P.energy τ σ (X k - xs) (Z k - zs) := by
  choose t X Z hrun hunder using h.iterateMany hP hβ hsaddle
  refine ⟨X, Z, fun k => ⟨t k, hrun k, (hunder k).located⟩, fun xs zs hs => ?_⟩
  refine antitone_nat_of_succ_le fun k => ?_
  obtain ⟨s', x', z', hiterate, h', hle⟩ := (hunder k).iterate hP hβ hsaddle
  have hnext := (iterateMany_succ k s (hrun k)).trans hiterate
  rw [hrun (k + 1), Prod.mk.injEq] at hnext
  obtain ⟨hx, hz⟩ := (hunder (k + 1)).located.unique (hnext.1 ▸ h'.located)
  rw [hx, hz]
  exact hle xs zs hs

/--
**The iteration approaches every saddle point.**  The steps come from the step-size rule, where not
both were pinned, `nu` bounds the squared norm of the operator, and the curvature bounds that of the
smooth functional.
-/
theorem iterate_approaches_saddles {nu : Number Exact} {tau₀ sigma₀ : Value Exact}
    (hs : s.Sound b c lead m n r) (hβ : s.smooth.CurvedAtMost lead n r β) (hν : nu.Is ν)
    (hnorm : ∀ a : Fin n → ℝ, ((s.problem lead m n r).matrix *ᵥ a) ⬝ᵥ
      ((s.problem lead m n r).matrix *ᵥ a) ≤ ν * (a ⬝ᵥ a))
    (hfree : tau₀ = .null ∨ sigma₀ = .null)
    (hsteps : stepSizes (.number (.real s.smooth.curvature)) (.number nu) tau₀ sigma₀
      = .ok (s.tau, s.sigma))
    (hσ : ∃ k, s.sigma = .number k ∧ k.Is σ ∧ 0 < σ) (hloc : s.Located b c lead r x z) :
    ∃ τ, s.HasSteps τ σ ∧
      (∀ a e, 0 ≤ (s.problem lead m n r).energy τ σ a e) ∧
      (∀ w ω xs zs, s.momentum.weight = .ok w → w.Is ω → 0 ≤ ω → ω ≤ 1 →
        (s.problem lead m n r).IsSaddle xs zs →
        ∃ s' x' z' p q, s.iterate = (s', .ok ()) ∧ s'.Located b c lead r x' z' ∧
          s'.p.Holds b lead n r p ∧ s'.q.Holds c lead m r q ∧
          (s.problem lead m n r).energy τ σ (x' - xs) (z' - zs)
            ≤ (s.problem lead m n r).energy τ σ (x - xs) (z - zs)
              - ω * (1 - ω) * (s.problem lead m n r).energy τ σ (x - p) (z - q)) ∧
      (s.momentum.Tame → (∃ xs zs, (s.problem lead m n r).IsSaddle xs zs) →
        ∃ (X : ℕ → Fin n → ℝ) (Z : ℕ → Fin m → ℝ),
          (∀ k, ∃ s', IterationState.iterateMany k s = (s', .ok ()) ∧
            s'.Located b c lead r (X k) (Z k)) ∧
          ∀ xs zs, (s.problem lead m n r).IsSaddle xs zs →
            Antitone fun k => (s.problem lead m n r).energy τ σ (X k - xs) (Z k - zs)) := by
  obtain ⟨k, hk, hkσ, hσpos⟩ := hσ
  obtain ⟨hcurvature, hβ0, hcurved⟩ := hβ
  rw [hcurvature, hk] at hsteps
  obtain ⟨-, t, τ, ht, htτ, hτpos, hgap⟩ := stepSizes_gap hβ0 hν hkσ hσpos hfree hsteps
  have hhas : s.HasSteps τ σ := ⟨⟨t, ht, htτ, hτpos⟩, k, hk, hkσ, hσpos⟩
  have hsmooth : (s.problem lead m n r).smooth = s.smooth.fitting lead n r := by
    rw [hs.problem_eq]
  have hP : Balanced (s.problem lead m n r) τ σ ν β :=
    ⟨hτpos.ne', hσpos, hgap, hnorm, hsmooth ▸ hcurved⟩
  refine ⟨τ, hhas, hP.energy_nonneg hβ0, ?_, ?_⟩
  · intro w ω xs zs hw hω hω0 _ hsaddle
    obtain ⟨X, Z, A, B, p, q, hiterate, hA, hB, hstep, hloc'⟩ :=
      iterate_eq hs hhas ⟨xs, hsaddle.1.1⟩ ⟨_, hsaddle.2.1⟩ hloc hw hω
    exact ⟨_, _, _, p, q, hiterate, hloc', hA, hB, hP.energy_le hω0 hstep hsaddle⟩
  · intro htame hsaddle
    exact Underway.antitone ⟨hs, rfl, hhas, htame, hloc⟩ hP hβ0 hsaddle

/-- The steps of the small problem are those of the step-size rule. -/
lemma sampleState_steps (M : Momentum Exact) (y : ℝ) :
    stepSizes (.number (.real (sampleState M y).smooth.curvature)) (.number (.int 1)) .null .null
      = .ok ((sampleState M y).tau, (sampleState M y).sigma) := by
  have hnu : (Number.int 1 : Number Exact).isPositive = true :=
    (Number.isPositive_iff (Number.is_int 1)).mpr (by norm_num)
  have hbeta : (Number.real (finite 1)).isPositive = true :=
    (Number.isPositive_iff (Number.is_real 1)).mpr one_pos
  have hbounded : (Number.real (finite 1)).isBounded = true := rfl
  have hone : (Number.real (finite 1)).isZero = false := by
    rw [← Bool.not_eq_true, Number.isZero_iff (Number.is_real 1)]
    exact one_ne_zero
  have htwo : (Number.int 2 : Number Exact).isZero = false := by
    rw [← Bool.not_eq_true, Number.isZero_iff (Number.is_int 2)]
    norm_num
  simp [sampleState, stepSizes, readNu, hnu, freeSteps, hbeta, hbounded, Number.div, hone, htwo,
    Number.whole?, Number.toReal, bind, Except.bind, Value.asNumber, pure, Except.pure, Number.mul,
    Number.combine, finite_div, one_add_one_eq_two]

/-- Its smooth functional is the least-squares functional without data and without an operator. -/
lemma sampleState_smooth (M : Momentum Exact) (y : ℝ) :
    Smooth.leastSquares .null .absent = .ok (sampleState M y).smooth := by
  show ((Number.real (Scalar.one : Exact)).square >>= fun squared =>
    pure (⟨.leastSquares .anyIdentity .null, none, squared.value⟩ : Smooth Exact)) = _
  rw [one_eq, Number.square_finite, one_mul]
  rfl

/-- The accelerated iteration on the small problem, begun at three. -/
theorem sample_approaches_saddle : ∃ τ, (sampleState .accelerated 3).HasSteps τ (1 / 2) ∧
    ∃ (X : ℕ → Fin 1 → ℝ) (Z : ℕ → Fin 1 → ℝ),
      (∀ k, ∃ s', IterationState.iterateMany k (sampleState .accelerated 3) = (s', .ok ()) ∧
        s'.Located .memory .memory [] 0 (X k) (Z k)) ∧
      Antitone fun k =>
        ((sampleState .accelerated 3).problem [] 1 1 0).energy τ (1 / 2) (X k - 0) (Z k - 0) := by
  have hle (a : Fin 1 → ℝ) : ((LinearRule.identity : LinearRule Exact).matrix 1 1 *ᵥ a) ⬝ᵥ
      ((LinearRule.identity : LinearRule Exact).matrix 1 1 *ᵥ a) ≤ 1 * (a ⬝ᵥ a) := by
    rw [LinearRule.matrix_identity, one_mulVec, one_mul]
  have hcurved : (sampleState .accelerated 3).smooth.CurvedAtMost [] 1 0 (1 ^ 2) :=
    Smooth.leastSquares_curved (sampleState_smooth .accelerated 3) rfl one_eq fun a => by
      rw [one_pow]
      exact hle a
  rw [one_pow] at hcurved
  have hnorm (a : Fin 1 → ℝ) : (((sampleState .accelerated 3).problem [] 1 1 0).matrix *ᵥ a) ⬝ᵥ
      (((sampleState .accelerated 3).problem [] 1 1 0).matrix *ᵥ a) ≤ 1 * (a ⬝ᵥ a) := hle a
  have hν : (Number.int 1 : Number Exact).Is 1 := by
    have h := Number.is_int 1
    rwa [Int.cast_one] at h
  obtain ⟨τ, hsteps, -, -, hrun⟩ := iterate_approaches_saddles
    (sampleState_sound .accelerated 3) hcurved hν hnorm (Or.inl rfl)
    (sampleState_steps .accelerated 3)
    ⟨_, sampleState_sigma _ 3, Number.is_real (1 / 2), one_half_pos⟩
    (sampleState_located .accelerated 3)
  obtain ⟨X, Z, hXZ, hmono⟩ := hrun ⟨1, one_eq, le_refl 1⟩
    ⟨0, 0, sampleState_isSaddle .accelerated 3⟩
  exact ⟨τ, hsteps, X, Z, hXZ, hmono 0 0 (sampleState_isSaddle .accelerated 3)⟩

end IterationState

end PrimalDual
