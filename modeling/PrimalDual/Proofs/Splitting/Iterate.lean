import PrimalDual.Proofs.Functional.Proximable
import PrimalDual.Splitting.Iteration

/-!
# One iteration at a point of a stack

The state of the iteration holds a stack of points and a stack of dual points, which an iteration
treats one by one.  At each of them the two terms and the smooth functional pose a problem of real
numbers, and the iteration moves the point toward the two proximal points of this problem.

The problem is read off the terms as the caller gave them: the term that carries an operator is the
one that is composed with it.  Which term the iteration handles on which side is its own choice, and
has to agree.

* `posedProblem` — the problem at a point.
* `IterationState.Sound` — the state makes sense: sizes fit, and results live where they are stored.
* `IterationState.Located` — where the iteration is.
* **`proximalPoints_isStep`** — the proximal points are those of the problem.
* **`iterate_eq`** — one iteration.
* **`objective_reports`** — the objective.
-/

namespace PrimalDual

open Exact NdArray Matrix

variable {b c : Backend} {lead : Shape} {m n r : ℕ}

/-- The problem that a smooth functional and two terms pose at point `r` of a stack. -/
noncomputable def posedProblem (f : Smooth Exact) (first second : Proximable Exact) (lead : Shape)
    (m n r : ℕ) : Problem m n :=
  match first.operator with
  | some K =>
    ⟨f.fitting lead n r, second.functional lead n r, first.functional lead m r, K.rule.matrix m n⟩
  | none =>
    ⟨f.fitting lead n r, first.functional lead n r, second.functional lead m r,
      (second.operator.getD .anyIdentity).rule.matrix m n⟩

namespace IterationState

/-- The problem at point `r`. -/
noncomputable def problem (s : IterationState Exact) (lead : Shape) (m n r : ℕ) : Problem m n :=
  posedProblem s.smooth s.first s.second lead m n r

/--
The state makes sense for points of size `n` on `b` and dual points of size `m` on `c`, stacked
along the axes `lead`.  An array in memory is changed in place and cannot take what is chunked, so
the last four conditions say that no result lives elsewhere than where it is stored.
-/
structure Sound (s : IterationState Exact) (b c : Backend) (lead : Shape) (m n r : ℕ) : Prop where
  sides : chooseSides s.first s.second = .ok (s.order, s.operator)
  operator : s.operator.rule.Acts m n
  smooth : s.smooth.Fits lead n r
  primal : s.primalTerm.Fits lead n
  dual : s.dualTerm.Fits lead m
  primal_stays : s.primalTerm.Stays b
  dual_stays : s.dualTerm.Stays c
  slope_stays : b.join (s.smooth.landing b) = b
  back_stays : b.join (s.operator.rule.landing c) = b
  forth_stays : c.join (s.operator.rule.landing b) = c

/-- Both steps are positive real numbers. -/
def HasSteps (s : IterationState Exact) (τ σ : ℝ) : Prop :=
  (∃ t, s.tau = .number t ∧ t.Is τ ∧ 0 < τ) ∧ ∃ t, s.sigma = .number t ∧ t.Is σ ∧ 0 < σ

/-- The iteration is at `x` and `z`, as far as point `r` is concerned. -/
structure Located (s : IterationState Exact) (b c : Backend) (lead : Shape) (r : ℕ)
    (x : Fin n → ℝ) (z : Fin m → ℝ) : Prop where
  point : s.x.Holds b lead n r x
  dual : s.z.Holds c lead m r z

variable {s : IterationState Exact} {τ σ : ℝ} {x p : Fin n → ℝ} {z q : Fin m → ℝ}

lemma Located.unique {x' : Fin n → ℝ} {z' : Fin m → ℝ} (h : s.Located b c lead r x z)
    (h' : s.Located b c lead r x' z') : x = x' ∧ z = z' :=
  ⟨h.point.eq h'.point, h.dual.eq h'.dual⟩

/-- The iteration handles the two terms on the sides where the problem has them. -/
lemma Sound.problem_eq (h : s.Sound b c lead m n r) : s.problem lead m n r
    = ⟨s.smooth.fitting lead n r, s.primalTerm.functional lead n r, s.dualTerm.functional lead m r,
        s.operator.rule.matrix m n⟩ := by
  have hsides := h.sides
  rw [chooseSides] at hsides
  rw [problem, posedProblem, primalTerm, dualTerm]
  rcases hfirst : s.first.operator with _ | K
  · rw [hfirst] at hsides
    rcases hsecond : s.second.operator with _ | K
    · simp only [hsecond, Except.ok.injEq, Prod.mk.injEq] at hsides
      rw [← hsides.1, ← hsides.2]
      rfl
    · simp only [hsecond, Except.ok.injEq, Prod.mk.injEq] at hsides
      rw [← hsides.1, ← hsides.2]
      rfl
  · rw [hfirst] at hsides
    rcases hsecond : s.second.operator with _ | K'
    · simp only [hsecond, Except.ok.injEq, Prod.mk.injEq] at hsides
      rw [← hsides.1, ← hsides.2]
    · simp only [hsecond] at hsides
      cases hsides

/-! ## The proximal points -/

lemma primalPoint_holds (h : s.Sound b c lead m n r) (hsteps : s.HasSteps τ σ)
    (hloc : s.Located b c lead r x z) :
    Yields s.primalPoint (·.Holds b lead n r (x - τ • ((s.problem lead m n r).smooth.slope x
      + (s.problem lead m n r).matrixᵀ *ᵥ z))) := by
  obtain ⟨⟨t, ht, htτ, -⟩, -⟩ := hsteps
  rw [h.problem_eq]
  refine (Smooth.gradient_holds h.smooth hloc.point).bind fun g hg => ?_
  refine (adjointMap_holds s.operator h.operator hloc.dual).bind fun k hk => ?_
  refine (hg.add hk).bind fun d hd => ?_
  rw [ht]
  refine (hd.scale htτ).bind fun e he => ?_
  have hsub := hloc.point.sub he
  rwa [Backend.join_absorb h.slope_stays h.back_stays] at hsub

lemma dualPoint_holds (h : s.Sound b c lead m n r) (hsteps : s.HasSteps τ σ)
    (hloc : s.Located b c lead r x z) {P : NdArray Exact} (hP : P.Holds b lead n r p) :
    Yields (s.dualPoint P) (·.Holds c lead m r
      (z + σ • ((s.problem lead m n r).matrix *ᵥ ((2 : ℝ) • p - x)))) := by
  obtain ⟨-, t, ht, htσ, -⟩ := hsteps
  rw [h.problem_eq]
  refine (hP.scale (Number.is_int 2)).bind fun d hd => ?_
  rw [Int.cast_ofNat] at hd
  refine (hd.sub hloc.point).bind fun e he => ?_
  rw [Backend.join_self] at he
  refine (map_holds s.operator h.operator he).bind fun k hk => ?_
  rw [ht]
  refine (hk.scale htσ).bind fun u hu => ?_
  have hadd := hloc.dual.add hu
  rwa [h.forth_stays] at hadd

/-- **The proximal points are those of the problem**, when both terms are finite somewhere. -/
theorem proximalPoints_isStep (h : s.Sound b c lead m n r) (hsteps : s.HasSteps τ σ)
    (hprimal : (s.problem lead m n r).primal.domain.Nonempty)
    (hdual : (s.problem lead m n r).dual.domain.Nonempty) (hloc : s.Located b c lead r x z) :
    Yields s.proximalPoints fun pq => ∃ p q, pq.1.Holds b lead n r p ∧ pq.2.Holds c lead m r q ∧
      (s.problem lead m n r).IsStep τ σ x z p q := by
  obtain ⟨⟨t, ht, htτ, hτ⟩, k, hk, hkσ, hσ⟩ := hsteps
  have hsteps : s.HasSteps τ σ := ⟨⟨t, ht, htτ, hτ⟩, k, hk, hkσ, hσ⟩
  rw [h.problem_eq] at hprimal hdual
  rw [proximalPoints, ht, hk]
  refine (primalPoint_holds h hsteps hloc).bind fun u hu => ?_
  refine (Proximable.prox_isProx h.primal h.primal_stays hprimal htτ hτ hu).bind fun P hP => ?_
  obtain ⟨p, hp, hprox⟩ := hP
  refine (dualPoint_holds h hsteps hloc hp).bind fun v hv => ?_
  refine (Proximable.conjugateProx_isConjugateProx h.dual h.dual_stays hdual hkσ hσ hv).bind
    fun Q hQ => ?_
  obtain ⟨q, hq, hconj⟩ := hQ
  refine Yields.pure ⟨p, q, hp, hq, ?_⟩
  rw [h.problem_eq] at hprox hconj ⊢
  exact ⟨hprox, hconj⟩

/-! ## The move -/

/-- A point is moved toward another one by the part `w`. -/
lemma relax_holds {w : Number Exact} {ω : ℝ} {a d : NdArray Exact} {u v : Fin n → ℝ} (hw : w.Is ω)
    (ha : a.Holds b lead n r u) (hd : d.Holds b lead n r v) :
    Yields (relax w a d) (·.Holds b lead n r (u + ω • (v - u))) := by
  refine (hd.sub ha).bind fun e he => (he.scale hw).bind fun f hf => ?_
  exact ha.updateAdd hf (by rw [Backend.join_self, Backend.join_self])

/-- The state after an iteration. -/
noncomputable def moved (s : IterationState Exact) (x z p q : NdArray Exact) (w : Number Exact) :
    IterationState Exact :=
  { s with
    momentum := s.momentum.advance, x := x, z := z, p := p, q := q, dual := z, weight := some w }

/-- An iteration leaves the problem as it is. -/
lemma Sound.moved (h : s.Sound b c lead m n r) (x z p q : NdArray Exact) (w : Number Exact) :
    (s.moved x z p q w).Sound b c lead m n r :=
  ⟨h.sides, h.operator, h.smooth, h.primal, h.dual, h.primal_stays, h.dual_stays, h.slope_stays,
    h.back_stays, h.forth_stays⟩

/-- **One iteration** moves the point and the dual point toward the proximal points. -/
theorem iterate_eq (h : s.Sound b c lead m n r) (hsteps : s.HasSteps τ σ)
    (hprimal : (s.problem lead m n r).primal.domain.Nonempty)
    (hdual : (s.problem lead m n r).dual.domain.Nonempty) (hloc : s.Located b c lead r x z)
    {w : Number Exact} {ω : ℝ} (hw : s.momentum.weight = .ok w) (hω : w.Is ω) :
    ∃ X Z P Q p q, s.iterate = (s.moved X Z P Q w, .ok ()) ∧
      P.Holds b lead n r p ∧ Q.Holds c lead m r q ∧ (s.problem lead m n r).IsStep τ σ x z p q ∧
      (s.moved X Z P Q w).Located b c lead r (x + ω • (p - x)) (z + ω • (q - z)) := by
  obtain ⟨⟨P, Q⟩, hPQ, p, q, hP, hQ, hstep⟩ := proximalPoints_isStep h hsteps hprimal hdual hloc
  obtain ⟨X, hX, hX'⟩ := relax_holds hω hloc.point hP
  obtain ⟨Z, hZ, hZ'⟩ := relax_holds hω hloc.dual hQ
  refine ⟨X, Z, P, Q, p, q, ?_, hP, hQ, hstep, hX', hZ'⟩
  simp only [iterate, hPQ, hw, hX, hZ]
  rfl

/-! ## The objective -/

/-- **The objective** is that of the problem, infinite where the point is not feasible. -/
theorem objective_reports (h : s.Sound b c lead m n r) (hx : s.x.Holds b lead n r x) :
    Yields s.objective (·.Reports lead r ((s.problem lead m n r).report x)) := by
  rw [h.problem_eq]
  refine (Smooth.value_holds h.smooth hx).bind fun f hf => ?_
  obtain ⟨_, hf⟩ := hf
  refine (Proximable.value_reports h.primal hx).bind fun g hg => ?_
  refine (hf.reports.add hg).bind fun fg hfg => ?_
  refine (map_holds s.operator h.operator hx).bind fun k hk => ?_
  refine (Proximable.value_reports h.dual hk).bind fun e he => ?_
  rw [Problem.report_eq]
  exact hfg.add he

/-! ## A small problem

Minimise half the square of one number plus its magnitude, subject to the number not being negative,
with the steps that go with the curvature.  The origin is a saddle point.
-/

/-- One number. -/
noncomputable def samplePoint (y : ℝ) : NdArray Exact :=
  .tabulate .memory [1] .double fun _ => finite y

/-- The iteration at some number, not yet begun. -/
noncomputable def sampleState (M : Momentum Exact) (y : ℝ) : IterationState Exact where
  smooth := ⟨.leastSquares .anyIdentity .null, none, finite 1⟩
  first := .plain .absolute none none
  second := .scaled (finite (1 + 1)) (.plain .orthant none none) none
  tau := .number (.real (finite 1))
  sigma := .number (.real (finite (1 / (1 + 1))))
  method := .plain
  momentum := M
  order := .direct
  operator := .anyIdentity
  x := samplePoint y
  z := samplePoint y
  p := samplePoint y
  q := (samplePoint y).zerosLike
  dual := samplePoint y
  weight := none

lemma samplePoint_holds (y : ℝ) : (samplePoint y).Holds .memory [] 1 0 fun _ => y where
  lt := Nat.one_pos
  backend_eq := rfl
  shape_eq := rfl
  real := rfl
  row j := realAt_tabulate _ _ _ _ _ (by rw [zero_mul, zero_add]; exact j.isLt)

lemma sampleState_located (M : Momentum Exact) (y : ℝ) :
    (sampleState M y).Located .memory .memory [] 0 (fun _ : Fin 1 => y) fun _ : Fin 1 => y :=
  ⟨samplePoint_holds y, samplePoint_holds y⟩

lemma sampleState_sound (M : Momentum Exact) (y : ℝ) :
    (sampleState M y).Sound .memory .memory [] 1 1 0 where
  sides := rfl
  operator := rfl
  smooth := ⟨rfl, Or.inl rfl⟩
  primal := trivial
  dual := ⟨⟨1 + 1, rfl, by norm_num⟩, trivial⟩
  primal_stays := trivial
  dual_stays := trivial
  slope_stays := rfl
  back_stays := rfl
  forth_stays := rfl

lemma sampleState_sigma (M : Momentum Exact) (y : ℝ) :
    (sampleState M y).sigma = .number (.real (finite (1 / 2))) := by
  rw [sampleState, one_add_one_eq_two]

lemma sampleState_hasSteps (M : Momentum Exact) (y : ℝ) : (sampleState M y).HasSteps 1 (1 / 2) :=
  ⟨⟨_, rfl, Number.is_real 1, one_pos⟩, _, sampleState_sigma M y, Number.is_real (1 / 2),
    one_half_pos⟩

lemma sampleState_isSaddle (M : Momentum Exact) (y : ℝ) :
    ((sampleState M y).problem [] 1 1 0).IsSaddle 0 0 := by
  have hslope : ((sampleState M y).smooth.fitting [] 1 0).slope 0 = 0 := by
    have hdata : ((sampleState M y).smooth.fitting [] 1 0).data = 0 := rfl
    rw [Fitting.slope, Fitting.residual, hdata, mulVec_zero, sub_zero, mulVec_zero]
  rw [(sampleState_sound M y).problem_eq]
  constructor
  · refine ⟨trivial, fun w _ => ?_⟩
    show (Functional.magnitudes 1).height 0
      + (-((sampleState M y).smooth.fitting [] 1 0).slope 0 - _ *ᵥ 0) ⬝ᵥ (w - 0)
      ≤ (Functional.magnitudes 1).height w
    rw [hslope, mulVec_zero, neg_zero, sub_zero, zero_dotProduct]
    simp [Functional.magnitudes]
  · refine ⟨fun j => ?_, fun w _ => ?_⟩
    · show _ ∈ Set.Ici (0 : ℝ)
      rw [mulVec_zero]
      exact Set.mem_Ici.mpr (le_refl 0)
    · rw [zero_dotProduct, add_zero]
      exact le_refl _

end IterationState

end PrimalDual
