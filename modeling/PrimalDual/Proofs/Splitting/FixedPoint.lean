import PrimalDual.Proofs.Splitting.Iterate

/-!
# Where the iteration stands still

A point that one iteration leaves unchanged solves the problem, and a saddle point is left
unchanged, whatever the steps and the weight are.  Both follow from the proximal points: they are
the point itself exactly at a saddle.

A box may be empty; then the objective is infinite everywhere and there is nothing to show.

* **`fixed_points_solve`** — both directions.
-/

namespace PrimalDual.IterationState

open Exact NdArray Matrix

variable {b c : Backend} {lead : Shape} {m n r : ℕ} {s : IterationState Exact} {τ σ : ℝ}
  {x : Fin n → ℝ} {z : Fin m → ℝ}

/-- A part of the way leads nowhere only when there is nowhere to go. -/
lemma eq_of_add_smul_sub_eq {u v : Fin n → ℝ} {ω : ℝ} (hω : ω ≠ 0) (h : u + ω • (v - u) = u) :
    v = u := by
  have hzero : ω • (v - u) = 0 := by
    rwa [add_eq_left] at h
  rcases smul_eq_zero.mp hzero with h0 | h0
  · exact absurd h0 hω
  · exact sub_eq_zero.mp h0

/-- A point that one iteration leaves unchanged is a saddle, when both terms are finite
somewhere. -/
lemma isSaddle_of_fixed (hs : s.Sound b c lead m n r) (hsteps : s.HasSteps τ σ)
    (hprimal : (s.problem lead m n r).primal.domain.Nonempty)
    (hdual : (s.problem lead m n r).dual.domain.Nonempty) (hloc : s.Located b c lead r x z)
    {w : Number Exact} {ω : ℝ} (hw : s.momentum.weight = .ok w) (hω : w.Is ω) (hω0 : ω ≠ 0)
    {s' : IterationState Exact} (hiterate : s.iterate = (s', .ok ()))
    (hfixed : s'.Located b c lead r x z) : (s.problem lead m n r).IsSaddle x z := by
  obtain ⟨⟨t, ht, htτ, hτ⟩, k, hk, hkσ, hσ⟩ := hsteps
  obtain ⟨X, Z, A, B, p, q, hmoved, -, -, hstep, hloc'⟩ :=
    iterate_eq hs ⟨⟨t, ht, htτ, hτ⟩, k, hk, hkσ, hσ⟩ hprimal hdual hloc hw hω
  rw [hiterate, Prod.mk.injEq] at hmoved
  obtain ⟨hx, hz⟩ := hloc'.unique (hmoved.1 ▸ hfixed)
  rw [eq_of_add_smul_sub_eq hω0 hx, eq_of_add_smul_sub_eq hω0 hz] at hstep
  exact (Problem.isStep_self_iff hτ.ne' hσ.ne').mp hstep

/-- The primal part of a saddle point has the smallest objective, infinite ones included; so has
every point where a term is infinite everywhere. -/
lemma report_le {P : Problem m n} (h : P.primal.domain.Nonempty → P.dual.domain.Nonempty →
    P.IsSaddle x z) (y : Fin n → ℝ) : Scalar.atMost (P.report x) (P.report y) = true := by
  by_cases hy : y ∈ P.feasible
  · have hsaddle := h ⟨y, hy.1⟩ ⟨_, hy.2⟩
    rw [Problem.report, if_pos hsaddle.feasible, Problem.report, if_pos hy, atMost_finite,
      decide_eq_true_eq]
    exact hsaddle.minimises hy
  · rw [Problem.report, Problem.report, if_neg hy]
    split <;> rfl

/-- **The iteration stands still exactly where the problem is solved.** -/
theorem fixed_points_solve (hs : s.Sound b c lead m n r) (hsteps : s.HasSteps τ σ)
    (hloc : s.Located b c lead r x z) :
    (∀ w ω s', s.momentum.weight = .ok w → w.Is ω → ω ≠ 0 → s.iterate = (s', .ok ()) →
      s'.Located b c lead r x z → ∀ y a, y.Holds b lead n r a →
        ∃ here there, s.objective = .ok here ∧ { s with x := y }.objective = .ok there ∧
          Scalar.atMost (here.realAt r) (there.realAt r) = true) ∧
      ((s.problem lead m n r).IsSaddle x z →
        (∃ P Q, s.proximalPoints = .ok (P, Q) ∧ P.Holds b lead n r x ∧ Q.Holds c lead m r z) ∧
          ∀ w ω, s.momentum.weight = .ok w → w.Is ω →
            ∃ s', s.iterate = (s', .ok ()) ∧ s'.Located b c lead r x z) := by
  constructor
  · intro w ω s' hw hω hω0 hiterate hfixed y a hy
    obtain ⟨here, hhere, hreport⟩ := objective_reports hs hloc.point
    have hs' : { s with x := y }.Sound b c lead m n r :=
      ⟨hs.sides, hs.operator, hs.smooth, hs.primal, hs.dual, hs.primal_stays, hs.dual_stays,
        hs.slope_stays, hs.back_stays, hs.forth_stays⟩
    obtain ⟨there, hthere, hreport'⟩ := objective_reports hs' hy
    refine ⟨here, there, hhere, hthere, ?_⟩
    rw [hreport.realAt_eq, hreport'.realAt_eq]
    refine report_le (z := z) (fun hprimal hdual => ?_) a
    exact isSaddle_of_fixed hs hsteps hprimal hdual hloc hw hω hω0 hiterate hfixed
  · intro hsaddle
    obtain ⟨⟨t, ht, htτ, hτ⟩, k, hk, hkσ, hσ⟩ := hsteps
    have hhas : s.HasSteps τ σ := ⟨⟨t, ht, htτ, hτ⟩, k, hk, hkσ, hσ⟩
    have hself := (Problem.isStep_self_iff hτ.ne' hσ.ne').mpr hsaddle
    have hprimal : (s.problem lead m n r).primal.domain.Nonempty := ⟨x, hsaddle.1.1⟩
    have hdual : (s.problem lead m n r).dual.domain.Nonempty := ⟨_, hsaddle.2.1⟩
    constructor
    · obtain ⟨⟨P, Q⟩, hPQ, p, q, hp, hq, hstep⟩ :=
        proximalPoints_isStep hs hhas hprimal hdual hloc
      obtain ⟨rfl, rfl⟩ := hstep.unique hτ hσ hself
      exact ⟨P, Q, hPQ, hp, hq⟩
    · intro w ω hw hω
      obtain ⟨X, Z, A, B, p, q, hiterate, -, -, hstep, hloc'⟩ :=
        iterate_eq hs hhas hprimal hdual hloc hw hω
      obtain ⟨rfl, rfl⟩ := hstep.unique hτ hσ hself
      rw [sub_self, sub_self, smul_zero, smul_zero, add_zero, add_zero] at hloc'
      exact ⟨_, hiterate, hloc'⟩

/-- At its saddle point the small problem is solved and the iteration stands still. -/
theorem sample_stands_still :
    ∃ s', (sampleState (.constant (some (.real (finite (1 / 2))))) 0).iterate = (s', .ok ()) ∧
      s'.Located .memory .memory [] 0 (0 : Fin 1 → ℝ) (0 : Fin 1 → ℝ) ∧
      ∀ y a, y.Holds .memory [] 1 0 a → ∃ here there,
        (sampleState (.constant (some (.real (finite (1 / 2))))) 0).objective = .ok here ∧
        { sampleState (.constant (some (.real (finite (1 / 2))))) 0 with x := y }.objective
          = .ok there ∧
        Scalar.atMost (here.realAt 0) (there.realAt 0) = true := by
  have hfixed := fixed_points_solve
    (sampleState_sound (.constant (some (.real (finite (1 / 2))))) 0)
    (sampleState_hasSteps _ 0) (sampleState_located _ 0)
  obtain ⟨-, hstay⟩ := hfixed.2 (sampleState_isSaddle _ 0)
  obtain ⟨s', hiterate, hloc⟩ := hstay _ (1 / 2) rfl (Number.is_real _)
  exact ⟨s', hiterate, hloc,
    hfixed.1 _ (1 / 2) s' rfl (Number.is_real _) (by norm_num) hiterate hloc⟩

end PrimalDual.IterationState
