import Mathlib.Tactic.FieldSimp
import Mathlib.Tactic.Linarith
import PrimalDual.Proofs.Exact.Number
import PrimalDual.Splitting.StepSize

/-!
# The steps that are not pinned

Unless both steps are pinned, `1/τ - σ ν = β/2`: the primal step leaves exactly the room that the
dual step and the curvature take.  The three ways to come by the steps are three ways to solve this
equation.

* `freeSteps_yields`, `dualStep_eq`, `primalStep_yields` — the formula of each way.
* `freeSteps_gap`, `dualStep_gap`, `primalStep_gap` — the equation, solved for what is not pinned.
* `stepSizes_ok` — which of the three ways is taken.
* **`stepSizes_gap`** — the equation, for all steps that are not both pinned.
-/

namespace PrimalDual

open Number

variable {beta nu tau sigma : Number Exact} {β ν τ σ : ℝ}

/-- A real number is below infinity. -/
lemma isBounded_eq_true (hβ : beta.Is β) : beta.isBounded = true := by
  rw [isBounded, below, isNan_eq_false hβ, atMost_eq, hβ]
  rfl

/-- Both steps free: `τ = 1/β` and `σ = β/(2ν)`. -/
lemma freeSteps_yields (hβ : beta.Is β) (hβ0 : 0 < β) (hν : nu.Is ν) (hν0 : 0 < ν) :
    Yields (freeSteps beta nu) fun s => s.1.Is (1 / β) ∧ s.2.Is (β / (2 * ν)) := by
  have hbounds : (beta.isPositive && beta.isBounded) = true := by
    rw [Bool.and_eq_true]
    exact ⟨(isPositive_iff hβ).mpr hβ0, isBounded_eq_true hβ⟩
  rw [freeSteps, if_pos hbounds]
  refine (div_yields is_one hβ hβ0.ne').bind fun t ht => ?_
  refine (mul_yields is_two hν).bind fun w hw => ?_
  refine (div_yields hβ hw (by positivity)).bind fun s hs => ?_
  exact Yields.pure ⟨ht, hs⟩

/-- The primal step pinned: `σ = (1/τ - β/2)/ν`, unless that is negative. -/
lemma dualStep_eq (hβ : beta.Is β) (hν : nu.Is ν) (hν0 : 0 < ν) (hτ : tau.Is τ) (hτ0 : 0 < τ) :
    ∃ s : Number Exact, s.Is ((1 / τ - β / 2) / ν) ∧ dualStep beta nu tau
      = if s.below (.int 0) then do
          let limit ← (Number.int 2).div beta
          throw (.tauTooLarge tau.text limit.text)
        else pure s := by
  obtain ⟨i, hi, hi'⟩ := div_yields is_one hτ hτ0.ne'
  obtain ⟨b, hb, hb'⟩ := div_yields hβ is_two two_ne_zero
  obtain ⟨g, hg, hg'⟩ := sub_yields hi' hb'
  obtain ⟨s, hs, hs'⟩ := div_yields hg' hν hν0.ne'
  refine ⟨s, hs', ?_⟩
  rw [dualStep, hi]
  simp only [bind, Except.bind, hb, hg, hs]

/-- The dual step pinned: `τ = 1/(σν + β/2)`. -/
lemma primalStep_yields (hβ : beta.Is β) (hβ0 : 0 ≤ β) (hν : nu.Is ν) (hν0 : 0 < ν)
    (hσ : sigma.Is σ) (hσ0 : 0 < σ) :
    Yields (primalStep beta nu sigma) (·.Is (1 / (σ * ν + β / 2))) := by
  have hsum : 0 < σ * ν + β / 2 := by positivity
  rw [primalStep, if_pos (isBounded_eq_true hβ)]
  refine (mul_yields hσ hν).bind fun product hproduct => ?_
  refine (div_yields hβ is_two two_ne_zero).bind fun half hhalf => ?_
  refine (add_yields hproduct hhalf).bind fun total htotal => ?_
  exact div_yields is_one htotal hsum.ne'

/-! ## The equation -/

/-- Both steps free. -/
lemma freeSteps_gap (hβ : beta.Is β) (hν : nu.Is ν) (hpos : 0 < ν)
    (h : freeSteps beta nu = .ok (tau, sigma)) :
    ∃ τ σ, tau.Is τ ∧ sigma.Is σ ∧ 0 < τ ∧ 1 / τ - σ * ν = β / 2 := by
  have hβ0 : 0 < β := by
    by_contra hnot
    rw [← isPositive_iff hβ] at hnot
    rw [freeSteps, Bool.eq_false_iff.mpr hnot] at h
    cases h
  obtain ⟨ht, hs⟩ := (freeSteps_yields hβ hβ0 hν hpos).of_eq_ok h
  refine ⟨_, _, ht, hs, one_div_pos.mpr hβ0, ?_⟩
  field_simp
  ring

/-- The dual step that goes with a pinned primal step. -/
lemma dualStep_gap (hβ : beta.Is β) (hν : nu.Is ν) (hpos : 0 < ν) (hτ : tau.Is τ)
    (hτpos : 0 < τ) (h : dualStep beta nu tau = .ok sigma) :
    ∃ σ, sigma.Is σ ∧ 1 / τ - σ * ν = β / 2 := by
  obtain ⟨s, hs, hstep⟩ := dualStep_eq hβ hν hpos hτ hτpos
  rw [hstep] at h
  split at h
  · obtain ⟨limit, -, hthrow⟩ := ok_of_bind h
    cases hthrow
  · cases h
    refine ⟨_, hs, ?_⟩
    field_simp
    ring

/-- An unbounded primal step leaves no positive dual step. -/
lemma dualStep_unbounded (hβ : beta.Is β) (hβ0 : 0 ≤ β) (hν : nu.Is ν) (hpos : 0 < ν)
    (hσ : sigma.Is σ) (h : dualStep beta nu (.real (.infinite false)) = .ok sigma) : σ ≤ 0 := by
  obtain ⟨b, hb, hb'⟩ := div_yields hβ is_two two_ne_zero
  obtain ⟨g, hg, hg'⟩ := sub_yields (is_real 0) hb'
  obtain ⟨s, hs, hs'⟩ := div_yields hg' hν hpos.ne'
  rw [dualStep, div_infinite is_one] at h
  simp only [bind, Except.bind, hb, hg, hs] at h
  split at h
  · split at h <;> cases h
  · cases h
    have hσ' : σ = (0 - β / 2) / ν := hσ.unique hs'
    rw [hσ']
    refine div_nonpos_of_nonpos_of_nonneg ?_ hpos.le
    linarith

/-- The primal step that goes with a pinned dual step. -/
lemma primalStep_gap (hβ : beta.Is β) (hβ0 : 0 ≤ β) (hν : nu.Is ν) (hpos : 0 < ν)
    (hσ : sigma.Is σ) (hσpos : 0 < σ) (h : primalStep beta nu sigma = .ok tau) :
    ∃ τ, tau.Is τ ∧ 0 < τ ∧ 1 / τ - σ * ν = β / 2 := by
  have hsum : 0 < σ * ν + β / 2 := by positivity
  refine ⟨_, (primalStep_yields hβ hβ0 hν hpos hσ hσpos).of_eq_ok h, one_div_pos.mpr hsum, ?_⟩
  rw [one_div_one_div]
  ring

/-! ## The three ways

How steps have been found, and what has been checked on the way.
-/

section

variable {tau₀ sigma₀ tau' sigma' : Value Exact}

lemma readNu_ok {n : Number Exact} (h : readNu (.number nu) = .ok n) :
    nu = n ∧ nu.isPositive = true := by
  rw [readNu] at h
  split at h
  · rename_i hpositive
    cases h
    exact ⟨rfl, hpositive⟩
  · cases h

/-- Neither step is pinned. -/
lemma stepSizes_free (h : stepSizes (.number beta) (.number nu) .null .null = .ok (tau', sigma')) :
    nu.isPositive = true ∧ ∃ t s, freeSteps beta nu = .ok (t, s) ∧ tau' = .number t ∧
      sigma' = .number s := by
  unfold stepSizes at h
  obtain ⟨n, hn, h⟩ := ok_of_bind h
  obtain ⟨rfl, hnu⟩ := readNu_ok hn
  obtain ⟨b, hb, h⟩ := ok_of_bind h
  cases hb
  obtain ⟨⟨t, s⟩, hsteps, h⟩ := ok_of_bind h
  cases h
  exact ⟨hnu, t, s, hsteps, rfl, rfl⟩

/-- The primal step is pinned. -/
lemma stepSizes_primal (hpinned : tau₀ ≠ .null)
    (h : stepSizes (.number beta) (.number nu) tau₀ .null = .ok (tau', sigma')) :
    nu.isPositive = true ∧ ∃ t s, t.isPositive = true ∧ dualStep beta nu t = .ok s ∧
      tau' = .number t ∧ sigma' = .number s := by
  unfold stepSizes at h
  obtain ⟨n, hn, h⟩ := ok_of_bind h
  obtain ⟨rfl, hnu⟩ := readNu_ok hn
  cases tau₀ with
  | null => exact absurd rfl hpinned
  | number t =>
    obtain ⟨a, ha, h⟩ := ok_of_bind h
    cases ha
    by_cases hpositive : t.isPositive = true
    · simp only [hpositive, Bool.not_true, Bool.false_eq_true, if_false] at h
      obtain ⟨b, hb, h⟩ := ok_of_bind h
      cases hb
      obtain ⟨s, hs, h⟩ := ok_of_bind h
      cases h
      exact ⟨hnu, t, s, hpositive, hs, rfl, rfl⟩
    · simp [hpositive, bind, Except.bind, throw, throwThe, MonadExceptOf.throw] at h
  | _ => cases h

/-- The dual step is pinned. -/
lemma stepSizes_dual (hpinned : sigma₀ ≠ .null)
    (h : stepSizes (.number beta) (.number nu) .null sigma₀ = .ok (tau', sigma')) :
    nu.isPositive = true ∧ ∃ t s, s.isPositive = true ∧ primalStep beta nu s = .ok t ∧
      tau' = .number t ∧ sigma' = .number s := by
  unfold stepSizes at h
  obtain ⟨n, hn, h⟩ := ok_of_bind h
  obtain ⟨rfl, hnu⟩ := readNu_ok hn
  cases sigma₀ with
  | null => exact absurd rfl hpinned
  | number s =>
    obtain ⟨a, ha, h⟩ := ok_of_bind h
    cases ha
    by_cases hpositive : s.isPositive = true
    · simp only [hpositive, Bool.not_true, Bool.false_eq_true, if_false] at h
      obtain ⟨b, hb, h⟩ := ok_of_bind h
      cases hb
      obtain ⟨t, ht, h⟩ := ok_of_bind h
      cases h
      exact ⟨hnu, t, s, hpositive, ht, rfl, rfl⟩
    · simp [hpositive, bind, Except.bind, throw, throwThe, MonadExceptOf.throw] at h
  | _ => cases h

lemma stepSizes_ok (hfree : tau₀ = .null ∨ sigma₀ = .null)
    (h : stepSizes (.number beta) (.number nu) tau₀ sigma₀ = .ok (tau', sigma')) :
    nu.isPositive = true ∧ ∃ t s, tau' = .number t ∧ sigma' = .number s ∧
      (freeSteps beta nu = .ok (t, s) ∨
        t.isPositive = true ∧ dualStep beta nu t = .ok s ∨
        s.isPositive = true ∧ primalStep beta nu s = .ok t) := by
  by_cases htau : tau₀ = .null
  · subst htau
    by_cases hsigma : sigma₀ = .null
    · subst hsigma
      obtain ⟨hnu, t, s, hsteps, ht, hs⟩ := stepSizes_free h
      exact ⟨hnu, t, s, ht, hs, Or.inl hsteps⟩
    · obtain ⟨hnu, t, s, hpositive, hprimal, ht, hs⟩ := stepSizes_dual hsigma h
      exact ⟨hnu, t, s, ht, hs, Or.inr (Or.inr ⟨hpositive, hprimal⟩)⟩
  · obtain rfl := hfree.resolve_left htau
    obtain ⟨hnu, t, s, hpositive, hdual, ht, hs⟩ := stepSizes_primal htau h
    exact ⟨hnu, t, s, ht, hs, Or.inr (Or.inl ⟨hpositive, hdual⟩)⟩

end

/-- **Steps that are not both pinned satisfy `1/τ - σ ν = β/2`.**  A positive dual step is enough
for the primal step to be a positive real number, also where it was pinned. -/
theorem stepSizes_gap {tau₀ sigma₀ tau : Value Exact} (hβ0 : 0 ≤ β) (hν : nu.Is ν)
    (hσ : sigma.Is σ) (hσpos : 0 < σ) (hfree : tau₀ = .null ∨ sigma₀ = .null)
    (h : stepSizes (.number (.real (.finite β))) (.number nu) tau₀ sigma₀
      = .ok (tau, .number sigma)) :
    0 < ν ∧ ∃ t τ, tau = .number t ∧ t.Is τ ∧ 0 < τ ∧ 1 / τ - σ * ν = β / 2 := by
  have hβ : (Number.real (.finite β)).Is β := is_real β
  obtain ⟨hpositive, t, s, rfl, hs, hways⟩ := stepSizes_ok hfree h
  cases hs
  have hpos : 0 < ν := (isPositive_iff hν).mp hpositive
  refine ⟨hpos, t, ?_⟩
  rcases hways with hsteps | ⟨htpos, hdual⟩ | ⟨-, hprimal⟩
  · obtain ⟨τ, σ', ht, hs', hτ, hgap⟩ := freeSteps_gap hβ hν hpos hsteps
    cases hs'.unique hσ
    exact ⟨τ, rfl, ht, hτ, hgap⟩
  · rcases isPositive_cases htpos with ⟨τ, ht, hτ⟩ | rfl
    · obtain ⟨σ', hs', hgap⟩ := dualStep_gap hβ hν hpos ht hτ hdual
      cases hs'.unique hσ
      exact ⟨τ, rfl, ht, hτ, hgap⟩
    · exact absurd (dualStep_unbounded hβ hβ0 hν hpos hσ hdual) (not_le.mpr hσpos)
  · obtain ⟨τ, ht, hτ, hgap⟩ := primalStep_gap hβ hβ0 hν hpos hσ hσpos hprimal
    exact ⟨τ, rfl, ht, hτ, hgap⟩

end PrimalDual
