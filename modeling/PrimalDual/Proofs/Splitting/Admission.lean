import PrimalDual.Proofs.Splitting.StepSize

/-!
# Which steps are admitted

A caller pins the primal step, the dual step, both or neither.  This file says, for a finite
curvature `β ≥ 0` and a bound `ν > 0`, exactly which pins can be completed, what the completed steps
are, and how the others are refused.

**Completing.**  `stepSizes_free_eq`, `stepSizes_primal_eq`, `stepSizes_dual_eq` and
`stepSizes_both_eq` take the four ways apart; `stepSizes_completes` finds the steps for every pin that
is `Completable`.

**Refusing.**  `stepSizes_refuses` answers every other pin with a cause that is the caller's to
repair.  A primal step beyond `2/β` is refused together with that limit, which exists because such a
step leaves `β` positive: `dualStep_refuses`.

**Both together** is `stepSizes_admits`, which also covers the smooth term without a finite curvature
and compares the steps with the condition `1/τ - σ L² ≥ β/2` for an operator of norm `L`.
-/

namespace PrimalDual

open Number

/-- The value stands for a real number. -/
def Value.Is (v : Value Exact) (x : ℝ) : Prop := ∃ n, v = .number n ∧ n.Is x

/-- How much of a step is pinned: nothing, or a real number. -/
def Value.Pins (v : Value Exact) : Option ℝ → Prop
  | none => v = .null
  | some x => v.Is x

/-- The pinned steps that can be completed when the smooth term has curvature `β`. -/
inductive Completable (β : ℝ) : Option ℝ → Option ℝ → Prop
  | free (hβ : 0 < β) : Completable β none none
  | primal {τ : ℝ} (hτ : 0 < τ) (hroom : β = 0 ∨ τ ≤ 2 / β) : Completable β (some τ) none
  | dual {σ : ℝ} (hσ : 0 < σ) : Completable β none (some σ)
  | both (τ σ : ℝ) : Completable β (some τ) (some σ)

/-- The primal step leaves exactly the room that the dual step and the curvature take. -/
structure InBalance (β ν τ σ : ℝ) : Prop where
  primal_pos : 0 < τ
  dual_nonneg : 0 ≤ σ
  gap : 1 / τ - σ * ν = β / 2

/-- The condition under which the iteration converges for an operator of norm `L`. -/
structure Converges (β τ σ L : ℝ) : Prop where
  room : β / 2 ≤ 1 / τ - σ * L ^ 2

/-- The steps keep what was pinned, and balance what was not.  The dual step can only vanish beside a
primal one that was pinned. -/
structure Completes (β ν : ℝ) (tau sigma : Value Exact) (steps : Value Exact × Value Exact) :
    Prop where
  primal_kept : tau ≠ .null → steps.1 = tau
  dual_kept : sigma ≠ .null → steps.2 = sigma
  balanced : tau = .null ∨ sigma = .null →
    ∃ τ σ, steps.1.Is τ ∧ steps.2.Is σ ∧ InBalance β ν τ σ ∧ (tau = .null → 0 < σ)

/-- The computation is refused, and what the caller asked for is to blame. -/
def Refused {γ : Type} (x : Except Fault γ) : Prop :=
  ∃ e, x = .error e ∧ e.category = .configuration

lemma Refused.ne_ok {γ : Type} {x : Except Fault γ} (h : Refused x) (c : γ) : x ≠ .ok c := by
  obtain ⟨e, rfl, -⟩ := h
  nofun

lemma Refused.category {γ : Type} {x : Except Fault γ} (h : Refused x) {e : Fault}
    (hx : x = .error e) : e.category = .configuration := by
  obtain ⟨e', rfl, he⟩ := h
  cases hx
  exact he

section

variable {β ν τ σ L : ℝ}

/-- Every operator within the bound meets the condition. -/
lemma InBalance.converges (h : InBalance β ν τ σ) (hL : L ^ 2 ≤ ν) : Converges β τ σ L := by
  have hroom : σ * L ^ 2 ≤ σ * ν := mul_le_mul_of_nonneg_left hL h.dual_nonneg
  have hgap := h.gap
  exact ⟨by linarith⟩

/-- A positive dual step leaves no room for an operator beyond the bound. -/
lemma InBalance.bounds (h : InBalance β ν τ σ) (hσ : 0 < σ) (hL : Converges β τ σ L) :
    L ^ 2 ≤ ν := by
  have hgap := h.gap
  have hroom := hL.room
  refine le_of_mul_le_mul_left ?_ hσ
  linarith

/-- The dual step vanishes where the primal one is at the limit. -/
lemma InBalance.dual_eq_zero_iff (h : InBalance β ν τ σ) (hν0 : 0 < ν) :
    σ = 0 ↔ τ * β = 2 := by
  have hgap := h.gap
  constructor
  · rintro rfl
    rw [zero_mul, sub_zero, div_eq_div_iff h.primal_pos.ne' two_ne_zero] at hgap
    linarith
  · intro hlimit
    have hinverse : 1 / τ = β / 2 := by
      rw [div_eq_div_iff h.primal_pos.ne' two_ne_zero]
      linarith
    rw [hinverse, sub_eq_self] at hgap
    exact (mul_eq_zero.mp hgap).resolve_right hν0.ne'

/-- The dual step that goes with a primal one vanishes at `τ = 2/β` and is negative beyond. -/
lemma room_nonneg_iff (hβ0 : 0 ≤ β) (hν0 : 0 < ν) (hτ0 : 0 < τ) :
    0 ≤ (1 / τ - β / 2) / ν ↔ β = 0 ∨ τ ≤ 2 / β := by
  rw [le_div_iff₀ hν0, zero_mul, sub_nonneg]
  rcases hβ0.eq_or_lt with rfl | hβ
  · simp [hτ0.le]
  · rw [le_div_iff₀ hτ0, le_div_iff₀ hβ, or_iff_right hβ.ne']
    constructor <;> intro h <;> linarith

lemma inBalance_free (hβ0 : 0 < β) (hν0 : 0 < ν) : InBalance β ν (1 / β) (β / (2 * ν)) where
  primal_pos := one_div_pos.mpr hβ0
  dual_nonneg := by positivity
  gap := by
    field_simp
    ring

lemma inBalance_primal (hβ0 : 0 ≤ β) (hν0 : 0 < ν) (hτ0 : 0 < τ) (hroom : β = 0 ∨ τ ≤ 2 / β) :
    InBalance β ν τ ((1 / τ - β / 2) / ν) where
  primal_pos := hτ0
  dual_nonneg := (room_nonneg_iff hβ0 hν0 hτ0).mpr hroom
  gap := by
    rw [div_mul_cancel₀ _ hν0.ne']
    ring

lemma inBalance_dual (hβ0 : 0 ≤ β) (hν0 : 0 < ν) (hσ0 : 0 < σ) :
    InBalance β ν (1 / (σ * ν + β / 2)) σ where
  primal_pos := by positivity
  dual_nonneg := hσ0.le
  gap := by
    rw [one_div_one_div]
    ring

end

/-! ## One way at a time -/

section

variable {beta nu tau sigma t s : Number Exact} {β ν τ σ : ℝ}

lemma readNu_eq (hν : nu.Is ν) (hν0 : 0 < ν) : readNu (.number nu) = .ok nu := by
  rw [readNu, (isPositive_iff hν).mpr hν0]
  rfl

/-- Neither step is pinned. -/
lemma stepSizes_free_eq (hν : nu.Is ν) (hν0 : 0 < ν) :
    stepSizes (.number beta) (.number nu) .null .null
      = (freeSteps beta nu).map fun s => (.number s.1, .number s.2) := by
  rw [stepSizes, readNu_eq hν hν0]
  rfl

/-- The primal step is pinned. -/
lemma stepSizes_primal_eq (hν : nu.Is ν) (hν0 : 0 < ν) :
    stepSizes (.number beta) (.number nu) (.number t) .null
      = if t.isPositive then (dualStep beta nu t).map fun s => (.number t, .number s)
        else .error (.tauNotPositive (Value.number t).shown) := by
  rw [stepSizes, readNu_eq hν hν0]
  by_cases ht : t.isPositive = true
  · simp only [bind, Except.bind, Value.asNumber, ht]
    rfl
  · simp only [bind, Except.bind, Value.asNumber, ht]
    rfl

/-- The dual step is pinned. -/
lemma stepSizes_dual_eq (hν : nu.Is ν) (hν0 : 0 < ν) :
    stepSizes (.number beta) (.number nu) .null (.number s)
      = if s.isPositive then (primalStep beta nu s).map fun t => (.number t, .number s)
        else .error (.sigmaNotPositive (Value.number s).shown) := by
  rw [stepSizes, readNu_eq hν hν0]
  by_cases hs : s.isPositive = true
  · simp only [bind, Except.bind, Value.asNumber, hs]
    rfl
  · simp only [bind, Except.bind, Value.asNumber, hs]
    rfl

/-- Two pinned steps are not looked at, and neither is the curvature. -/
lemma stepSizes_both_eq (hν : nu.Is ν) (hν0 : 0 < ν) :
    stepSizes (.number beta) (.number nu) (.number t) (.number s)
      = .ok (.number t, .number s) := by
  rw [stepSizes, readNu_eq hν hν0]
  rfl

/-- Without curvature there is nothing to infer both steps from. -/
lemma freeSteps_refuses (hβ : beta.Is β) (hβ0 : ¬ 0 < β) :
    freeSteps beta nu = .error (.stepsNotInferable beta.text) := by
  rw [← isPositive_iff hβ, Bool.not_eq_true] at hβ0
  rw [freeSteps, hβ0]
  rfl

/-- Up to `2/β` a primal step leaves room for a dual step. -/
lemma dualStep_yields (hβ : beta.Is β) (hβ0 : 0 ≤ β) (hν : nu.Is ν) (hν0 : 0 < ν) (hτ : tau.Is τ)
    (hτ0 : 0 < τ) (hroom : β = 0 ∨ τ ≤ 2 / β) :
    Yields (dualStep beta nu tau) (·.Is ((1 / τ - β / 2) / ν)) := by
  obtain ⟨s, hs, hstep⟩ := dualStep_eq hβ hν hν0 hτ hτ0
  have hsign : s.below (.int 0) = false := by
    rw [← Bool.not_eq_true, below_iff hs (is_int 0), Int.cast_zero, not_lt]
    exact (room_nonneg_iff hβ0 hν0 hτ0).mpr hroom
  rw [hstep, hsign]
  exact Yields.pure hs

/-- A primal step beyond `2/β` is refused with that limit: it exists, as `β` is not zero. -/
lemma dualStep_refuses (hβ : beta.Is β) (hβ0 : 0 ≤ β) (hν : nu.Is ν) (hν0 : 0 < ν)
    (hτ : tau.Is τ) (hτ0 : 0 < τ) (hroom : ¬ (β = 0 ∨ τ ≤ 2 / β)) :
    ∃ limit : Number Exact, limit.Is (2 / β) ∧
      dualStep beta nu tau = .error (.tauTooLarge tau.text limit.text) := by
  obtain ⟨s, hs, hstep⟩ := dualStep_eq hβ hν hν0 hτ hτ0
  obtain ⟨limit, hlimit, hlimit'⟩ := div_yields is_two hβ (not_or.mp hroom).1
  have hsign : s.below (.int 0) = true := by
    rw [below_iff hs (is_int 0), Int.cast_zero, ← not_le, room_nonneg_iff hβ0 hν0 hτ0]
    exact hroom
  rw [hstep, hsign, if_pos rfl, hlimit]
  exact ⟨limit, hlimit', rfl⟩

/-- No primal step leaves room for an infinite curvature. -/
lemma dualStep_infinite (hν : nu.Is ν) (hν0 : 0 < ν) (hτ : tau.Is τ) (hτ0 : 0 < τ) :
    dualStep (.real (.infinite false)) nu tau
      = .error (.tauTooLarge tau.text (Number.real (.finite 0) : Number Exact).text) := by
  obtain ⟨i, hi, hi'⟩ := div_yields is_one hτ hτ0.ne'
  have hsign : (Number.real (.infinite true) : Number Exact).below (.int 0) = true := by
    rw [below, atMost_eq]
    rfl
  rw [dualStep, hi]
  simp only [bind, Except.bind, infinite_div is_two two_pos, sub_infinite hi',
    infinite_div hν hν0, hsign, div_infinite is_two]
  rfl

/-! ## All ways -/

variable {tau₀ sigma₀ : Value Exact} {τ₀ σ₀ : Option ℝ}

/-- Pins that can be completed are completed. -/
lemma stepSizes_completes (hβ : beta.Is β) (hβ0 : 0 ≤ β) (hν : nu.Is ν) (hν0 : 0 < ν)
    (hτ : tau₀.Pins τ₀) (hσ : sigma₀.Pins σ₀) (h : Completable β τ₀ σ₀) :
    Yields (stepSizes (.number beta) (.number nu) tau₀ sigma₀)
      (Completes β ν tau₀ sigma₀) := by
  cases h with
  | free hβpos =>
    obtain rfl : tau₀ = .null := hτ
    obtain rfl : sigma₀ = .null := hσ
    obtain ⟨⟨t, s⟩, hsteps, ht, hs⟩ := freeSteps_yields hβ hβpos hν hν0
    rw [stepSizes_free_eq hν hν0, hsteps]
    refine Yields.ok ⟨absurd rfl, absurd rfl, fun _ => ?_⟩
    exact ⟨_, _, ⟨t, rfl, ht⟩, ⟨s, rfl, hs⟩, inBalance_free hβpos hν0,
      fun _ => by positivity⟩
  | primal hτ0 hroom =>
    obtain ⟨t, rfl, ht⟩ := hτ
    obtain rfl : sigma₀ = .null := hσ
    obtain ⟨s, hstep, hs⟩ := dualStep_yields hβ hβ0 hν hν0 ht hτ0 hroom
    rw [stepSizes_primal_eq hν hν0, if_pos ((isPositive_iff ht).mpr hτ0), hstep]
    refine Yields.ok ⟨fun _ => rfl, absurd rfl, fun _ => ?_⟩
    exact ⟨_, _, ⟨t, rfl, ht⟩, ⟨s, rfl, hs⟩, inBalance_primal hβ0 hν0 hτ0 hroom, nofun⟩
  | dual hσ0 =>
    obtain rfl : tau₀ = .null := hτ
    obtain ⟨s, rfl, hs⟩ := hσ
    obtain ⟨t, hstep, ht⟩ := primalStep_yields hβ hβ0 hν hν0 hs hσ0
    rw [stepSizes_dual_eq hν hν0, if_pos ((isPositive_iff hs).mpr hσ0), hstep]
    refine Yields.ok ⟨absurd rfl, fun _ => rfl, fun _ => ?_⟩
    exact ⟨_, _, ⟨t, rfl, ht⟩, ⟨s, rfl, hs⟩, inBalance_dual hβ0 hν0 hσ0, fun _ => hσ0⟩
  | both τ σ =>
    obtain ⟨t, rfl, ht⟩ := hτ
    obtain ⟨s, rfl, hs⟩ := hσ
    rw [stepSizes_both_eq hν hν0]
    refine Yields.ok ⟨fun _ => rfl, fun _ => rfl, fun hfree => ?_⟩
    rcases hfree with hfree | hfree <;> cases hfree

/-- Pins that cannot be completed are refused. -/
lemma stepSizes_refuses (hβ : beta.Is β) (hβ0 : 0 ≤ β) (hν : nu.Is ν) (hν0 : 0 < ν)
    (hτ : tau₀.Pins τ₀) (hσ : sigma₀.Pins σ₀) (h : ¬ Completable β τ₀ σ₀) :
    Refused (stepSizes (.number beta) (.number nu) tau₀ sigma₀) := by
  rcases τ₀ with _ | τ <;> rcases σ₀ with _ | σ
  · obtain rfl : tau₀ = .null := hτ
    obtain rfl : sigma₀ = .null := hσ
    rw [stepSizes_free_eq hν hν0, freeSteps_refuses hβ fun hβpos => h (.free hβpos)]
    exact ⟨_, rfl, rfl⟩
  · obtain rfl : tau₀ = .null := hτ
    obtain ⟨s, rfl, hs⟩ := hσ
    have hσ0 : ¬ 0 < σ := fun hσ0 => h (.dual hσ0)
    rw [stepSizes_dual_eq hν hν0, if_neg (mt (isPositive_iff hs).mp hσ0)]
    exact ⟨_, rfl, rfl⟩
  · obtain ⟨t, rfl, ht⟩ := hτ
    obtain rfl : sigma₀ = .null := hσ
    rw [stepSizes_primal_eq hν hν0]
    by_cases hτ0 : 0 < τ
    · obtain ⟨limit, -, hstep⟩ :=
        dualStep_refuses hβ hβ0 hν hν0 ht hτ0 fun hroom => h (.primal hτ0 hroom)
      rw [if_pos ((isPositive_iff ht).mpr hτ0), hstep]
      exact ⟨_, rfl, rfl⟩
    · rw [if_neg (mt (isPositive_iff ht).mp hτ0)]
      exact ⟨_, rfl, rfl⟩
  · exact absurd (.both τ σ) h

/-- A smooth term without a finite curvature has no steps but those that are both pinned. -/
lemma stepSizes_infinite (hν : nu.Is ν) (hν0 : 0 < ν) (hτ : tau₀.Pins τ₀) (hσ : sigma₀.Pins σ₀) :
    tau₀ ≠ .null ∧ sigma₀ ≠ .null ∧
        stepSizes (.number (.real (.infinite false))) (.number nu) tau₀ sigma₀
          = .ok (tau₀, sigma₀) ∨
      (tau₀ = .null ∨ sigma₀ = .null) ∧
        Refused (stepSizes (.number (.real (.infinite false))) (.number nu) tau₀ sigma₀) := by
  rcases τ₀ with _ | τ <;> rcases σ₀ with _ | σ
  · obtain rfl : tau₀ = .null := hτ
    obtain rfl : sigma₀ = .null := hσ
    rw [stepSizes_free_eq hν hν0]
    exact Or.inr ⟨Or.inl rfl, _, rfl, rfl⟩
  · obtain rfl : tau₀ = .null := hτ
    obtain ⟨s, rfl, hs⟩ := hσ
    refine Or.inr ⟨Or.inl rfl, ?_⟩
    rw [stepSizes_dual_eq hν hν0]
    split <;> exact ⟨_, rfl, rfl⟩
  · obtain ⟨t, rfl, ht⟩ := hτ
    obtain rfl : sigma₀ = .null := hσ
    refine Or.inr ⟨Or.inr rfl, ?_⟩
    rw [stepSizes_primal_eq hν hν0]
    by_cases hτ0 : 0 < τ
    · rw [dualStep_infinite hν hν0 ht hτ0, if_pos ((isPositive_iff ht).mpr hτ0)]
      exact ⟨_, rfl, rfl⟩
    · rw [if_neg (mt (isPositive_iff ht).mp hτ0)]
      exact ⟨_, rfl, rfl⟩
  · obtain ⟨t, rfl, -⟩ := hτ
    obtain ⟨s, rfl, -⟩ := hσ
    exact Or.inl ⟨nofun, nofun, stepSizes_both_eq hν hν0⟩

/-- A positive primal step that is refused is refused for its size. -/
lemma stepSizes_tooLarge (hβ : beta.Is β) (hβ0 : 0 ≤ β) (hν : nu.Is ν) (hν0 : 0 < ν)
    (ht : t.Is τ) (hτ0 : 0 < τ) {e : Fault}
    (h : stepSizes (.number beta) (.number nu) (.number t) .null = .error e) :
    ∃ limit : Number Exact, β ≠ 0 ∧ limit.Is (2 / β) ∧
      e = .tauTooLarge t.text limit.text := by
  rw [stepSizes_primal_eq hν hν0, if_pos ((isPositive_iff ht).mpr hτ0)] at h
  by_cases hroom : β = 0 ∨ τ ≤ 2 / β
  · obtain ⟨s, hstep, -⟩ := dualStep_yields hβ hβ0 hν hν0 ht hτ0 hroom
    rw [hstep] at h
    cases h
  · obtain ⟨limit, hlimit, hstep⟩ := dualStep_refuses hβ hβ0 hν hν0 ht hτ0 hroom
    rw [hstep] at h
    cases h
    exact ⟨limit, (not_or.mp hroom).1, hlimit, rfl⟩

/-- **The steps exist exactly for the pins that can be completed, and they balance.**  For a finite
curvature `β ≥ 0`, a bound `ν > 0` and steps that are free or pinned to real numbers:

* steps are found if and only if the pins are `Completable`;
* what was pinned is returned as it was, and unless both steps were pinned, `τ > 0`, `σ ≥ 0` and
  `1/τ - σ ν = β/2`.  So the condition of convergence holds for every operator of norm `L` with
  `L² ≤ ν`, and, where `σ` is positive, for no other;
* without a finite curvature, steps are found only where both were pinned;
* every refusal blames the caller's parameters, and a positive primal step is refused together with
  the limit `2/β`, where `β` is not zero. -/
theorem stepSizes_admits (hβ : beta.Is β) (hβ0 : 0 ≤ β) (hν : nu.Is ν) (hν0 : 0 < ν)
    (hτ : tau₀.Pins τ₀) (hσ : sigma₀.Pins σ₀) :
    ((∃ steps, stepSizes (.number beta) (.number nu) tau₀ sigma₀ = .ok steps)
        ↔ Completable β τ₀ σ₀) ∧
      (∀ tau sigma, stepSizes (.number beta) (.number nu) tau₀ sigma₀ = .ok (tau, sigma) →
        (tau₀ ≠ .null → tau = tau₀) ∧ (sigma₀ ≠ .null → sigma = sigma₀) ∧
        (tau₀ = .null ∨ sigma₀ = .null → ∃ τ σ, tau.Is τ ∧ sigma.Is σ ∧
          0 < τ ∧ 0 ≤ σ ∧ 1 / τ - σ * ν = β / 2 ∧
          (∀ L, 0 ≤ L → L ^ 2 ≤ ν → Converges β τ σ L) ∧
          (0 < σ → ∀ L, 0 ≤ L → Converges β τ σ L → L ^ 2 ≤ ν))) ∧
      ((∃ steps, stepSizes (.number (.real (.infinite false))) (.number nu) tau₀ sigma₀
          = .ok steps) ↔ tau₀ ≠ .null ∧ sigma₀ ≠ .null) ∧
      (∀ e, stepSizes (.number beta) (.number nu) tau₀ sigma₀ = .error e ∨
          stepSizes (.number (.real (.infinite false))) (.number nu) tau₀ sigma₀ = .error e →
        e.category = .configuration) ∧
      ∀ t τ e, tau₀ = .number t → sigma₀ = .null → t.Is τ → 0 < τ →
        stepSizes (.number beta) (.number nu) tau₀ sigma₀ = .error e →
          ∃ limit : Number Exact, β ≠ 0 ∧ limit.Is (2 / β) ∧
            e = .tauTooLarge t.text limit.text := by
  have hcompletes := stepSizes_completes hβ hβ0 hν hν0 hτ hσ
  have hrefuses := stepSizes_refuses hβ hβ0 hν hν0 hτ hσ
  have hinfinite := stepSizes_infinite hν hν0 hτ hσ
  have hadmitted : ∀ steps, stepSizes (.number beta) (.number nu) tau₀ sigma₀ = .ok steps →
      Completable β τ₀ σ₀ := fun steps h =>
    not_not.mp fun hnot => (hrefuses hnot).ne_ok steps h
  refine ⟨⟨?_, fun h => ?_⟩, fun tau sigma h => ?_, ⟨?_, ?_⟩, ?_, ?_⟩
  · rintro ⟨steps, h⟩
    exact hadmitted steps h
  · obtain ⟨steps, hsteps, -⟩ := hcompletes h
    exact ⟨steps, hsteps⟩
  · have hsteps := (hcompletes (hadmitted _ h)).of_eq_ok h
    refine ⟨hsteps.primal_kept, hsteps.dual_kept, fun hfree => ?_⟩
    obtain ⟨τ, σ, htau, hsigma, hbalanced, -⟩ := hsteps.balanced hfree
    exact ⟨τ, σ, htau, hsigma, hbalanced.primal_pos, hbalanced.dual_nonneg, hbalanced.gap,
      fun L _ hL => hbalanced.converges hL, fun hσ0 L _ hL => hbalanced.bounds hσ0 hL⟩
  · rintro ⟨steps, h⟩
    rcases hinfinite with ⟨htau, hsigma, -⟩ | ⟨-, hrefused⟩
    · exact ⟨htau, hsigma⟩
    · exact absurd h (hrefused.ne_ok steps)
  · rintro ⟨htau, hsigma⟩
    rcases hinfinite with ⟨-, -, hsteps⟩ | ⟨hfree, -⟩
    · exact ⟨_, hsteps⟩
    · exact absurd hfree (not_or.mpr ⟨htau, hsigma⟩)
  · rintro e (h | h)
    · refine (hrefuses fun hcompletable => ?_).category h
      obtain ⟨steps, hsteps, -⟩ := hcompletes hcompletable
      rw [hsteps] at h
      cases h
    · rcases hinfinite with ⟨-, -, hsteps⟩ | ⟨-, hrefused⟩
      · rw [hsteps] at h
        cases h
      · exact hrefused.category h
  · rintro t τ e rfl rfl ht hτ0 h
    exact stepSizes_tooLarge hβ hβ0 hν hν0 ht hτ0 h

lemma pins_two : (Value.number (.int 2) : Value Exact).Pins (some 2) := ⟨_, rfl, is_two⟩

/-- At the limit `τ = 2/β` the steps exist, and the dual step vanishes. -/
theorem stepSizes_admits_limit :
    ∃ sigma, stepSizes (.number (.int 1)) (.number (.real (.finite (1 / 2)))) (.number (.int 2))
        .null = .ok (.number (.int 2), sigma) ∧ sigma.Is 0 := by
  obtain ⟨hexists, hkept, -⟩ := stepSizes_admits is_one zero_le_one (is_real (1 / 2)) one_half_pos
    pins_two (show Value.null.Pins none from rfl)
  obtain ⟨⟨tau, sigma⟩, h⟩ := hexists.mpr (.primal two_pos (Or.inr (by norm_num)))
  obtain ⟨htau, -, hbalanced⟩ := hkept tau sigma h
  obtain rfl := htau nofun
  obtain ⟨τ, σ, ⟨t, ht, hτ⟩, hσ, hτ0, hσ0, hgap, -⟩ := hbalanced (Or.inr rfl)
  cases ht
  obtain rfl := hτ.unique is_two
  have hzero : σ = 0 := (InBalance.mk hτ0 hσ0 hgap).dual_eq_zero_iff one_half_pos |>.mpr (mul_one 2)
  exact ⟨sigma, h, hzero ▸ hσ⟩

end

end PrimalDual
