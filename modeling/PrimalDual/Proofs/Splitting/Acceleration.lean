import Mathlib.Analysis.SpecificLimits.Basic
import PrimalDual.Proofs.Splitting.Descent

/-!
# The weights of the accelerated method

The accelerated method takes its weights from Nesterov's sequence, which starts at one and goes from
a term `t` to the positive root of `s² - s = t²`.  Each step adds more than a half and less than
one.  The weight between two terms looks like a matter of both, but the equation removes the earlier
one: it is `√(1 - 1/s) - 1/s`, which grows with the later term `s` alone.

* `Request`, `serve` — weights and restarts, in any order.
* `nesterovTerm`, `nesterovWeight` — the sequence and its weights as real numbers.
* `nesterovTerm_root`, `half_lt_step`, `step_lt_one` — one step of the sequence.
* `weight_eq_of_later` — the weight by the later term.
* **`weights_increase_to_one`** — what the schedule gives out, from the start and after each restart.
-/

namespace PrimalDual.Momentum

open Exact Filter Topology

/-! ## Requests -/

/-- What a schedule is asked for. -/
inductive Request where
  | weight
  | restart

/-- The schedule after a request. -/
noncomputable def serve (M : Momentum Exact) : Request → Momentum Exact
  | .weight => M.advance
  | .restart => M.restart

/-- Whatever an accelerated schedule is asked for, it stays one, and so it can be restarted. -/
lemma restart_served (requests : List Request) (t : Exact) :
    (requests.foldl serve (nesterov t)).restart = accelerated := by
  induction requests generalizing t with
  | nil => rfl
  | cons request requests ih =>
    cases request with
    | weight => exact ih (successor t)
    | restart => exact ih Scalar.one

/-! ## The sequence -/

/-- Term `n` of Nesterov's sequence. -/
noncomputable def nesterovTerm : ℕ → ℝ
  | 0 => 1
  | n + 1 => (1 + √(1 + 4 * (nesterovTerm n * nesterovTerm n))) / 2

/-- The weight between the terms `n` and `n + 1`. -/
noncomputable def nesterovWeight (n : ℕ) : ℝ := (nesterovTerm n - 1) / nesterovTerm (n + 1)

lemma nesterovTerm_succ (n : ℕ) :
    nesterovTerm (n + 1) = (1 + √(1 + 4 * (nesterovTerm n * nesterovTerm n))) / 2 := rfl

/-- The next term is a root of `s² - s = t²`. -/
lemma nesterovTerm_root (n : ℕ) :
    nesterovTerm (n + 1) ^ 2 - nesterovTerm (n + 1) = nesterovTerm n ^ 2 := by
  have hnonneg : 0 ≤ 1 + 4 * (nesterovTerm n * nesterovTerm n) := by
    linarith [mul_self_nonneg (nesterovTerm n)]
  have hsquare := Real.sq_sqrt hnonneg
  rw [nesterovTerm_succ]
  linear_combination hsquare / 4

lemma one_le_nesterovTerm (n : ℕ) : 1 ≤ nesterovTerm n := by
  induction n with
  | zero => exact le_refl (1 : ℝ)
  | succ n ih => exact ih.trans (le_successor (nesterovTerm n))

lemma half_lt_step (n : ℕ) : nesterovTerm n + 1 / 2 < nesterovTerm (n + 1) := by
  have hpos := one_le_nesterovTerm n
  have hsqrt : 2 * nesterovTerm n < √(1 + 4 * (nesterovTerm n * nesterovTerm n)) := by
    refine Real.lt_sqrt_of_sq_lt ?_
    linarith [mul_pow 2 (nesterovTerm n) 2, sq (nesterovTerm n)]
  rw [nesterovTerm_succ]
  linarith

lemma step_lt_one (n : ℕ) : nesterovTerm (n + 1) < nesterovTerm n + 1 := by
  have hpos := one_le_nesterovTerm n
  have hsqrt : √(1 + 4 * (nesterovTerm n * nesterovTerm n)) < 2 * nesterovTerm n + 1 := by
    rw [Real.sqrt_lt' (by linarith)]
    linarith [add_sq (2 * nesterovTerm n) 1, mul_pow 2 (nesterovTerm n) 2, sq (nesterovTerm n)]
  rw [nesterovTerm_succ]
  linarith

/-- Every step adds a half at least. -/
lemma half_le_nesterovTerm (n : ℕ) : 1 + (n : ℝ) / 2 ≤ nesterovTerm n := by
  induction n with
  | zero => simp [nesterovTerm]
  | succ n ih =>
    have hstep := half_lt_step n
    push_cast
    linarith

/-! ## The weights -/

/-- The weight by the later term alone, since the equation gives the quotient of the two terms. -/
lemma weight_eq_of_later (n : ℕ) :
    nesterovWeight n = √(1 - 1 / nesterovTerm (n + 1)) - 1 / nesterovTerm (n + 1) := by
  have hlater : 0 < nesterovTerm (n + 1) := zero_lt_one.trans_le (one_le_nesterovTerm (n + 1))
  have hearlier : 0 ≤ nesterovTerm n := zero_le_one.trans (one_le_nesterovTerm n)
  have hsquare : 1 - 1 / nesterovTerm (n + 1) = (nesterovTerm n / nesterovTerm (n + 1)) ^ 2 := by
    rw [div_pow, ← nesterovTerm_root]
    field_simp
  rw [hsquare, Real.sqrt_sq (div_nonneg hearlier hlater.le), nesterovWeight, sub_div]

lemma nesterovWeight_lt (n : ℕ) : nesterovWeight n < nesterovWeight (n + 1) := by
  have hpos : 0 < nesterovTerm (n + 1) := zero_lt_one.trans_le (one_le_nesterovTerm (n + 1))
  have hstep : nesterovTerm (n + 1) < nesterovTerm (n + 1 + 1) := by linarith [half_lt_step (n + 1)]
  have hinv : 1 / nesterovTerm (n + 1 + 1) < 1 / nesterovTerm (n + 1) :=
    one_div_lt_one_div_of_lt hpos hstep
  have hsqrt : √(1 - 1 / nesterovTerm (n + 1)) ≤ √(1 - 1 / nesterovTerm (n + 1 + 1)) :=
    Real.sqrt_le_sqrt (by linarith)
  rw [weight_eq_of_later, weight_eq_of_later]
  linarith

lemma nesterovWeight_nonneg (n : ℕ) : 0 ≤ nesterovWeight n :=
  div_nonneg (sub_nonneg.mpr (one_le_nesterovTerm n)) (zero_le_one.trans (one_le_nesterovTerm _))

lemma nesterovWeight_lt_one (n : ℕ) : nesterovWeight n < 1 := by
  have hpos : 0 < nesterovTerm (n + 1) := zero_lt_one.trans_le (one_le_nesterovTerm (n + 1))
  rw [nesterovWeight, div_lt_one hpos]
  linarith [half_lt_step n]

/-- What a weight leaves to one, by the earlier term: the later one is at most one above it. -/
lemma one_sub_nesterovWeight_le (n : ℕ) : 1 - nesterovWeight n ≤ 2 / (nesterovTerm n + 1) := by
  have hone := one_le_nesterovTerm n
  have hpos : 0 < nesterovTerm (n + 1) := zero_lt_one.trans_le (one_le_nesterovTerm (n + 1))
  have hroom : 0 ≤ (nesterovTerm n - 1) * (nesterovTerm n + 1 - nesterovTerm (n + 1)) :=
    mul_nonneg (sub_nonneg.mpr hone) (by linarith [step_lt_one n])
  have hrest : 1 - nesterovWeight n
      = (nesterovTerm (n + 1) - nesterovTerm n + 1) / nesterovTerm (n + 1) := by
    rw [nesterovWeight]
    field_simp
    ring
  rw [hrest, div_le_div_iff₀ hpos (by linarith)]
  linarith

lemma one_sub_nesterovWeight_le_of_index (n : ℕ) : 1 - nesterovWeight n ≤ 4 / ((n : ℝ) + 4) := by
  have hterm := half_le_nesterovTerm n
  have hindex : (0 : ℝ) ≤ n := Nat.cast_nonneg n
  calc 1 - nesterovWeight n ≤ 2 / (nesterovTerm n + 1) := one_sub_nesterovWeight_le n
    _ ≤ 2 / ((n + 4) / 2) := by
        refine div_le_div_of_nonneg_left zero_le_two (by linarith) ?_
        linarith
    _ = 4 / (n + 4) := by
        field_simp
        ring

lemma tendsto_nesterovWeight : Tendsto nesterovWeight atTop (𝓝 1) := by
  have hrest : Tendsto (fun n : ℕ => 4 / ((n : ℝ) + 4)) atTop (𝓝 0) :=
    tendsto_const_nhds.div_atTop
      (tendsto_atTop_add_const_right atTop 4 tendsto_natCast_atTop_atTop)
  have hbelow : Tendsto (fun n : ℕ => 1 - 4 / ((n : ℝ) + 4)) atTop (𝓝 1) := by
    simpa using hrest.const_sub 1
  refine tendsto_of_tendsto_of_tendsto_of_le_of_le hbelow tendsto_const_nhds (fun n => ?_)
    fun n => (nesterovWeight_lt_one n).le
  linarith [one_sub_nesterovWeight_le_of_index n]

/-! ## The schedule -/

/-- A schedule that has given out `n` weights is at term `n`. -/
lemma advance_iterate (n : ℕ) :
    (advance^[n] accelerated : Momentum Exact) = nesterov (finite (nesterovTerm n)) := by
  induction n with
  | zero => exact congrArg nesterov one_eq
  | succ n ih =>
    rw [Function.iterate_succ_apply', ih]
    exact congrArg nesterov (successor_finite _)

lemma weight_nesterovTerm (n : ℕ) : (nesterov (finite (nesterovTerm n))).weight
    = .ok (.real (finite (nesterovWeight n))) := by
  have hpos : 0 < nesterovTerm (n + 1) := zero_lt_one.trans_le (one_le_nesterovTerm (n + 1))
  have hnext : successor (finite (nesterovTerm n)) = finite (nesterovTerm (n + 1)) :=
    successor_finite _
  rw [weight, one_eq, finite_sub, hnext, finite_div _ hpos.ne']
  rfl

/--
**The weights of the accelerated method increase to one.**  A schedule is back at its start whenever it
is restarted, whatever it was asked for before.  From there, after `n` weights it is at term `n` of
Nesterov's sequence, and the next weight that it gives out is the weight `n`.
-/
theorem weights_increase_to_one :
    (∀ requests : List Request, (requests.foldl serve accelerated).restart = accelerated) ∧
    (∀ n, (advance^[n] accelerated).position = .ok (finite (nesterovTerm n)) ∧
      (advance^[n] accelerated).weight = .ok (.real (finite (nesterovWeight n)))) ∧
    (∀ n : ℕ, 1 + (n : ℝ) / 2 ≤ nesterovTerm n ∧
      nesterovTerm n + 1 / 2 < nesterovTerm (n + 1) ∧ nesterovTerm (n + 1) < nesterovTerm n + 1 ∧
      nesterovTerm (n + 1) ^ 2 - nesterovTerm (n + 1) = nesterovTerm n ^ 2) ∧
    nesterovWeight 0 = 0 ∧
    (∀ n : ℕ, nesterovWeight n < nesterovWeight (n + 1) ∧ 0 ≤ nesterovWeight n ∧
      nesterovWeight n < 1 ∧ 1 - nesterovWeight n ≤ 4 / ((n : ℝ) + 4)) ∧
    Tendsto nesterovWeight atTop (𝓝 1) := by
  refine ⟨fun requests => restart_served requests _, fun n => ?_, fun n => ?_, ?_, fun n => ?_,
    tendsto_nesterovWeight⟩
  · rw [advance_iterate]
    exact ⟨rfl, weight_nesterovTerm n⟩
  · exact ⟨half_le_nesterovTerm n, half_lt_step n, step_lt_one n, nesterovTerm_root n⟩
  · rw [nesterovWeight, nesterovTerm, sub_self, zero_div]
  · exact ⟨nesterovWeight_lt n, nesterovWeight_nonneg n, nesterovWeight_lt_one n,
      one_sub_nesterovWeight_le_of_index n⟩

end PrimalDual.Momentum
