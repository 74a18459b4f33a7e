import Mathlib.Order.Bounds.Basic
import PrimalDual.Proofs.Exact.Number
import PrimalDual.Proofs.Run.Termination

/-!
# Runs with a limit on their length

A limit of `n` lets `n` evaluations go on and ends the run at the next one.  The first evaluation is
made before the first step, so a run has a step for each limit if the rule is evaluated at every
iteration.  At any other rate, the limit counts the intervals between evaluations.

* `Traced.last_of_limit` — the evaluation in which a limit ends a run.
* **`limit_counts_intervals`** — the number of steps of a completed run, and that blocking runs are
  completed.
* **`drive_of_limit`** — a limit ends every run that nothing else hinders.
* `slowSolver` — a run that takes more steps than its limit calls for.
-/

namespace PrimalDual

variable {α σ : Type} [Scalar α]

namespace Criterion

variable {v : Value α} {n : ℤ} {limit rule : Criterion α}

/-- A limit is positive. -/
lemma pos_of_ofLimit (hv : v.toWhole = .ok n) (h : ofLimit v = .ok limit) : 0 < n := by
  rw [ofLimit, hv] at h
  by_contra hn
  simp only [hn, if_false] at h
  cases h

/-- However a limit has been used, it counts from zero once it is started afresh. -/
lemma clear_of_limit (hv : v.toWhole = .ok n) (h : ofLimit v = .ok limit) (hused : limit.Used rule)
    (now : ℤ) : rule.clear now = maxIter n 0 := by
  rw [hused.clear_eq now, ofLimit_eq hv h]
  rfl

end Criterion

namespace Scene

variable {A : Algorithm α σ (Criterion α)} {S : Settings} {print : Bool}
  {o t : Scene α σ (Criterion α)} {n : ℤ} {N : ℕ}

/-- A run that a limit ends has made as many evaluations as it allows, and the one that ends it. -/
lemma Traced.last_of_limit (h : Traced A S o print N t) (hrule : o.course.rule = .maxIter n 0) :
    n ≤ N ∧ ∀ j < N, (j : ℤ) < n := by
  have hdecides : ∀ j d, Evaluated A S o j d → decide (n ≤ j) = d := by
    intro j d hj
    have hdecision := hj.decision
    rw [stop_posed, hrule, Criterion.decides_maxIter] at hdecision
    exact Except.ok.inj hdecision
  exact ⟨of_decide_eq_true (hdecides N true h.last), fun j hj =>
    not_le.1 (of_decide_eq_false (hdecides j false (h.evaluations j hj)))⟩

end Scene

/-- Of the multiples of `r`, the product `N * r` is the least from `N` on in two cases only. -/
lemma isLeast_multiple_iff {N r : ℕ} (hN : 0 < N) (hr : 0 < r) :
    IsLeast {m : ℕ | r ∣ m ∧ N ≤ m} (N * r) ↔ N = 1 ∨ r = 1 := by
  constructor
  · rintro ⟨-, hleast⟩
    by_contra! hboth
    -- one interval less is still enough
    have hless : N ≤ (N - 1) * r :=
      calc N ≤ (N - 1) * 2 := by omega
        _ ≤ (N - 1) * r := Nat.mul_le_mul_left _ (by omega)
    have hle := hleast ⟨Nat.dvd_mul_left r (N - 1), hless⟩
    have := Nat.le_of_mul_le_mul_right hle hr
    omega
  · intro h
    refine ⟨⟨Nat.dvd_mul_left r N, Nat.le_mul_of_pos_right N hr⟩, ?_⟩
    rintro m ⟨hdvd, hm⟩
    rcases h with rfl | rfl
    · rw [Nat.one_mul]
      exact Nat.le_of_dvd hm hdvd
    · rwa [Nat.mul_one]

namespace Solver

variable {s s' : Solver α σ (Criterion α)} {w w' : World α} {args : FitArguments α (Criterion α)}
  {v : Value α} {n : ℤ} {limit rule : Criterion α}

/-- **A limit counts the intervals between evaluations.**  A completed run under a limit of `n`, in
whatever mode, has taken exactly `n` times as many steps as there are from one evaluation to the next,
and none of them has failed.  This is the least number of steps, from `n` on, after which there is an
evaluation only if the limit is one or every iteration is evaluated.  A blocking run in which nothing is
raised is completed with these steps. -/
theorem limit_counts_intervals (hv : v.toWhole = .ok n) (hlimit : Criterion.ofLimit v = .ok limit)
    (hused : limit.Used rule) (hrule : args.rule = some rule) :
    (s.Completed w args s' w' →
      ∃ u r w₀ c, s.Opening w args u r w₀ ∧ s'.phase = .running c ∧
        c.iteration = n.toNat * s.settings.rates.stop ∧
        c.state = Scene.stateAfter s.algorithm (firstScene args u r w₀)
          (n.toNat * s.settings.rates.stop) ∧
        (∀ k < n.toNat * s.settings.rates.stop,
          (s.algorithm.step (Scene.stateAfter s.algorithm (firstScene args u r w₀) k)).outcome
            = .ok ()) ∧
        (IsLeast {m : ℕ | s.settings.rates.stop ∣ m ∧ n ≤ m} c.iteration
          ↔ n = 1 ∨ s.settings.rates.stop = 1)) ∧
    (args.mode = .block → ∀ fuel, n.toNat * s.settings.rates.stop < fuel →
      s.fit fuel w args = (s', w', .ok ()) → s.Completed w args s' w') := by
  have hpos := Criterion.pos_of_ofLimit hv hlimit
  refine ⟨fun h => ?_, fun hmode fuel hfuel hfit => ?_⟩
  · obtain ⟨u, r, w₀, k, c, hopening, hphase, hdrive⟩ := h.driven
    obtain ⟨N, htraced⟩ := Scene.drive_traced ⟨rfl, rfl⟩ hdrive
    have hgiven : r = rule := by
      have hfor := hopening.rule
      rw [ruleFor, hrule] at hfor
      exact (Except.ok.inj hfor).symm
    have hfirst : (firstScene args u r w₀).course.rule = .maxIter n 0 := by
      rw [hgiven]
      exact Criterion.clear_of_limit hv hlimit hused _
    obtain ⟨hlast, hbefore⟩ := htraced.last_of_limit hfirst
    obtain rfl : N = n.toNat := by
      have := hbefore (N - 1)
      omega
    refine ⟨u, r, w₀, c, hopening, hphase, htraced.iteration, htraced.state, htraced.steps, ?_⟩
    have hset : {m : ℕ | s.settings.rates.stop ∣ m ∧ n ≤ m}
        = {m : ℕ | s.settings.rates.stop ∣ m ∧ n.toNat ≤ m} := by
      ext m
      simp only [Set.mem_ofPred_eq, Int.toNat_le]
    rw [hset, htraced.iteration,
      isLeast_multiple_iff (by omega) s.settings.rates.stop_pos]
    omega
  · have hbound : rule.bound = n.toNat := by
      rw [hused.bound_eq, Criterion.ofLimit_eq hv hlimit]
      rfl
    exact completed_of_allowance hbound hmode hrule hfuel hfit

end Solver

/-! ## Runs that a limit ends -/

namespace Scene

variable {A : Algorithm α σ (Criterion α)} {S : Settings} {o : Scene α σ (Criterion α)} {n j : ℕ}

/-- What a limit reports can be recorded as long as the number of evaluations is a scalar. -/
lemma evaluated_of_limit (ho : Fresh o) (htracker : o.course.tracker = none)
    (hrule : o.course.rule = .maxIter n 0)
    (hcount : ∃ x, (Number.int (j + 1) : Number α).toReal = .ok x) :
    Evaluated A S o j (decide (n ≤ j)) := by
  obtain ⟨x, hx⟩ := hcount
  have hstop := stop_posed (A := A) (S := S) (o := o) j
  rw [hrule, Criterion.decides_maxIter, Criterion.after_maxIter] at hstop
  refine evaluated_of_untracked ho htracker ?_ ⟨⟨(judged A S o j).iteration, [("N_iter", x)]⟩, ?_⟩
  · rw [hstop]
    simp only [Nat.cast_le]
  · have hinfo : (judged A S o j).info A = .ok [("N_iter", .int (j + 1))] := by
      rw [info_judged htracker, hstop]
      rfl
    rw [Course.row, hinfo]
    simp only [bind, Except.bind, pure, Except.pure, List.mapM_cons, List.mapM_nil, hx,
      List.isEmpty_cons, Bool.false_eq_true, if_false]

/-- **A limit ends every run that nothing else hinders.** -/
theorem drive_of_limit (print : Bool) (ho : Fresh o) (hS : S.rates.Unhindered)
    (htracker : o.course.tracker = none) (hrule : o.course.rule = .maxIter n 0)
    (hcount : ∀ j ≤ n, ∃ x, (Number.int (j + 1) : Number α).toReal = .ok x)
    (hsteps : ∀ k < n * S.rates.stop, (A.step (stateAfter A o k)).outcome = .ok ()) :
    ∃ t, drive A S print (n * S.rates.stop + 1) o = (t, .satisfied) := by
  refine drive_of_evaluated ho hS (fun j hj => ?_) ?_ hsteps
  · have hgoing := evaluated_of_limit (A := A) (S := S) ho htracker hrule (hcount j hj.le)
    rwa [decide_eq_false (not_le.2 hj)] at hgoing
  · have hlast := evaluated_of_limit (A := A) (S := S) ho htracker hrule (hcount n (Nat.le_refl n))
    rwa [decide_eq_true (Nat.le_refl n)] at hlast

end Scene

/-! ## A limit of two, evaluated at every other iteration -/

/-- An evaluation every other step, a report every fourth one, and no checkpoints. -/
def everyOther : Settings :=
  { counterSettings with
    rates := { counterSettings.rates with
      writeback := none
      writeback_dvd := nofun }
    showProgress := false }

/-- A counter that is evaluated at every other step. -/
noncomputable def slowSolver : Solver Exact ℕ (Criterion Exact) := .ofAlgorithm (counter _ _) everyOther

/-- A blocking run under a limit of two. -/
def twoArguments : FitArguments Exact (Criterion Exact) := ⟨.block, some (.maxIter 2 0), false, []⟩

/-- It takes four steps. -/
lemma slowSolver_completed : ∃ s' w',
    Solver.Completed slowSolver ⟨.empty, 0, #[]⟩ twoArguments s' w' ∧
      ∃ c, s'.phase = .running c ∧ c.iteration = 4 := by
  have hlog : (slowSolver.openLog ⟨.empty, 0, #[]⟩).2 = .ok () := rfl
  have hstart : slowSolver.algorithm.start twoArguments.parameters = .ok 0 := rfl
  have hrule : slowSolver.ruleFor twoArguments 0 = .ok (.maxIter 2 0) := rfl
  obtain ⟨w₀, hbegin⟩ := Solver.begin_of_ok hlog hstart hrule
  obtain ⟨t, hdrive⟩ := Scene.drive_of_limit (A := counter Exact _) (S := everyOther)
    (o := Solver.firstScene twoArguments 0 (.maxIter 2 0) w₀) (n := 2) false ⟨rfl, rfl⟩
    ⟨rfl, by decide⟩ rfl rfl (fun j _ => ⟨_, Number.toReal_eq _⟩) fun _ _ => rfl
  obtain ⟨N, htraced⟩ := Scene.drive_traced ⟨rfl, rfl⟩ hdrive
  obtain ⟨hlast, hbefore⟩ := htraced.last_of_limit (n := 2) rfl
  obtain rfl : N = 2 := by
    have := hbefore (N - 1)
    omega
  exact ⟨_, _, Solver.completed_of_satisfied rfl hbegin hdrive, t.course, rfl, htraced.iteration⟩

/-- A run is evaluated at every other iteration.  Under a limit of two it takes four steps, where two
are the least multiple of the rate that reaches the limit. -/
theorem slowSolver_exceeds_limit :
    IsLeast {m : ℕ | slowSolver.settings.rates.stop ∣ m ∧ 2 ≤ m} 2 ∧
    ∃ s' w', Solver.Completed slowSolver ⟨.empty, 0, #[]⟩ twoArguments s' w' ∧
      ∃ c, s'.phase = .running c ∧ c.iteration = 4 :=
  ⟨⟨⟨by decide, by decide⟩, fun _ hm => hm.2⟩, slowSolver_completed⟩

theorem slowSolver_counts_intervals :
    Criterion.ofLimit (α := Exact) (.number (.int 2)) = .ok (.maxIter 2 0) ∧
    ∃ s' w', Solver.Completed slowSolver ⟨.empty, 0, #[]⟩ twoArguments s' w' ∧
      ∃ u r w₀ c, slowSolver.Opening ⟨.empty, 0, #[]⟩ twoArguments u r w₀ ∧
        s'.phase = .running c ∧ c.iteration = 2 * slowSolver.settings.rates.stop ∧
        c.state = Scene.stateAfter (counter _ _) (Solver.firstScene twoArguments u r w₀) 4 := by
  have hlimit : Criterion.ofLimit (α := Exact) (.number (.int 2)) = .ok (.maxIter 2 0) := rfl
  obtain ⟨s', w', hcompleted, -⟩ := slowSolver_completed
  obtain ⟨u, r, w₀, c, hopening, hphase, hiteration, hstate, -⟩ :=
    (Solver.limit_counts_intervals (n := 2) rfl hlimit .new rfl).1 hcompleted
  exact ⟨hlimit, s', w', hcompleted, u, r, w₀, c, hopening, hphase, hiteration, hstate⟩

end PrimalDual
