import PrimalDual.Proofs.Criterion.Bound
import PrimalDual.Proofs.Run.Ending
import PrimalDual.Proofs.Run.Frame

/-!
# Runs that have to end

Nothing in the loop of a run makes it end; its rule does.  A criterion with a bound has ended a run, at
the latest, when that many evaluations have let it go on, and these are made at the multiples of a
rate.  So the number of ticks is bounded, too, and a larger allowance makes no difference to a blocking
run.

* `Scene.evaluations`, `evaluations_le` — the evaluations that are due within some number of ticks.
* **`drive_ends`** — a run under a criterion with a bound is over after so many ticks.
* `Solver.fit_of_ended` — what a blocking run comes to that is over within its allowance.
* **`Solver.ends_within_bound`** — blocking runs end, after no more evaluations than the bound and one.
-/

namespace PrimalDual

variable {α σ κ : Type} [Scalar α]

namespace Scene

/-! ## Counting evaluations -/

section

variable [StoppingRule α κ]

/-- The evaluations that are due in at most `k` ticks of a run. -/
def evaluations (A : Algorithm α σ κ) (S : Settings) (print : Bool) : ℕ → Scene α σ κ → ℕ
  | 0, _ => 0
  | k + 1, t =>
    (if S.rates.evaluates t.course.iteration then 1 else 0) +
      match tick A S print t with
      | .ok true t => evaluations A S print k t
      | _ => 0

/-- One of the evaluations is due exactly where the number of multiples of their rate grows. -/
lemma due_add_div (r : Rates) (i : ℕ) :
    (if r.evaluates i then 1 else 0) + (i + r.stop - 1) / r.stop = (i + r.stop) / r.stop := by
  have hstop := r.stop_pos
  have hsucc : (i + r.stop - 1 + 1) / r.stop = _ := Nat.succ_div
  rw [Nat.sub_add_cancel (by omega)] at hsucc
  rw [hsucc, Nat.add_comm]
  simp only [Rates.evaluates_iff, Nat.dvd_add_self_right]

/-- There are no more evaluations than multiples of their rate among the iterations. -/
lemma evaluations_le (A : Algorithm α σ κ) (S : Settings) (print : Bool) (k : ℕ)
    (t : Scene α σ κ) :
    evaluations A S print k t + (t.course.iteration + S.rates.stop - 1) / S.rates.stop
      ≤ (t.course.iteration + k + S.rates.stop - 1) / S.rates.stop := by
  induction k generalizing t with
  | zero => simp [evaluations]
  | succ k ih =>
    have hdue := due_add_div S.rates t.course.iteration
    have hmono : (t.course.iteration + S.rates.stop) / S.rates.stop
        ≤ (t.course.iteration + (k + 1) + S.rates.stop - 1) / S.rates.stop :=
      Nat.div_le_div_right (by omega)
    rw [evaluations]
    rcases htick : tick A S print t with ⟨goesOn, u⟩ | ⟨e, u⟩
    · cases goesOn with
      | true =>
        have hu := ih u
        rw [(tick_going htick).iteration] at hu
        have hshift : t.course.iteration + 1 + S.rates.stop - 1
            = t.course.iteration + S.rates.stop := by omega
        have hmore : t.course.iteration + 1 + k = t.course.iteration + (k + 1) := by omega
        rw [hshift, hmore] at hu
        dsimp only
        omega
      | false =>
        dsimp only
        omega
    · dsimp only
      omega

end

/-! ## The last tick -/

section

variable {A : Algorithm α σ (Criterion α)} {S : Settings} {print : Bool}
  {o : Scene α σ (Criterion α)} {B : ℕ}

/-- **A run under a criterion that lets at most `B` evaluations pass** is over one tick after as many
intervals between evaluations. -/
theorem drive_ends (ho : Fresh o) (hB : o.course.rule.remaining ≤ B) :
    (drive A S print (B * S.rates.stop + 1) o).2.goesOn = false := by
  rcases hdrive : drive A S print (B * S.rates.stop + 1) o with ⟨t, st⟩
  cases st with
  | satisfied => rfl
  | failed e => rfl
  | going =>
    have hreached := (Fresh.reached A S print o).drive ho hdrive
    -- otherwise all evaluations up to this one would have let the run go on
    have hgoing : ∀ j ≤ B, o.course.rule.decides (shownAt A S o) j = .ok false := by
      intro j hj
      have hbefore : j * S.rates.stop < 0 + (B * S.rates.stop + 1) := by
        have := Nat.mul_le_mul_right S.rates.stop hj
        omega
      have hdecision := (hreached.evaluations j hbefore).decision
      rwa [stop_posed] at hdecision
    have hlast := Criterion.decides_of_remaining hB (Nat.le_refl B) fun j hj => ⟨_, hgoing j hj⟩
    rw [hgoing B (Nat.le_refl B)] at hlast
    cases hlast

end

end Scene

/-! ## Blocking runs -/

namespace Solver

section

variable [StoppingRule α κ] {s : Solver α σ κ} {w w₀ : World α} {args : FitArguments α κ}
  {u : σ} {rule : κ} {k : ℕ}

/-- A run that is over within its allowance does not make use of a larger one. -/
lemma fit_of_ended (hmode : args.mode = .block)
    (hbegin : s.begin w args = (s.begun args.mode (firstCourse args u rule w₀), w₀, .ok ()))
    (hend : (Scene.drive s.algorithm s.settings (s.prints args.mode) k
      (firstScene args u rule w₀)).2.goesOn = false) {fuel : ℕ} (hk : k ≤ fuel) :
    s.fit fuel w args = s.fit k w args := by
  rcases hdrive : Scene.drive s.algorithm s.settings (s.prints args.mode) k
    (firstScene args u rule w₀) with ⟨t, st⟩
  rw [hdrive] at hend
  have hmore := Scene.drive_of_ended hdrive hend (fuel - k)
  rw [Nat.add_sub_cancel' hk] at hmore
  rw [fit_block hmode hbegin rfl rfl hdrive, fit_block hmode hbegin rfl rfl hmore]

/-- A blocking run that its rule ends is completed. -/
lemma completed_of_satisfied {t : Scene α σ κ} (hmode : args.mode = .block)
    (hbegin : s.begin w args = (s.begun args.mode (firstCourse args u rule w₀), w₀, .ok ()))
    (hdrive : Scene.drive s.algorithm s.settings (s.prints args.mode) k (firstScene args u rule w₀)
      = (t, .satisfied)) :
    s.Completed w args
      { s.begun args.mode (firstCourse args u rule w₀) with phase := .running t.course }.close
      t.world :=
  .block hmode (fit_block hmode hbegin rfl rfl hdrive)
    (fit_of_ended hmode hbegin (by rw [hdrive]; rfl) (Nat.le_succ k))

end

variable {c : Criterion α} {s : Solver α σ (Criterion α)} {w w₀ : World α}
  {args : FitArguments α (Criterion α)} {u : σ} {rule : Criterion α} {B : ℕ}

/-- The last tick of a run under a criterion with a bound. -/
lemma exists_last_tick (hB : c.bound = B) (hrule : args.rule = some c)
    (h : s.Opening w args u rule w₀) :
    ∃ k ≤ B * s.settings.rates.stop + 1,
      (Scene.drive s.algorithm s.settings (s.prints args.mode) k
        (firstScene args u rule w₀)).2.goesOn = false ∧
      Scene.evaluations s.algorithm s.settings (s.prints args.mode) k (firstScene args u rule w₀)
        ≤ B + 1 := by
  have hstop := s.settings.rates.stop_pos
  have hgiven : rule = c := by
    have hfor := h.rule
    rw [ruleFor, hrule] at hfor
    exact (Except.ok.inj hfor).symm
  have hremaining : (firstScene args u rule w₀).course.rule.remaining ≤ B := by
    rw [hgiven]
    exact le_of_eq ((Criterion.remaining_clear _ c).trans hB)
  refine ⟨_, Nat.le_refl _, Scene.drive_ends ⟨rfl, rfl⟩ hremaining, ?_⟩
  have hcount := Scene.evaluations_le s.algorithm s.settings (s.prints args.mode)
    (B * s.settings.rates.stop + 1) (firstScene args u rule w₀)
  have hlast : (0 + (B * s.settings.rates.stop + 1) + s.settings.rates.stop - 1)
      / s.settings.rates.stop = B + 1 := by
    rw [show 0 + (B * s.settings.rates.stop + 1) + s.settings.rates.stop - 1
      = (B + 1) * s.settings.rates.stop by rw [Nat.succ_mul]; omega]
    exact Nat.mul_div_cancel _ hstop
  exact (Nat.le_of_add_right_le hcount).trans (le_of_eq hlast)

/-- Under a criterion with a bound, a blocking run is over after so many ticks, whatever it comes to. -/
lemma exists_allowance (hB : c.bound = B) (hmode : args.mode = .block) (hrule : args.rule = some c) :
    ∃ k ≤ B * s.settings.rates.stop + 1,
      (∀ fuel, k ≤ fuel → s.fit fuel w args = s.fit k w args) ∧
      ∀ u rule w₀, s.Opening w args u rule w₀ →
        Scene.evaluations s.algorithm s.settings (s.prints args.mode) k
          (firstScene args u rule w₀) ≤ B + 1 := by
  rcases hbegin : s.begin w args with ⟨s₁, w₁, e | ⟨⟩⟩
  · -- nothing begins, so no tick is taken
    have hfit : ∀ fuel, s.fit fuel w args = (s₁, w₁, .error e) := fun fuel => fit_refused hbegin
    exact ⟨0, Nat.zero_le _, fun fuel _ => by rw [hfit, hfit], fun u rule w₀ _ => Nat.zero_le _⟩
  · obtain ⟨u, rule, hopening, rfl⟩ := begin_ok hbegin
    obtain ⟨k, hk, hend, hcount⟩ := exists_last_tick hB hrule hopening
    refine ⟨k, hk, fun fuel hfuel => fit_of_ended hmode hbegin hend hfuel,
      fun u' rule' w' hopening' => ?_⟩
    obtain ⟨rfl, rfl, rfl⟩ := hopening.unique hopening'
    exact hcount

/-- Under a criterion with a bound, a blocking run in which nothing is raised is completed. -/
lemma completed_of_allowance (hB : c.bound = B) (hmode : args.mode = .block)
    (hrule : args.rule = some c) {fuel : ℕ} (hfuel : B * s.settings.rates.stop < fuel)
    {s' : Solver α σ (Criterion α)} {w' : World α} (hfit : s.fit fuel w args = (s', w', .ok ())) :
    s.Completed w args s' w' := by
  obtain ⟨k, hk, hover, -⟩ := exists_allowance (s := s) (w := w) hB hmode hrule
  have hle : k ≤ fuel := by omega
  exact .block hmode hfit ((hover (fuel + 1) (Nat.le_succ_of_le hle)).trans (hover fuel hle).symm)

/-- **A criterion with a bound ends every run.**  Once as many evaluations as its bound allows have let
the run go on, every further one stops, as long as no leaf fails.  A blocking run is therefore over
after one evaluation more at the latest, whether its objective is tracked or not and whatever its
algorithm does; a larger allowance of ticks makes no difference to it.  If nothing is raised, the
criterion has ended it. -/
theorem ends_within_bound (hB : c.bound = B) :
    (∀ (now : ℤ) (o : ℕ → Observation α) (k : ℕ), B ≤ k →
      (∀ l ∈ (c.clear now).leaves, ∀ i ≤ k, ∃ d, l.decides o i = .ok d) →
      (c.clear now).decides o k = .ok true) ∧
    ∀ (s : Solver α σ (Criterion α)) (w : World α) (args : FitArguments α (Criterion α)),
      args.mode = .block → args.rule = some c →
      (∃ k ≤ B * s.settings.rates.stop + 1,
        (∀ fuel, k ≤ fuel → s.fit fuel w args = s.fit k w args) ∧
        ∀ u rule w₀, s.Opening w args u rule w₀ →
          Scene.evaluations s.algorithm s.settings (s.prints args.mode) k
            (firstScene args u rule w₀) ≤ B + 1) ∧
      ∀ fuel s' w', B * s.settings.rates.stop < fuel → s.fit fuel w args = (s', w', .ok ()) →
        s.Completed w args s' w' := by
  refine ⟨fun now o k hk hleaves => ?_, fun s w args hmode hrule => ⟨?_, ?_⟩⟩
  · have hdecides := (Criterion.tree_decides (k := k + 1) fun l hl i hi =>
      hleaves l hl i (Nat.le_of_lt_succ hi)).2
    exact Criterion.decides_of_remaining (le_of_eq ((Criterion.remaining_clear now c).trans hB)) hk
      fun i hi => ⟨_, hdecides i (Nat.lt_succ_of_le hi)⟩
  · exact exists_allowance hB hmode hrule
  · exact fun fuel s' w' hfuel hfit => completed_of_allowance hB hmode hrule hfuel hfit

end Solver

/-- Two evaluations at least, and three at most. -/
def threeAtMost : Criterion Float := .both (.maxIter 2 0) (.either .manual (.maxIter 3 0))

/-- A blocking run under it. -/
def threeAtMostArguments : FitArguments Float (Criterion Float) :=
  ⟨.block, some threeAtMost, false, []⟩

theorem threeAtMost_ends :
    threeAtMost.bound = (3 : ℕ) ∧
    (threeAtMost.clear 0).decides Criterion.sight 3 = .ok true ∧
    ∃ k ≤ 7,
      (∀ fuel, k ≤ fuel → counterSolver.fit fuel ⟨.empty, 0, #[]⟩ threeAtMostArguments
        = counterSolver.fit k ⟨.empty, 0, #[]⟩ threeAtMostArguments) ∧
      ∀ u rule w₀, counterSolver.Opening ⟨.empty, 0, #[]⟩ threeAtMostArguments u rule w₀ →
        Scene.evaluations (counter _ _) counterSettings true k
          (Solver.firstScene threeAtMostArguments u rule w₀) ≤ 4 := by
  have hbound : threeAtMost.bound = (3 : ℕ) := by
    show max ((2 : ℕ) : ℕ∞) (min ⊤ ((3 : ℕ) : ℕ∞)) = (3 : ℕ)
    rw [min_eq_right le_top, max_eq_right (Nat.cast_le.2 (by decide))]
  obtain ⟨hstops, hruns⟩ := @Solver.ends_within_bound Float ℕ _ threeAtMost 3 hbound
  refine ⟨hbound, hstops 0 Criterion.sight 3 (by decide) fun l hl i hi => ?_, ?_⟩
  · have hone : l = .maxIter 2 0 ∨ l = .manual ∨ l = .maxIter 3 0 := by
      simpa only [List.mem_cons, List.not_mem_nil, or_false] using
        (show l ∈ [.maxIter 2 0, .manual, .maxIter 3 0] from hl)
    rcases hone with rfl | rfl | rfl
    · exact ⟨_, Criterion.decides_maxIter 2⟩
    · match i, hi with
      | 0, _ | 1, _ | 2, _ | 3, _ => exact ⟨false, rfl⟩
    · exact ⟨_, Criterion.decides_maxIter 3⟩
  · obtain ⟨⟨k, hk, hover, hcount⟩, -⟩ :=
      hruns counterSolver ⟨.empty, 0, #[]⟩ threeAtMostArguments rfl rfl
    exact ⟨k, hk, hover, hcount⟩

end PrimalDual
