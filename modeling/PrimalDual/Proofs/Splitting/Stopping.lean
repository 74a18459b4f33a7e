import PrimalDual.Proofs.Run.Completion
import PrimalDual.Proofs.Run.Ending
import PrimalDual.Proofs.Splitting.DefaultRule
import PrimalDual.Proofs.Splitting.Descent

/-!
# Where the default rule ends a run

The rule is asked at the multiples of the rate of evaluations, and each time it compares the iterates
with those of the evaluation before.  A run that is over without a failure has therefore been ended at
the first multiple, twice the rate or later, at which they have settled.

It takes two things to settle that it is over at all: that its evaluations go through, for which there
has to be a point to measure, and that nothing else hinders it.

* `Scene.Succeeds` — a run whose iterations do not fail.
* `IterationState.Visits` — iterates that are real.
* **`Solver.ends_when_settled`** — the number of iterations of a completed run.
* **`Scene.drive_of_settled`** — the other way round, a run that settles is ended.
* `IterationState.Underway.rests` — an iteration at a saddle point, as an example.
-/

namespace PrimalDual

open Exact NdArray

/-! ## The evaluations of a run -/

namespace Scene

/-- While no step fails, the states of the trace are those of the algorithm by itself. -/
lemma stepMany_stateAfter {α σ κ : Type} {A : Algorithm α σ κ} {o : Scene α σ κ} {k : ℕ}
    (h : ∀ i < k, (A.step (stateAfter A o i)).outcome = .ok ()) :
    A.stepMany k o.course.state = (stateAfter A o k, .ok ()) := by
  induction k with
  | zero => rfl
  | succ k ih =>
    rw [Algorithm.stepMany_succ (ih fun i hi => h i (Nat.lt_succ_of_lt hi)),
      h k (Nat.lt_succ_self k)]
    rfl

end Scene

/-- The first `K` iterations from `s₀` go through stacks of the real points `X` and `Z`. -/
structure IterationState.Visits (s₀ : IterationState Exact) (lead : Shape) (n m : ℕ)
    (X Z : ℕ → ℕ → ℕ → ℝ) (K : ℕ) : Prop where
  primal : ∀ k ≤ K, ∃ b, (s₀.iterateMany k).1.x.Stack b lead n fun r j => finite (X k r j)
  dual : ∀ k ≤ K, ∃ b, (s₀.iterateMany k).1.z.Stack b lead m fun r j => finite (Z k r j)

section

variable {f : Option (Smooth Exact)} {terms : List (TermArgument Exact)}

namespace Scene

variable {S : Settings} {o t : Scene Exact (SplittingState Exact) (Criterion Exact)} {print : Bool}
  {lead : Shape} {n m j k N : ℕ} {X Z : ℕ → ℕ → ℕ → ℝ}

/-- None of the first `k` iterations of a run fails. -/
def Succeeds (f : Option (Smooth Exact)) (terms : List (TermArgument Exact))
    (o : Scene Exact (SplittingState Exact) (Criterion Exact)) (k : ℕ) : Prop :=
  ∀ i < k, ((splittingAlgorithm f terms).step
    (stateAfter (splittingAlgorithm f terms) o i)).outcome = .ok ()

/-- The iterates of a run are those of the iteration. -/
lemma Succeeds.iterateMany (h : Succeeds f terms o k) : o.course.state.iteration.iterateMany k
    = ((stateAfter (splittingAlgorithm f terms) o k).iteration, .ok ()) := by
  have hmany := stepMany_stateAfter h
  rw [splitting_stepMany, Prod.mk.injEq] at hmany
  exact Prod.ext (congrArg SplittingState.iteration hmany.1) hmany.2

/-- In its evaluations the rule is shown every iterate at the rate of evaluations. -/
lemma Succeeds.shows (h : Succeeds f terms o (j * S.rates.stop))
    (hvisits : o.course.state.iteration.Visits lead n m X Z (j * S.rates.stop)) :
    Shows (shownAt (splittingAlgorithm f terms) S o) "x" lead n (fun i => X (i * S.rates.stop)) j ∧
      Shows (shownAt (splittingAlgorithm f terms) S o) "z" lead m
        (fun i => Z (i * S.rates.stop)) j := by
  have hle : ∀ i ≤ j, i * S.rates.stop ≤ j * S.rates.stop := fun i hi => Nat.mul_le_mul_right _ hi
  have hiterate : ∀ i ≤ j, (o.course.state.iteration.iterateMany (i * S.rates.stop)).1
      = (posed (splittingAlgorithm f terms) S o i).state.iteration := by
    intro i hi
    have hsteps : Succeeds f terms o (i * S.rates.stop) := fun e he => h e (he.trans_le (hle i hi))
    rw [hsteps.iterateMany, posed_state]
  constructor
  · intro i hi
    obtain ⟨b, hb⟩ := hvisits.primal _ (hle i hi)
    rw [hiterate i hi] at hb
    exact ⟨_, b, (Course.observe_iterates f terms _ _).1, hb⟩
  · intro i hi
    obtain ⟨b, hb⟩ := hvisits.dual _ (hle i hi)
    rw [hiterate i hi] at hb
    exact ⟨_, b, (Course.observe_iterates f terms _ _).2, hb⟩

/-- The evaluations of a traced run are those of the default rule. -/
lemma Evaluated.decides {d : Bool} (hrule : o.course.rule = o.course.state.defaultRule)
    (h : Evaluated (splittingAlgorithm f terms) S o j d) :
    o.course.state.defaultRule.decides (shownAt (splittingAlgorithm f terms) S o) j = .ok d := by
  have hdecision := h.decision
  rwa [stop_posed, hrule] at hdecision

/-- Of all evaluations after the first two, the iterates have settled in the last one only. -/
lemma Traced.last_iff (hrule : o.course.rule = o.course.state.defaultRule)
    (h : Traced (splittingAlgorithm f terms) S o print N t)
    (hvisits : o.course.state.iteration.Visits lead n m X Z (N * S.rates.stop)) (hj : j ≤ N)
    (hlate : 2 ≤ j) : j = N ↔ Settled o.course.state.absolute o.course.state.useDual lead n m X Z
      ((j - 1) * S.rates.stop) (j * S.rates.stop) := by
  have hsteps : Succeeds f terms o (N * S.rates.stop) := h.steps
  obtain ⟨hx, hz⟩ := hsteps.shows hvisits
  obtain ⟨d, hd, hsettled⟩ :=
    SplittingState.defaultRule_decides (u := o.course.state) (hx.mono hj) (hz.mono hj)
  have hends : d = true ↔ j = N := by
    rcases hj.lt_or_eq with hlt | rfl
    · rw [(h.evaluations j hlt).decides hrule] at hd
      cases hd
      exact iff_of_false Bool.false_ne_true hlt.ne
    · rw [h.last.decides hrule] at hd
      cases hd
      exact iff_of_true rfl rfl
  rw [← hends, hsettled]
  exact and_iff_right hlate

end Scene

namespace Solver

variable {s s' : Solver Exact (SplittingState Exact) (Criterion Exact)} {w w' : World Exact}
  {args : FitArguments Exact (Criterion Exact)}

/--
**The default rule ends a run as soon as the iterates have settled.**  The number of iterations of a
completed run without a rule of its own is the least multiple of the rate of evaluations, at least
twice the rate, at which the iterates are close to what they were one evaluation before.  So the first
iteration is never the last one, not even if it leaves everything as it is.
-/
theorem ends_when_settled (halgorithm : s.algorithm = splittingAlgorithm f terms)
    (hrule : args.rule = none) (h : Completed s w args s' w') :
    ∃ s₀ c, IterationState.start (args.parameters.get "x0") f (some terms)
        (splittingParameters args.parameters) = .ok s₀ ∧
      s'.phase = .running c ∧ s₀.iterateMany c.iteration = (c.state.iteration, .ok ()) ∧
      1 < c.iteration ∧
      ∀ lead n m X Z, s₀.Visits lead n m X Z c.iteration →
        IsLeast {k | s.settings.rates.stop ∣ k ∧ 2 * s.settings.rates.stop ≤ k ∧
          Settled (args.parameters.hints "abs_tol") (args.parameters.hints "use_dual") lead n m X Z
            (k - s.settings.rates.stop) k} c.iteration := by
  obtain ⟨u, rule, w₀, K, c, hopening, hphase, hdrive⟩ := h.driven
  have hstate := hopening.state
  have hdefault := hopening.rule
  rw [ruleFor, hrule] at hdefault
  rw [halgorithm] at hstate hdefault hdrive
  obtain rfl : u.defaultRule = rule := Except.ok.inj hdefault
  obtain ⟨N, htraced⟩ := Scene.drive_traced ⟨rfl, rfl⟩ hdrive
  obtain ⟨hstart, habsolute, hdual⟩ := SplittingState.start_ok hstate
  have hpos := s.settings.rates.stop_pos
  have hsteps : Scene.Succeeds f terms (firstScene args u u.defaultRule w₀)
    (N * s.settings.rates.stop) := htraced.steps
  have hiteration : c.iteration = N * s.settings.rates.stop := htraced.iteration
  have hclear := SplittingState.clear_defaultRule u w₀.now
  have htwo : 2 ≤ N := SplittingState.defaultRule_waits (htraced.last.decides hclear)
  refine ⟨u.iteration, c, hstart, hphase, ?_, ?_, fun lead n m X Z hvisits => ?_⟩
  · rw [hiteration, htraced.state]
    exact hsteps.iterateMany
  · rw [hiteration]
    exact (Nat.lt_of_succ_le htwo).trans_le (Nat.le_mul_of_pos_right N hpos)
  · rw [hiteration] at hvisits ⊢
    rw [← habsolute, ← hdual]
    constructor
    · refine ⟨Nat.dvd_mul_left _ _, Nat.mul_le_mul_right _ htwo, ?_⟩
      rw [← Nat.sub_one_mul]
      exact (htraced.last_iff hclear hvisits le_rfl htwo).mp rfl
    · -- an earlier multiple would be that of an evaluation that has let the run go on
      rintro k ⟨⟨j, rfl⟩, hlate, hk⟩
      rw [Nat.mul_comm _ j] at hlate hk ⊢
      have hj : 2 ≤ j := Nat.le_of_mul_le_mul_right hlate hpos
      refine Nat.mul_le_mul_right _ (Nat.le_of_not_lt fun hlt => ?_)
      rw [← Nat.sub_one_mul] at hk
      exact hlt.ne ((htraced.last_iff hclear hvisits hlt.le hj).mpr hk)

end Solver

/-! ## Runs that settle -/

/-- Whatever the rule reports can be recorded. -/
lemma Course.row_yields {σ κ : Type} [StoppingRule Exact κ] {A : Algorithm Exact σ κ}
    {c : Course Exact σ κ} (h : Yields (c.info A) fun _ => True) :
    Yields (c.row A) fun _ => True := by
  rw [row]
  refine h.bind fun entries _ => ?_
  have hnumbers : ∀ l : List (String × Number Exact), Yields (l.mapM fun entry => do
      let x ← entry.2.toReal
      pure (entry.1, x)) fun _ => True := by
    intro l
    simp only [Number.toReal_eq]
    exact ⟨_, List.mapM_pure, trivial⟩
  exact (hnumbers _).bind fun numbers _ => Yields.pure trivial

namespace Scene

variable {S : Settings} {o : Scene Exact (SplittingState Exact) (Criterion Exact)}
  {lead : Shape} {n m j k N : ℕ} {X Z : ℕ → ℕ → ℕ → ℝ}

lemma succeeds_of_iterateMany (h : ∀ i ≤ k, (o.course.state.iteration.iterateMany i).2 = .ok ()) :
    Succeeds f terms o k := by
  induction k with
  | zero => exact fun i hi => absurd hi (Nat.not_lt_zero i)
  | succ k ih =>
    have hbefore : Succeeds f terms o k := ih fun i hi => h i (Nat.le_succ_of_le hi)
    have hnext := Algorithm.stepMany_succ (stepMany_stateAfter hbefore)
    rw [splitting_stepMany, Prod.mk.injEq] at hnext
    intro i hi
    rcases Nat.lt_succ_iff_lt_or_eq.mp hi with hlt | rfl
    · exact hbefore i hlt
    · rw [← hnext.2]
      exact h (i + 1) le_rfl

/-- Each evaluation of the default rule goes through while the iterates are real. -/
lemma Succeeds.evaluated (ho : Fresh o) (htracker : o.course.tracker = none)
    (hrule : o.course.rule = o.course.state.defaultRule) (hlead : 0 < lead.size)
    (hsteps : Succeeds f terms o (j * S.rates.stop))
    (hvisits : o.course.state.iteration.Visits lead n m X Z (j * S.rates.stop)) :
    ∃ d, Evaluated (splittingAlgorithm f terms) S o j d ∧
      (d = true ↔ 2 ≤ j ∧ Settled o.course.state.absolute o.course.state.useDual lead n m X Z
        ((j - 1) * S.rates.stop) (j * S.rates.stop)) := by
  obtain ⟨hx, hz⟩ := hsteps.shows hvisits
  obtain ⟨d, hd, hsettled⟩ := SplittingState.defaultRule_decides (u := o.course.state) hx hz
  refine ⟨d, evaluated_of_untracked ho htracker ?_ ?_, hsettled⟩
  · rw [stop_posed, hrule]
    exact hd
  · have hinfo : Yields ((judged (splittingAlgorithm f terms) S o j).info
        (splittingAlgorithm f terms)) fun _ => True := by
      rw [info_judged htracker, stop_posed, hrule]
      exact SplittingState.defaultRule_reports hlead hx hz _
    obtain ⟨r, hr, -⟩ := Course.row_yields hinfo
    exact ⟨r, hr⟩

/-- **Where nothing hinders it**, the default rule does end a run whose iterates settle. -/
theorem drive_of_settled (ho : Fresh o) (htracker : o.course.tracker = none)
    (hS : S.rates.Unhindered) (hrule : o.course.rule = o.course.state.defaultRule)
    (hlead : 0 < lead.size) (hsteps : Succeeds f terms o (N * S.rates.stop))
    (hvisits : o.course.state.iteration.Visits lead n m X Z (N * S.rates.stop)) (htwo : 2 ≤ N)
    (hsettled : ∀ j ≤ N, 2 ≤ j → (j = N ↔ Settled o.course.state.absolute o.course.state.useDual
      lead n m X Z ((j - 1) * S.rates.stop) (j * S.rates.stop))) (print : Bool) :
    ∃ t, drive (splittingAlgorithm f terms) S print (N * S.rates.stop + 1) o = (t, .satisfied) := by
  have hevaluated : ∀ j ≤ N, Evaluated (splittingAlgorithm f terms) S o j (decide (j = N)) := by
    intro j hj
    have hle : j * S.rates.stop ≤ N * S.rates.stop := Nat.mul_le_mul_right _ hj
    have hsteps' : Succeeds f terms o (j * S.rates.stop) := fun i hi => hsteps i (hi.trans_le hle)
    obtain ⟨d, hd, hiff⟩ := hsteps'.evaluated ho htracker hrule hlead
      ⟨fun k hk => hvisits.primal k (hk.trans hle), fun k hk => hvisits.dual k (hk.trans hle)⟩
    have hdecide : d = decide (j = N) := by
      rw [Bool.eq_iff_iff, hiff, decide_eq_true_eq]
      constructor
      · rintro ⟨hlate, hnow⟩
        exact (hsettled j hj hlate).mpr hnow
      · intro hend
        have hlate : 2 ≤ j := hend ▸ htwo
        exact ⟨hlate, (hsettled j hj hlate).mp hend⟩
    exact hdecide ▸ hd
  refine drive_of_evaluated ho hS (fun j hj => ?_) ?_ hsteps
  · have hgoing := hevaluated j hj.le
    rwa [decide_eq_false hj.ne] at hgoing
  · have hend := hevaluated N le_rfl
    rwa [decide_eq_true rfl] at hend

end Scene

end

/-! ## A run that rests -/

namespace IterationState

variable {s : IterationState Exact} {m n r : ℕ} {P : Problem m n} {b c : Backend} {lead : Shape}
  {τ σ : ℝ} {x : Fin n → ℝ} {z : Fin m → ℝ}

/-- An iteration that is at a saddle point rests there. -/
lemma Underway.rests (h : s.Underway P b c lead r τ σ x z) (hsaddle : P.IsSaddle x z) (k : ℕ) :
    ∃ s', s.iterateMany k = (s', .ok ()) ∧ s'.Underway P b c lead r τ σ x z := by
  induction k with
  | zero => exact ⟨s, rfl, h⟩
  | succ k ih =>
    obtain ⟨t, hrun, ht⟩ := ih
    obtain ⟨w, ω, hw, hω, -, -⟩ := ht.tame.weight
    obtain ⟨⟨_, _, _, hτ⟩, _, _, _, hσ⟩ := ht.steps
    have hprimal : (t.problem lead m n r).primal.domain.Nonempty := by
      rw [ht.problem_eq]
      exact ⟨x, hsaddle.1.1⟩
    have hdual : (t.problem lead m n r).dual.domain.Nonempty := by
      rw [ht.problem_eq]
      exact ⟨_, hsaddle.2.1⟩
    obtain ⟨X, Z, A, B, p, q, hiterate, -, -, hstep, hloc⟩ :=
      iterate_eq ht.sound ht.steps hprimal hdual ht.located hw hω
    rw [ht.problem_eq] at hstep
    obtain ⟨rfl, rfl⟩ := hstep.unique hτ hσ ((Problem.isStep_self_iff hτ.ne' hσ.ne').mpr hsaddle)
    rw [sub_self, sub_self, smul_zero, smul_zero, add_zero, add_zero] at hloc
    exact ⟨_, (iterateMany_succ k s hrun).trans hiterate, ht.sound.moved X Z A B w, ht.problem_eq,
      ht.steps, ht.tame.advance, hloc⟩

/-- The small problem, at its saddle point from the start. -/
noncomputable def restingState : IterationState Exact :=
  { sampleState .accelerated 0 with method := .accelerated }

lemma restingState_underway : restingState.Underway (restingState.problem [] 1 1 0) .memory .memory
    [] 0 1 (1 / 2) (0 : Fin 1 → ℝ) (0 : Fin 1 → ℝ) where
  sound := by
    have h := sampleState_sound .accelerated 0
    exact ⟨h.sides, h.operator, h.smooth, h.primal, h.dual, h.primal_stays, h.dual_stays,
      h.slope_stays, h.back_stays, h.forth_stays⟩
  problem_eq := rfl
  steps := sampleState_hasSteps .accelerated 0
  tame := ⟨1, one_eq, le_refl 1⟩
  located := ⟨samplePoint_holds 0, samplePoint_holds 0⟩

lemma restingState_rests (k : ℕ) : ∃ t, restingState.iterateMany k = (t, .ok ()) ∧
    t.Located .memory .memory [] 0 (0 : Fin 1 → ℝ) (0 : Fin 1 → ℝ) := by
  obtain ⟨t, hrun, ht⟩ := restingState_underway.rests (sampleState_isSaddle .accelerated 0) k
  exact ⟨t, hrun, ht.located⟩

lemma restingState_visits (K : ℕ) :
    restingState.Visits [] 1 1 (fun _ _ _ => 0) (fun _ _ _ => 0) K := by
  -- there is one point only, so the stack is known when it is
  have hstack {y : NdArray Exact} (hy : y.Holds .memory [] 1 0 (0 : Fin 1 → ℝ)) :
      y.Stack .memory [] 1 fun _ _ => finite 0 := by
    refine hy.stack.congr fun r hr j hj => ?_
    obtain rfl : r = 0 := Nat.lt_one_iff.mp hr
    exact hy.row ⟨j, hj⟩
  constructor
  · intro k _
    obtain ⟨t, hrun, ht⟩ := restingState_rests k
    rw [hrun]
    exact ⟨_, hstack ht.point⟩
  · intro k _
    obtain ⟨t, hrun, ht⟩ := restingState_rests k
    rw [hrun]
    exact ⟨_, hstack ht.dual⟩

end IterationState

open IterationState

/-- The terms of the small problem. -/
noncomputable def restingTerms : List (TermArgument Exact) :=
  [.term (sampleState .accelerated 0).first, .term (sampleState .accelerated 0).second]

noncomputable def restingParameters : Parameters Exact :=
  [("x0", .array (samplePoint 0)), ("method", .text Method.accelerated.tag),
    ("abs_tol", .number (.bool false))]

lemma resting_start : SplittingState.start (some (sampleState .accelerated 0).smooth) restingTerms
    restingParameters = .ok ⟨restingState, false, true⟩ := by
  have hiteration : IterationState.start (.array (samplePoint 0))
      (some (sampleState .accelerated 0).smooth) (some restingTerms)
      (splittingParameters restingParameters) = .ok restingState := by
    show (do
      let steps ← stepSizes (.number (.real (sampleState .accelerated 0).smooth.curvature))
        (.number (.int 1)) .null .null
      let method ← Method.ofTag (.text Method.accelerated.tag)
      let momentum ← Momentum.ofMethod method .null
      pure { restingState with
        tau := steps.1, sigma := steps.2, method := method, momentum := momentum }
        : Except Fault (IterationState Exact)) = _
    rw [sampleState_steps, Method.ofTag_tag]
    rfl
  rw [SplittingState.start]
  show (IterationState.start (.array (samplePoint 0)) _ _ _ >>= _) = _
  rw [hiteration]
  rfl

/-- Every third iterate is judged. -/
def restingSettings : Settings where
  workdir := .ofRoot ⟨"", 0⟩
  rates := ⟨3, none, 3, by decide, by simp, by decide⟩
  showProgress := false
  logged := ["x", "z"]

noncomputable def restingSolver : Solver Exact (SplittingState Exact) (Criterion Exact) :=
  .ofAlgorithm (splittingAlgorithm (some (sampleState .accelerated 0).smooth) restingTerms)
    restingSettings

noncomputable def restingArguments : FitArguments Exact (Criterion Exact) :=
  ⟨.background, none, false, restingParameters⟩

lemma resting_completed : ∃ s' w', Solver.Completed restingSolver ⟨.empty, 0, #[]⟩ restingArguments
    s' w' := by
  refine Solver.completed_of_drive (K := 2 * 3 + 1) rfl rfl resting_start rfl fun w₀ => ?_
  refine Scene.drive_of_settled (N := 2) ⟨rfl, rfl⟩ rfl ⟨rfl, by decide⟩ ?_ ?_ ?_
    (restingState_visits _) le_rfl ?_ _
  · exact SplittingState.clear_defaultRule _ _
  · exact Nat.one_pos
  · refine Scene.succeeds_of_iterateMany fun i _ => ?_
    obtain ⟨t, hrun, -⟩ := restingState_rests i
    exact congrArg Prod.snd hrun
  · intro j hj hlate
    exact iff_of_true (le_antisymm hj hlate) (settled_self _ _ _ _ _ _ _ _ _)

/-- It rests from the start, and the rule sees that in its third evaluation. -/
theorem resting_ends : ∃ s' w' c,
    Solver.Completed restingSolver ⟨.empty, 0, #[]⟩ restingArguments s' w' ∧
      s'.phase = .running c ∧ c.iteration = 6 := by
  obtain ⟨s', w', hcompleted⟩ := resting_completed
  obtain ⟨s₀, c, hstart, hphase, -, -, hleast⟩ := Solver.ends_when_settled rfl rfl hcompleted
  obtain ⟨hsame, -, -⟩ := SplittingState.start_ok resting_start
  have hs₀ : s₀ = restingState := Except.ok.inj (hstart.symm.trans hsame)
  subst hs₀
  obtain ⟨⟨-, hlate, -⟩, hlower⟩ := hleast [] 1 1 _ _ (restingState_visits _)
  refine ⟨s', w', c, hcompleted, hphase, le_antisymm (hlower ?_) hlate⟩
  exact ⟨⟨2, rfl⟩, le_rfl, settled_self _ _ _ _ _ _ _ _ _⟩

end PrimalDual
