import PrimalDual.Proofs.Run.Steps
import PrimalDual.Proofs.Splitting.Setup
import PrimalDual.Scalar.Binary64
import PrimalDual.Splitting.Algorithm

/-!
# The iteration under a driver

A run of the splitting algorithm is the bare iteration with something around it: the parameters of
the run are handed on under other names, absent ones are left out, and between the iterations a rule
is asked, the objective is tracked, and checkpoints are written.

* `Parameters.Corresponds` — parameters of a run beside those of the iteration.
* `start_corresponding` — corresponding parameters set up the same iteration.
* `splitting_stepMany` — the steps of the algorithm are iterations.
* **`run_is_iteration`** — a run is refused where the iteration is, and keeps to it otherwise.
-/

namespace PrimalDual

variable {α : Type}

/-! ## Parameters -/

/-- The parameters `ps` of the iteration are those that a run is given: the weight has another name,
and an optional one that is given as absent may be left out. -/
structure Parameters.Corresponds (given ps : Parameters α) : Prop where
  rescale : ps.getD "rescale" (.number (.bool false)) = given.getD "rescale" (.number (.bool false))
  nu : ps.getD "nu" (.number (.int 1)) = given.getD "nu" (.number (.int 1))
  method : ps.getD "method" (.text Method.plain.tag) = given.getD "method" (.text Method.plain.tag)
  tau : ps.get "tau" = given.get "tau"
  sigma : ps.get "sigma" = given.get "sigma"
  weight : ps.get "lambda" = given.get "lambda_"

namespace Parameters

variable {ps : Parameters α} {name other : String} {v w : Value α}

lemma getD_cons_self : Parameters.getD ((name, v) :: ps) name w = v := by
  simp [getD]

lemma getD_cons_of_ne (h : other ≠ name) :
    Parameters.getD ((other, v) :: ps) name w = ps.getD name w := by
  simp [getD, h]

lemma getD_of_not_mem (h : name ∉ ps.map (·.1)) : ps.getD name w = w := by
  have hnone : ps.find? (fun entry => entry.1 == name) = none := by
    rw [List.find?_eq_none]
    intro entry hmem hname
    exact h (List.mem_map.mpr ⟨entry, hmem, eq_of_beq hname⟩)
  rw [getD, hnone]

/-- Leaving out absent entries makes no difference, unless a name occurs twice. -/
lemma get_filter_present (ps : Parameters α) (h : (ps.map (·.1)).Nodup) (name : String) :
    Parameters.get (ps.filter fun entry => !entry.2.isNull) name = ps.get name := by
  induction ps with
  | nil => rfl
  | cons entry ps ih =>
    obtain ⟨other, v⟩ := entry
    obtain ⟨hother, hnodup⟩ : other ∉ ps.map (·.1) ∧ (ps.map (·.1)).Nodup := List.nodup_cons.mp h
    have hrest := ih hnodup
    by_cases hname : other = name
    · subst hname
      cases v with
      | null =>
        rw [get, get, getD_of_not_mem hother] at hrest
        rw [List.filter_cons_of_neg (by simp [Value.isNull]), get, get, getD_cons_self]
        exact hrest
      | _ =>
        rw [List.filter_cons_of_pos (by simp [Value.isNull]), get, get, getD_cons_self,
          getD_cons_self]
    · cases v with
      | null =>
        rw [List.filter_cons_of_neg (by simp [Value.isNull]), hrest, get, get,
          getD_cons_of_ne hname]
      | _ =>
        rw [List.filter_cons_of_pos (by simp [Value.isNull]), get, getD_cons_of_ne hname, get,
          getD_cons_of_ne hname]
        exact hrest

/-- The optional parameters of a run, under the names that they have in the iteration. -/
def optional (given : Parameters α) : Parameters α :=
  [("tau", given.get "tau"), ("sigma", given.get "sigma"), ("lambda", given.get "lambda_"),
    ("abs_tol", given.get "abs_tol"), ("use_dual", given.get "use_dual")]

lemma splittingParameters_get (given : Parameters α) (hnu : "nu" ≠ name) (hmethod : "method" ≠ name)
    (hrescale : "rescale" ≠ name) : (splittingParameters given).get name = given.optional.get name := by
  have hnodup : (given.optional.map (·.1)).Nodup := by
    show ["tau", "sigma", "lambda", "abs_tol", "use_dual"].Nodup
    decide
  rw [← get_filter_present _ hnodup, splittingParameters, get, List.cons_append,
    getD_cons_of_ne hnu, List.cons_append, getD_cons_of_ne hmethod, List.cons_append,
    getD_cons_of_ne hrescale]
  rfl

/-- The parameters that a run hands on correspond to its own. -/
lemma corresponds_splitting (given : Parameters α) : given.Corresponds (splittingParameters given) where
  rescale := rfl
  nu := rfl
  method := rfl
  tau := splittingParameters_get given (by decide) (by decide) (by decide)
  sigma := splittingParameters_get given (by decide) (by decide) (by decide)
  weight := splittingParameters_get given (by decide) (by decide) (by decide)

end Parameters

variable [Scalar α]

/-! ## The setup -/

namespace IterationState

variable {x₀ : Value α} {f : Option (Smooth α)} {terms : Option (List (TermArgument α))}
  {given ps ps' : Parameters α} {s : IterationState α}

/-- Corresponding parameters set up the same iteration. -/
lemma start_corresponding (h : given.Corresponds ps) (h' : given.Corresponds ps') :
    start x₀ f terms ps = start x₀ f terms ps' := by
  have hread (name : String) (hrescale : name ≠ "rescale") (hnu : name ≠ "nu")
      (hmethod : name ≠ "method") (hget : ps.get name = ps'.get name) :
      ps.withDefaults.get name = ps'.withDefaults.get name := by
    rw [Parameters.withDefaults_get hrescale hnu hmethod,
      Parameters.withDefaults_get hrescale hnu hmethod, hget]
  unfold start
  dsimp only
  rw [Parameters.withDefaults_rescale, Parameters.withDefaults_rescale, h.rescale, h'.rescale,
    Parameters.withDefaults_nu, Parameters.withDefaults_nu, h.nu, h'.nu,
    Parameters.withDefaults_method, Parameters.withDefaults_method, h.method, h'.method,
    hread "tau" (by decide) (by decide) (by decide) (h.tau.trans h'.tau.symm),
    hread "sigma" (by decide) (by decide) (by decide) (h.sigma.trans h'.sigma.symm),
    hread "lambda" (by decide) (by decide) (by decide) (h.weight.trans h'.weight.symm)]

/-- Without a weight the plain method has no schedule to speak of. -/
lemma momentum_of_missing (h : start x₀ f terms ps = .ok s) (hmethod : s.method = .plain)
    (hweight : ps.get "lambda" = .null) : s.momentum = .constant none := by
  have hmomentum := (start_ok h).2.2
  rw [Parameters.withDefaults_get (by decide) (by decide) (by decide), hmethod, hweight] at hmomentum
  exact (Except.ok.inj hmomentum).symm

/-- Without a weight the first iteration fails, at the weight unless it has failed before. -/
lemma iterate_of_missing (h : s.momentum = .constant none) :
    ∃ e, s.iterate = (s, .error e) ∧ ∀ points, s.proximalPoints = .ok points → e = .lambdaMissing := by
  rw [iterate]
  cases s.proximalPoints with
  | error e => exact ⟨e, rfl, fun points h => by cases h⟩
  | ok points =>
    rw [h, Momentum.weight]
    exact ⟨.lambdaMissing, rfl, fun _ _ => rfl⟩

end IterationState

/-- The algorithm is set up like the iteration, from parameters that it knows. -/
lemma SplittingState.start_parallel {f : Option (Smooth α)} {terms : List (TermArgument α)}
    {given ps : Parameters α} (hknown : given.within splittingArguments = true)
    (hpoint : given.has "x0" = true) (hps : given.Corresponds ps) :
    Parallel (fun s u => u.iteration = s)
      (IterationState.start (given.get "x0") f (some terms) ps) (start f terms given) := by
  rw [IterationState.start_corresponding hps given.corresponds_splitting, start, hknown, hpoint,
    if_neg (by decide)]
  dsimp only
  cases IterationState.start (given.get "x0") f (some terms) (splittingParameters given) with
  | error e => exact .refused e
  | ok s => exact .ok rfl

/-! ## The steps -/

/-- The steps of the algorithm are iterations. -/
lemma splitting_stepMany (f : Option (Smooth α)) (terms : List (TermArgument α)) (k : ℕ)
    (u : SplittingState α) : (splittingAlgorithm f terms).stepMany k u
      = ({ u with iteration := (IterationState.iterateMany k u.iteration).1 },
        (IterationState.iterateMany k u.iteration).2) := by
  induction k generalizing u with
  | zero => rfl
  | succ k ih =>
    rw [Algorithm.stepMany, IterationState.iterateMany]
    have hstep : (splittingAlgorithm f terms).step u = u.step := rfl
    rw [hstep, SplittingState.step]
    rcases u.iteration.iterate with ⟨t, e | ⟨⟩⟩
    · rfl
    · exact ih _

/-! ## The run -/

/-- A run has come to where the iteration leads from `s₀`.  None but the last of its iterations has
failed, and if that one has, its failure has come up. -/
structure Course.Iterated (s₀ : IterationState α) (c : Course α (SplittingState α) (Criterion α))
    (faults : List Fault) : Prop where
  state : c.state.iteration = (s₀.iterateMany c.iteration).1
  before : ∀ k < c.iteration, (s₀.iterateMany k).2 = .ok ()
  raised : ∀ e, (s₀.iterateMany c.iteration).2 = .error e → e ∈ faults

namespace Course

variable {f : Option (Smooth α)} {terms : List (TermArgument α)} {u : SplittingState α}
  {s₀ : IterationState α} {c : Course α (SplittingState α) (Criterion α)} {faults : List Fault}

lemma Follows.iterated (h : c.Follows (splittingAlgorithm f terms) u faults) :
    c.Iterated u.iteration faults := by
  obtain ⟨hstate, hbefore, hraised⟩ := h
  simp only [splitting_stepMany] at hstate hbefore hraised
  exact ⟨congrArg SplittingState.iteration hstate, hbefore, hraised⟩

/-- Where the first iteration fails, there is no second one, and the failure comes up. -/
lemma Iterated.first_fails {e : Fault} (h : c.Iterated s₀ faults) (he : s₀.iterate = (s₀, .error e)) :
    c.iteration ≤ 1 ∧ (c.iteration = 1 → e ∈ faults) := by
  have hone : s₀.iterateMany 1 = (s₀, .error e) := by
    rw [IterationState.iterateMany, he]
  constructor
  · refine Nat.le_of_not_lt fun hlt => ?_
    have hsucceeded := h.before 1 hlt
    rw [hone] at hsucceeded
    cases hsucceeded
  · intro hc
    refine h.raised e ?_
    rw [hc, hone]

end Course

namespace Solver

variable {f : Option (Smooth α)} {terms : List (TermArgument α)} {ps : Parameters α}
  {s : Solver α (SplittingState α) (Criterion α)} {w : World α}
  {args : FitArguments α (Criterion α)}

/-- There is always a rule, as the algorithm has one of its own. -/
lemma splitting_rule (halgorithm : s.algorithm = splittingAlgorithm f terms)
    (args : FitArguments α (Criterion α)) (u : SplittingState α) :
    ∃ rule, s.ruleFor args u = .ok rule := by
  rw [ruleFor, halgorithm]
  cases args.rule with
  | some rule => exact ⟨rule, rfl⟩
  | none => exact ⟨u.defaultRule, rfl⟩

/-- A run is refused before there is a state. -/
def Refuses (s : Solver α (SplittingState α) (Criterion α)) (fuel : ℕ) (w : World α)
    (args : FitArguments α (Criterion α)) (e : Fault) : Prop :=
  (s.fit fuel w args).2.2 = .error e ∧ (s.fit fuel w args).1.state? = none

lemma refuses_iff {fuel : ℕ} {e : Fault} (halgorithm : s.algorithm = splittingAlgorithm f terms)
    (hlog : (s.openLog w).2 = .ok ()) :
    s.Refuses fuel w args e ↔ s.algorithm.start args.parameters = .error e := by
  constructor
  · rintro ⟨houtcome, hstate⟩
    cases hstart : s.algorithm.start args.parameters with
    | error e' =>
      obtain ⟨s', w', hbegin, -⟩ := begin_of_error hlog hstart
      rw [fit_refused hbegin] at houtcome
      exact congrArg Except.error (Except.error.inj houtcome)
    | ok u =>
      obtain ⟨rule, hrule⟩ := splitting_rule halgorithm args u
      obtain ⟨w', hbegin⟩ := begin_of_ok hlog hstart hrule
      obtain ⟨c, hc⟩ : ∃ c, (s.fit fuel w args).1.phase = .running c := fit_running hbegin
      rw [state?, hc] at hstate
      cases hstate
  · intro hstart
    obtain ⟨s', w', hbegin, hphase⟩ := begin_of_error hlog hstart
    rw [Refuses, fit_refused hbegin, state?, hphase]
    exact ⟨rfl, rfl⟩

/--
**A run of the splitting algorithm is the iteration.**  It is refused for the reason for which the
setup of the iteration is.  Otherwise, whoever advances it, it has come to the iterates of as many
iterations, none but the last of which has failed; and without a weight the first one does.
-/
theorem run_is_iteration (halgorithm : s.algorithm = splittingAlgorithm f terms)
    (hlog : (s.openLog w).2 = .ok ())
    (hknown : args.parameters.within splittingArguments = true)
    (hpoint : args.parameters.has "x0" = true) (hps : args.parameters.Corresponds ps) :
    (∀ fuel e, s.Refuses fuel w args e ↔
      IterationState.start (args.parameters.get "x0") f (some terms) ps = .error e) ∧
    ∀ s₀, IterationState.start (args.parameters.get "x0") f (some terms) ps = .ok s₀ →
      (∀ s' faults, s.Advanced w args s' faults →
        ∃ c, s'.phase = .running c ∧ c.Iterated s₀ faults) ∧
      (∀ fuel k s₁ w₁ s' w', args.mode = .background → s.fit fuel w args = (s₁, w₁, .ok ()) →
        work k s₁ w₁ = (s', w') → s'.active = true →
        s'.state?.map SplittingState.iteration = some (s₀.iterateMany k).1) ∧
      (s₀.method = .plain → args.parameters.get "lambda_" = .null →
        ∃ e, s₀.iterate = (s₀, .error e) ∧
          (∀ points, s₀.proximalPoints = .ok points → e = .lambdaMissing) ∧
          ∀ s' faults, s.Advanced w args s' faults → ∃ c, s'.phase = .running c ∧
            c.iteration ≤ 1 ∧ (c.iteration = 1 → e ∈ faults)) := by
  have hstart : s.algorithm.start args.parameters = SplittingState.start f terms args.parameters := by
    rw [halgorithm]
    rfl
  have hparallel : Parallel _ _ (SplittingState.start f terms args.parameters) :=
    SplittingState.start_parallel hknown hpoint hps
  constructor
  · intro fuel e
    rw [refuses_iff halgorithm hlog, hstart, hparallel.error_iff]
  · intro s₀ hs₀
    obtain ⟨u, hu, rfl⟩ := hparallel.exists_ok hs₀
    rw [← hstart] at hu
    obtain ⟨rule, hrule⟩ := splitting_rule halgorithm args u
    have hiterated (s' : Solver α (SplittingState α) (Criterion α)) (faults : List Fault)
        (h : s.Advanced w args s' faults) :
        ∃ c, s'.phase = .running c ∧ c.Iterated u.iteration faults := by
      obtain ⟨c, hc, hfollows⟩ := advanced_follows hlog hu hrule h
      rw [halgorithm] at hfollows
      exact ⟨c, hc, hfollows.iterated⟩
    refine ⟨hiterated, ?_, ?_⟩
    · intro fuel k s₁ w₁ s' w' hmode hfit hwork hactive
      obtain ⟨v, hv, hsteps⟩ := work_steps hlog hu hrule hmode hfit hwork hactive
      rw [halgorithm, splitting_stepMany] at hsteps
      rw [hv, ← (Prod.mk.inj hsteps).1]
      rfl
    · intro hplain hweight
      have hmomentum := IterationState.momentum_of_missing hs₀ hplain (hps.weight.trans hweight)
      obtain ⟨e, he, hmissing⟩ := IterationState.iterate_of_missing hmomentum
      refine ⟨e, he, hmissing, fun s' faults h => ?_⟩
      obtain ⟨c, hc, hc'⟩ := hiterated s' faults h
      exact ⟨c, hc, hc'.first_fails he⟩

end Solver

/-! ## The absolute value in the background -/

/-- Every step is judged and reported, and every other one saved. -/
def watchfulSettings : Settings where
  workdir := .ofRoot ⟨"", 0⟩
  rates := ⟨1, some 2, 1, by decide, by simp, by decide⟩
  showProgress := false
  logged := ["x", "z"]

/-- The minimisation of the absolute values of three numbers. -/
def absoluteTerms : List (TermArgument Float) := [.term (.plain .absolute none none), .absent]

def absoluteSolver : Solver Float (SplittingState Float) (Criterion Float) :=
  .ofAlgorithm (splittingAlgorithm none absoluteTerms) watchfulSettings

def absolutePoint : NdArray Float := .tabulate .memory [3] .double fun k => Scalar.ofInt k

def absoluteArguments : FitArguments Float (Criterion Float) where
  mode := .background
  rule := some (.maxIter 5 0)
  tracking := true
  parameters := [("x0", .array absolutePoint), ("tau", .number (.int 1)), ("sigma", .number (.int 1)),
    ("lambda_", .number (.int 1)), ("use_dual", .null)]

/-- What the iteration is given in such a run. -/
def absoluteParameters : Parameters Float :=
  [("tau", .number (.int 1)), ("sigma", .number (.int 1)), ("lambda", .number (.int 1))]

/-- The solver when its run has been started. -/
def absoluteRun : Solver Float (SplittingState Float) (Criterion Float) × World Float ×
    Except Fault Unit := absoluteSolver.fit 0 ⟨.empty, 0, #[]⟩ absoluteArguments

lemma absolute_start : ∃ s₀,
    IterationState.start (.array absolutePoint) none (some absoluteTerms) absoluteParameters
      = .ok s₀ := by
  have hmethod : absoluteParameters.getD "method" (.text Method.plain.tag)
      = .text Method.plain.tag := rfl
  unfold IterationState.start
  dsimp only
  rw [Parameters.withDefaults_method, hmethod, Method.ofTag_tag]
  exact ⟨_, rfl⟩

theorem absolute_run_is_iteration : ∃ s₀,
    IterationState.start (.array absolutePoint) none (some absoluteTerms) absoluteParameters
      = .ok s₀ ∧
    absoluteRun.2.2 = .ok () ∧
    ∀ k, ∃ c, (Solver.work k absoluteRun.1 absoluteRun.2.1).1.phase = .running c ∧
      c.Iterated s₀ (Solver.work k absoluteRun.1 absoluteRun.2.1).1.failure.toList := by
  have hps : absoluteArguments.parameters.Corresponds absoluteParameters :=
    ⟨rfl, rfl, rfl, rfl, rfl, rfl⟩
  obtain ⟨hrefused, hrun⟩ := @Solver.run_is_iteration Float _ none absoluteTerms absoluteParameters
    absoluteSolver ⟨.empty, 0, #[]⟩ absoluteArguments rfl rfl (by decide) (by decide) hps
  obtain ⟨s₀, hs₀⟩ := absolute_start
  have hparallel : Parallel _ (IterationState.start (.array absolutePoint) none
      (some absoluteTerms) absoluteParameters) _ :=
    SplittingState.start_parallel (by decide) (by decide) hps
  obtain ⟨u, hu, -⟩ := hparallel.exists_ok hs₀
  have hstart : absoluteSolver.algorithm.start absoluteArguments.parameters = .ok u := hu
  obtain ⟨w', hbegin⟩ := Solver.begin_of_ok (w := ⟨.empty, 0, #[]⟩) rfl hstart rfl
  have hok : absoluteRun.2.2 = .ok () := by
    rw [absoluteRun, Solver.fit_background rfl hbegin]
  refine ⟨s₀, hs₀, hok, fun k => ?_⟩
  exact (hrun s₀ hs₀).1 _ _ (.background rfl (Prod.ext rfl (Prod.ext rfl hok)) rfl)

end PrimalDual
