import PrimalDual.Proofs.Run.Reached
import PrimalDual.Proofs.Run.Start
import PrimalDual.Scalar.Binary64

/-!
# Completed runs

A run is completed when its rule has ended it and nothing went wrong, whoever has advanced it: the
caller that started it, a worker, or the pulls of a caller.  A blocking run is given an allowance of
ticks here; it is completed when a larger one makes no difference.

* `Completed` — the completed runs of a solver.
* `driven_of_block`, `driven_of_background`, `driven_of_manual` — all of them are runs of ticks that
  the rule has ended.
* **`completed_traced`** — every completed run is traced: its steps, its evaluations, its records,
  its reports and its checkpoints are those that its rates prescribe, and no others.
* `counter` — an algorithm that counts its steps, with a run of each mode.
-/

namespace PrimalDual

variable {α σ κ : Type} [Scalar α] [StoppingRule α κ]

namespace Scene

variable {A : Algorithm α σ κ} {S : Settings} {print : Bool} {o t u : Scene α σ κ} {k : ℕ}

/-- The tick that ends a run leaves one more record. -/
lemma records_of_satisfied (h : tick A S print t = .ok false u) :
    u.course.records.size = t.course.records.size + 1 := by
  rcases work_ok (tick_ok h) with ⟨-, htrue, -⟩ | ⟨-, v, v', htrack, hrest⟩
  · cases htrue
  rcases hrest with ⟨hevaluate, -, hfinish⟩ | ⟨-, htrue, -⟩
  · obtain ⟨v'', v₃, hrecord, hreport, hsave⟩ := finish_ok hfinish
    obtain ⟨a, -, rfl⟩ := trackObjective_ok htrack
    obtain ⟨-, rfl⟩ := evaluate_ok hevaluate
    obtain ⟨r, -, rfl⟩ := record_ok hrecord
    obtain ⟨r', -, rfl⟩ := report_ok hreport
    rw [(save_events print hsave).1]
    show (Array.push _ r).size = _
    rw [Array.size_push, judge_keeps]
  · cases htrue

/-- A run that goes on is changed by one more tick. -/
lemma drive_changes (ho : Fresh o) (hgoing : drive A S print k o = (t, .going))
    (h : drive A S print (k + 1) o = (u, .going) ∨ drive A S print (k + 1) o = (u, .satisfied)) :
    u.course ≠ t.course := by
  intro heq
  rcases h with h | h
  · have ht := ((Fresh.reached A S print o).drive ho hgoing).course
    have hu := ((Fresh.reached A S print o).drive ho h).course
    rw [heq, ht] at hu
    have hk := congrArg Course.iteration hu
    rw [reached_iteration ho, reached_iteration ho] at hk
    omega
  · have hsize := records_of_satisfied (tick_of_satisfied hgoing h)
    rw [heq] at hsize
    omega

end Scene

namespace Solver

variable {s s' : Solver α σ κ} {w w' : World α} {args : FitArguments α κ}

/-- A completed run, from before it is started to when it is over. -/
inductive Completed (s : Solver α σ κ) (w : World α) (args : FitArguments α κ) :
    Solver α σ κ → World α → Prop
  | block {fuel : ℕ} {s' : Solver α σ κ} {w' : World α} (hmode : args.mode = .block)
      (hfit : s.fit fuel w args = (s', w', .ok ()))
      (hover : s.fit (fuel + 1) w args = s.fit fuel w args) : Completed s w args s' w'
  | background {fuel k : ℕ} {s₁ s' : Solver α σ κ} {w₁ w' : World α}
      (hmode : args.mode = .background) (hfit : s.fit fuel w args = (s₁, w₁, .ok ()))
      (hwork : work k s₁ w₁ = (s', w')) (hover : s'.active = false) (hfailure : s'.failure = none) :
      Completed s w args s' w'
  | manual {fuel : ℕ} {s₁ s' : Solver α σ κ} {w₁ w' : World α} {pulls : List (Value α × ℕ)}
      {outs : List (Pulled α)} (hmode : args.mode = .manual)
      (hfit : s.fit fuel w args = (s₁, w₁, .ok ()))
      (hpull : pullAll pulls s₁ w₁ = (s', w', outs)) (hover : s'.mode = none)
      (hfailure : ∀ o ∈ outs, o.failure = none) : Completed s w args s' w'

/-- The scene at the start of a run. -/
abbrev firstScene (args : FitArguments α κ) (u : σ) (rule : κ) (w : World α) : Scene α σ κ :=
  ⟨firstCourse args u rule w, w⟩

/-- The run from before it is started to `s'` is a run of ticks that its rule ends. -/
def Driven (s : Solver α σ κ) (w : World α) (args : FitArguments α κ) (s' : Solver α σ κ)
    (w' : World α) : Prop :=
  ∃ u rule w₀ k c, s.Opening w args u rule w₀ ∧ s'.phase = .running c ∧
    Scene.drive s.algorithm s.settings (s.prints args.mode) k (firstScene args u rule w₀)
      = (⟨c, w'⟩, .satisfied)

/-- A blocking run that a larger allowance leaves as it is has been ended by its rule. -/
lemma driven_of_block {fuel : ℕ} (hmode : args.mode = .block)
    (hfit : s.fit fuel w args = (s', w', .ok ()))
    (hover : s.fit (fuel + 1) w args = s.fit fuel w args) : s.Driven w args s' w' := by
  obtain ⟨u, rule, w₁, hopening, hbegin⟩ := begin_of_fit hfit
  rcases hd : Scene.drive s.algorithm s.settings (s.prints args.mode) fuel
    (firstScene args u rule w₁) with ⟨t, st⟩
  rw [fit_block hmode hbegin rfl rfl hd] at hfit hover
  cases st with
  | satisfied =>
    cases hfit
    exact ⟨u, rule, w₁, fuel, t.course, hopening, rfl, hd⟩
  | failed e => cases hfit
  | going =>
    -- one more tick would show in the course
    rcases hd' : Scene.drive s.algorithm s.settings (s.prints args.mode) (fuel + 1)
      (firstScene args u rule w₁) with ⟨t', st'⟩
    rw [fit_block hmode hbegin rfl rfl hd'] at hover
    have hphase := congrArg (fun r => r.1.phase) hover
    have hcourse : t'.course = t.course := Phase.running.inj hphase
    have houtcome : raised st'.failure = .ok () := congrArg (fun r => r.2.2) hover
    refine absurd hcourse (Scene.drive_changes ⟨rfl, rfl⟩ hd ?_)
    cases st' with
    | going => exact Or.inl hd'
    | satisfied => exact Or.inr hd'
    | failed e => cases houtcome

lemma driven_of_background {fuel k : ℕ} {s₁ : Solver α σ κ} {w₁ : World α}
    (hmode : args.mode = .background) (hfit : s.fit fuel w args = (s₁, w₁, .ok ()))
    (hwork : work k s₁ w₁ = (s', w')) (hover : s'.active = false) (hfailure : s'.failure = none) :
    s.Driven w args s' w' := by
  obtain ⟨u, rule, w₂, hopening, hbegin⟩ := begin_of_fit hfit
  rw [fit_background hmode hbegin] at hfit
  cases hfit
  rcases hd : Scene.drive s.algorithm s.settings (s.prints args.mode) k
    (firstScene args u rule w₁) with ⟨t, st⟩
  rw [work_eq hd rfl rfl rfl] at hwork
  cases hwork
  cases st with
  | satisfied => exact ⟨u, rule, w₁, k, t.course, hopening, rfl, hd⟩
  | failed e => cases hfailure
  | going => cases hover

lemma driven_of_manual {fuel : ℕ} {s₁ : Solver α σ κ} {w₁ : World α} {outs : List (Pulled α)}
    (pulls : List (Value α × ℕ)) (hmode : args.mode = .manual)
    (hfit : s.fit fuel w args = (s₁, w₁, .ok ())) (hpull : pullAll pulls s₁ w₁ = (s', w', outs))
    (hover : s'.mode = none) (hfailure : ∀ o ∈ outs, o.failure = none) :
    s.Driven w args s' w' := by
  obtain ⟨u, rule, w₂, hopening, hbegin⟩ := begin_of_fit hfit
  rw [fit_manual hmode hbegin] at hfit
  cases hfit
  have htaken := pullAll_taken (s := { s.begun args.mode (firstCourse args u rule w₁) with
    mode := some .manual }) (w := w₁) pulls rfl rfl
  rw [hpull] at htaken
  cases htaken with
  | going h => cases hover
  | @ended k v t st before after last hgoing h hst hitems hbefore hlast hafter =>
    refine ⟨u, rule, w₁, k + 1, t.course, hopening, rfl, ?_⟩
    have hnone := hfailure last (List.mem_append_right _ List.mem_cons_self)
    rw [hlast] at hnone
    cases st with
    | satisfied => exact h
    | failed e => cases hnone
    | going => cases hst
  | refused h ho hfail =>
    rw [hfailure _ ho] at hfail
    cases hfail

lemma Completed.driven (h : Completed s w args s' w') : s.Driven w args s' w' := by
  cases h with
  | block hmode hfit hover => exact driven_of_block hmode hfit hover
  | background hmode hfit hwork hover hfailure =>
    exact driven_of_background hmode hfit hwork hover hfailure
  | manual hmode hfit hpull hover hfailure =>
    exact driven_of_manual _ hmode hfit hpull hover hfailure

/-- **A completed run is traced.** -/
theorem completed_traced (h : Completed s w args s' w') :
    ∃ u rule w₀ c N, s.Opening w args u rule w₀ ∧ s'.phase = .running c ∧
      Scene.Traced s.algorithm s.settings (firstScene args u rule w₀) (s.prints args.mode) N
        ⟨c, w'⟩ := by
  obtain ⟨u, rule, w₀, k, c, hopening, hphase, hdrive⟩ := h.driven
  obtain ⟨N, htraced⟩ := Scene.drive_traced ⟨rfl, rfl⟩ hdrive
  exact ⟨u, rule, w₀, c, N, hopening, hphase, htraced⟩

end Solver

/-! ## A counter -/

/-- The algorithm that counts its steps, each of which takes a microsecond. -/
def counter (α κ : Type) [Scalar α] : Algorithm α ℕ κ where
  start _ := .ok 0
  step n := ⟨n + 1, 1, .ok ()⟩
  bindings n := [⟨"x", .array (.tabulateWhole .memory [1] .int64 fun _ => n), true⟩]
  objective := none
  rule _ := .error .noDefaultCriterion
  note _ := none
  solution _ _ _ := .error .abstract

/-- An evaluation every other step, a report every fourth one, and a checkpoint at the end. -/
def counterSettings : Settings where
  workdir := .ofRoot ⟨"", 0⟩
  rates := ⟨2, some 0, 4, by decide, by simp, by decide⟩
  showProgress := true
  logged := ["x"]

def counterSolver : Solver Float ℕ (Criterion Float) := .ofAlgorithm (counter _ _) counterSettings

/-- A run until more than three microseconds have passed. -/
def counterArguments (m : Mode) : FitArguments Float (Criterion Float) :=
  ⟨m, some (.maxDuration 3 0 0), false, []⟩

/-- What a blocking run of the counter comes to within five ticks. -/
def counterRun : Solver Float ℕ (Criterion Float) × World Float × Except Fault Unit :=
  counterSolver.fit 5 ⟨.empty, 0, #[]⟩ (counterArguments .block)

theorem counter_traced :
    Solver.Completed counterSolver ⟨.empty, 0, #[]⟩ (counterArguments .block) counterRun.1
      counterRun.2.1 ∧
    ∃ u rule w₀ c N,
      counterSolver.Opening ⟨.empty, 0, #[]⟩ (counterArguments .block) u rule w₀ ∧
      counterRun.1.phase = .running c ∧
      Scene.Traced (counter _ _) counterSettings
        (Solver.firstScene (counterArguments .block) u rule w₀) true N ⟨c, counterRun.2.1⟩ := by
  have hover : counterSolver.fit (5 + 1) ⟨.empty, 0, #[]⟩ (counterArguments .block)
      = counterSolver.fit 5 ⟨.empty, 0, #[]⟩ (counterArguments .block) := rfl
  have hcompleted : Solver.Completed counterSolver ⟨.empty, 0, #[]⟩ (counterArguments .block)
      counterRun.1 counterRun.2.1 := .block rfl rfl hover
  exact ⟨hcompleted, Solver.completed_traced hcompleted⟩

end PrimalDual
