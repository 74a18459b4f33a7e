import PrimalDual.Proofs.Criterion.Composition
import PrimalDual.Proofs.Run.Completion

/-!
# Runs that nothing hinders

The trace of a run says what has happened once its rule has ended it.  The other way round, a run
comes to its end if its evaluations and its steps go through and nothing else can fail.  Two things
have to be asked for: a checkpoint depends on the files around it, so none is taken, and reports have
a rate.

* `Rates.Unhindered` — both of these.
* `proceed_of_step`, `Reached.evaluates` — actions that go through.
* `Reached.goes_on`, `Reached.comes_to_end` — ticks that go through.
* **`drive_of_evaluated`** — the rule ends the run.
* `evaluated_of_untracked` — what an evaluation needs to go through.
* `posed_rule`, `stop_posed` — a criterion that ends a run is asked one evaluation after the other.
* `completed_of_drive` — such a run is completed.
-/

namespace PrimalDual

variable {α σ κ : Type}

/-- No checkpoints are taken, and the rate of reports is not zero. -/
structure Rates.Unhindered (r : Rates) : Prop where
  writeback : r.writeback = none
  report : r.report ≠ 0

section

variable [Scalar α] [StoppingRule α κ]

namespace Scene

variable {A : Algorithm α σ κ} {S : Settings} {o t : Scene α σ κ} {print : Bool} {i j k N : ℕ}

/-! ## Actions -/

omit [Scalar α] [StoppingRule α κ] in
lemma bind_of_ok {β γ : Type} {x : Action α σ κ β} {f : β → Action α σ κ γ} {b : β}
    {t u : Scene α σ κ} (h : x t = .ok b u) : (x >>= f) t = f b u := by
  show EStateM.bind x f t = _
  rw [EStateM.bind, h]

omit [StoppingRule α κ] in
/-- Where a report is due there has to be something to report. -/
lemma proceed_of_step (hS : S.rates.Unhindered)
    (hlast : S.rates.stop ∣ i → ∃ r, t.course.records.back? = some r)
    (hstep : (A.step t.course.state).outcome = .ok ()) : ∃ u, proceed A S print i t = .ok () u := by
  have hwriteback : S.rates.writesBack i = false := by
    rw [Rates.writesBack, hS.writeback]
  have hadvance : ∀ v : Scene α σ κ, v.course = t.course → ∃ u, advance A v = .ok () u := by
    intro v hv
    rw [advance, hv, hstep]
    exact ⟨_, rfl⟩
  cases hdue : S.rates.reports i with
  | error e =>
    rw [Rates.reports, if_neg hS.report] at hdue
    cases hdue
  | ok due =>
    cases due with
    | false =>
      obtain ⟨u, hu⟩ := hadvance t rfl
      refine ⟨u, ?_⟩
      rw [proceed, hdue, hwriteback]
      exact hu
    | true =>
      obtain ⟨r, hr⟩ := hlast (Rates.stop_dvd_of_reports ((Rates.reports_ok hdue).mp rfl))
      obtain ⟨u, hu⟩ := hadvance (t.log S print (.statistics t.course.iteration r)) rfl
      refine ⟨u, ?_⟩
      have hreport : report S print t
          = .ok () (t.log S print (.statistics t.course.iteration r)) := by
        rw [report, hr]
      rw [proceed, hdue, hwriteback]
      exact (bind_of_ok hreport).trans hu

omit [Scalar α] [StoppingRule α κ] in
/-- Where the tracked objective has a value, it is tracked. -/
lemma trackObjective_of_tracked {a : Option (NdArray α)}
    (h : trackedObjective A (t.course.tracked A) = .ok a) :
    trackObjective A t = .ok () { t with course := t.course.tracked A } := by
  obtain ⟨⟨state, objective, records, iteration, rule, tracker⟩, w⟩ := t
  cases tracker with
  | none => rfl
  | some memo =>
    simp only [trackObjective, Course.tracked, trackedObjective] at h ⊢
    cases hobjective : A.objective with
    | none =>
      rw [hobjective] at h
      cases h
    | some f =>
      simp only [hobjective] at h ⊢
      cases hvalue : f state with
      | error e =>
        rw [hvalue] at h
        cases h
      | ok b => rfl

/-! ## Ticks -/

namespace Reached

/-- An evaluation that goes through. -/
lemma evaluates {d : Bool} (h : Reached A S o print (j * S.rates.stop) t)
    (hevaluated : Evaluated A S o j d) :
    trackObjective A t = .ok () ⟨posed A S o j, t.world⟩ ∧
      Scene.evaluate A ⟨posed A S o j, t.world⟩ = .ok d ⟨judged A S o j, t.world⟩ ∧
      record A ⟨judged A S o j, t.world⟩ = .ok () ⟨left A S o j, t.world⟩ ∧
      (left A S o j).records.back? = some (rowAt A S o j) := by
  have hposed : t.course.tracked A = posed A S o j := by
    rw [posed_eq, h.course]
  have hleft : left A S o j = { judged A S o j with
      records := (judged A S o j).records.push (rowAt A S o j) } := by
    rw [left, Course.recorded, hevaluated.row]
  refine ⟨?_, ?_, ?_, ?_⟩
  · rw [← hposed]
    refine trackObjective_of_tracked (a := (posed A S o j).objective) ?_
    rw [hposed]
    exact hevaluated.objective
  · have hjudge : (posed A S o j).judge A t.world.now = (judged A S o j, .ok d) := by
      rw [h.clock]
      exact Prod.ext rfl hevaluated.verdict
    rw [Scene.evaluate, hjudge]
  · rw [record, hleft, hevaluated.row]
  · rw [hleft]
    exact Array.back?_push

/-- A tick that lets the run go on. -/
lemma goes_on (ho : Fresh o) (hS : S.rates.Unhindered) (h : Reached A S o print k t)
    (hstep : (A.step (stateAfter A o k)).outcome = .ok ())
    (hevaluated : ∀ j, j * S.rates.stop = k → Evaluated A S o j false) :
    ∃ u, Scene.tick A S print t = .ok true u := by
  have hi : t.course.iteration = k := by
    rw [h.course, reached_iteration ho]
  suffices hwork : ∃ u, work A S print k t = .ok true u by
    obtain ⟨u, hu⟩ := hwork
    exact ⟨u, by rw [Scene.tick, hi, hu]⟩
  by_cases hdvd : S.rates.stop ∣ k
  · have hdue := Rates.evaluates_iff.mpr hdvd
    obtain ⟨j, rfl⟩ := Rates.exists_of_evaluates hdue
    obtain ⟨htrack, hevaluate, hrecord, hback⟩ := h.evaluates (hevaluated j rfl)
    rw [← left_state] at hstep
    have hproceed : ∃ u, proceed A S print (j * S.rates.stop) ⟨left A S o j, t.world⟩ = .ok () u :=
      proceed_of_step hS (fun _ => ⟨_, hback⟩) hstep
    obtain ⟨u, hu⟩ := hproceed
    refine ⟨u, ?_⟩
    rw [work, hdue]
    refine (bind_of_ok htrack).trans <| (bind_of_ok hevaluate).trans ?_
    exact (bind_of_ok hrecord).trans <| (bind_of_ok hu).trans rfl
  · have hdue : S.rates.evaluates k = false := by
      rw [← Bool.not_eq_true, Rates.evaluates_iff]
      exact hdvd
    have hstep' : (A.step t.course.state).outcome = .ok () := by
      rw [h.course, reached_state]
      exact hstep
    have hproceed : ∃ u, proceed A S print k t = .ok () u :=
      proceed_of_step hS (fun h => absurd h hdvd) hstep'
    obtain ⟨u, hu⟩ := hproceed
    refine ⟨u, ?_⟩
    rw [work, hdue]
    exact (bind_of_ok hu).trans rfl

/-- The tick in which the rule ends the run. -/
lemma comes_to_end (ho : Fresh o) (hS : S.rates.Unhindered)
    (h : Reached A S o print (N * S.rates.stop) t) (hlast : Evaluated A S o N true) :
    ∃ u, Scene.tick A S print t = .ok false u := by
  have hi : t.course.iteration = N * S.rates.stop := by
    rw [h.course, reached_iteration ho]
  have hdue := Rates.evaluates_iff.mpr (Nat.dvd_mul_left S.rates.stop N)
  obtain ⟨htrack, hevaluate, hrecord, hback⟩ := h.evaluates hlast
  have hwriteback : S.rates.writeback.isSome = false := by rw [hS.writeback]; rfl
  obtain ⟨v, hreport⟩ : ∃ v, report S print ⟨left A S o N, t.world⟩ = .ok () v := by
    rw [report, hback]
    exact ⟨_, rfl⟩
  have hfinish : ∃ u, finish A S print ⟨judged A S o N, t.world⟩ = .ok () u := by
    refine ⟨v.log S print .satisfied, ?_⟩
    rw [finish, hwriteback]
    exact (bind_of_ok hrecord).trans <| (bind_of_ok hreport).trans rfl
  obtain ⟨u, hu⟩ := hfinish
  have hwork : work A S print (N * S.rates.stop) t = .ok false u := by
    rw [work, hdue]
    refine (bind_of_ok htrack).trans <| (bind_of_ok hevaluate).trans ?_
    exact (bind_of_ok hu).trans rfl
  exact ⟨u, by rw [Scene.tick, hi, hwork]⟩

end Reached

/-- **A run that nothing hinders** is ended by its rule. -/
theorem drive_of_evaluated (ho : Fresh o) (hS : S.rates.Unhindered)
    (hbefore : ∀ j < N, Evaluated A S o j false) (hlast : Evaluated A S o N true)
    (hsteps : ∀ k < N * S.rates.stop, (A.step (stateAfter A o k)).outcome = .ok ()) :
    ∃ t, drive A S print (N * S.rates.stop + 1) o = (t, .satisfied) := by
  -- by induction on the ticks: that they follow the trace tells what the next one works on
  have hgoing : ∀ k ≤ N * S.rates.stop, ∃ t, drive A S print k o = (t, .going) := by
    intro k
    induction k with
    | zero => exact fun _ => ⟨o, rfl⟩
    | succ k ih =>
      intro hk
      obtain ⟨t, ht⟩ := ih (Nat.le_of_succ_le hk)
      have hreached : Reached A S o print (0 + k) t := (Fresh.reached A S print o).drive ho ht
      rw [Nat.zero_add] at hreached
      obtain ⟨u, hu⟩ := hreached.goes_on ho hS (hsteps k hk) fun j hj => hbefore j <|
        Nat.lt_of_mul_lt_mul_right (a := S.rates.stop) (by omega)
      exact ⟨u, by rw [drive_succ ht, hu]⟩
  obtain ⟨t, ht⟩ := hgoing _ (Nat.le_refl _)
  have hreached := (Fresh.reached A S print o).drive ho ht
  rw [Nat.zero_add] at hreached
  obtain ⟨u, hu⟩ := hreached.comes_to_end ho hS hlast
  exact ⟨u, by rw [drive_succ ht, hu]⟩

/-! ## Evaluations -/

omit [Scalar α] in
/-- Without a tracked objective, what an evaluation comes to is what the rule says. -/
lemma judge_untracked {c : Course α σ κ} (hc : c.tracker = none) (now : Int) :
    c.judge A now = ({ c with rule := (StoppingRule.stop c.rule (c.observe A now)).1 },
      (StoppingRule.stop c.rule (c.observe A now)).2) := by
  rw [Course.judge]
  rcases StoppingRule.stop c.rule (c.observe A now) with ⟨rule, e | d⟩
  · rfl
  · simp only [hc]

/-- A run that does not track its objective does not do so later. -/
lemma posed_untracked (h : o.course.tracker = none) (j : ℕ) : (posed A S o j).tracker = none := by
  induction j with
  | zero => exact h
  | succ j ih =>
    show (judged A S o j).tracker = none
    rw [judged, judge_untracked ih]
    exact ih

/-- What it reports is what the rule reports. -/
lemma info_judged (h : o.course.tracker = none) (j : ℕ) :
    (judged A S o j).info A = StoppingRule.info
      (StoppingRule.stop (posed A S o j).rule (shownAt A S o j)).1
      (Observation.memoryOf ((judged A S o j).bindings A)) := by
  have htracker : (judged A S o j).tracker = none := by
    rw [judged, judge_untracked (posed_untracked h j)]
    exact posed_untracked h j
  have hrule : (judged A S o j).rule
      = (StoppingRule.stop (posed A S o j).rule (shownAt A S o j)).1 := judge_rule A _ _
  rw [Course.info, htracker, hrule]
  rcases StoppingRule.info (StoppingRule.stop (posed A S o j).rule (shownAt A S o j)).1
    (Observation.memoryOf ((judged A S o j).bindings A)) with e | entries <;> rfl

/-- An evaluation goes through if the rule comes to a decision and has something to report. -/
lemma evaluated_of_untracked {d : Bool} (ho : Fresh o) (h : o.course.tracker = none)
    (hdecision : (StoppingRule.stop (posed A S o j).rule (shownAt A S o j)).2 = .ok d)
    (hrow : ∃ r, (judged A S o j).row A = .ok r) : Evaluated A S o j d := by
  obtain ⟨r, hr⟩ := hrow
  have hrowAt : rowAt A S o j = r := by rw [rowAt, hr]
  refine ⟨posed_state j, ?_, hdecision, ?_, hrowAt ▸ hr, ?_⟩
  · rw [trackedObjective, posed_untracked h]
  · rw [verdict, judge_untracked (posed_untracked h j)]
    exact hdecision
  · rw [hrowAt, row_iteration hr, judged_iteration ho]

/-! ## Criteria

A run asks a criterion one evaluation after the other.
-/

section

variable {A : Algorithm α σ (Criterion α)} {S : Settings} {o : Scene α σ (Criterion α)}

/-- The rule that is asked in an evaluation is the one that has made those before it. -/
lemma posed_rule (j : ℕ) : (posed A S o j).rule = o.course.rule.after (shownAt A S o) j := by
  induction j with
  | zero => rfl
  | succ j ih =>
    show (left A S o j).rule = _
    rw [left_rule, ih]
    rfl

lemma stop_posed (j : ℕ) : StoppingRule.stop (posed A S o j).rule (shownAt A S o j)
    = (o.course.rule.after (shownAt A S o) (j + 1), o.course.rule.decides (shownAt A S o) j) := by
  rw [posed_rule]
  rfl

end

end Scene

namespace Solver

variable {s : Solver α σ κ} {w : World α} {args : FitArguments α κ} {u : σ} {rule : κ} {K : ℕ}

/-- A run in the background is completed if its rule ends it. -/
lemma completed_of_drive (hmode : args.mode = .background) (hlog : (s.openLog w).2 = .ok ())
    (hstart : s.algorithm.start args.parameters = .ok u) (hrule : s.ruleFor args u = .ok rule)
    (hdrive : ∀ w₀, ∃ t, Scene.drive s.algorithm s.settings (s.prints args.mode) K
      (firstScene args u rule w₀) = (t, .satisfied)) :
    ∃ s' w', Completed s w args s' w' := by
  obtain ⟨w₀, hbegin⟩ := begin_of_ok hlog hstart hrule
  obtain ⟨t, ht⟩ := hdrive w₀
  have hfit : s.fit 0 w args = _ := fit_background hmode hbegin
  exact ⟨_, _, .background hmode hfit (work_eq ht rfl rfl rfl) rfl rfl⟩

end Solver

end

end PrimalDual
