import PrimalDual.Proofs.Archive.Name
import PrimalDual.Proofs.Run.Completion
import PrimalDual.Proofs.Run.Creation
import PrimalDual.Proofs.Run.Repetition
import PrimalDual.Run.Recurrence
import PrimalDual.Splitting.Algorithm

/-!
# Runs do not leak into each other

A solver keeps its state, its records, its mode, the failure of its worker and its log from one call
to the next, and its callers keep their criteria.  None of this is left when the next run starts: from
there on, nothing tells the solver from one that has never been used.

* `Call`, `Solver.callAll` — everything that can be done with a solver.
* `Uses`, **`Uses.callAll`** — what runs make of their criterion is a use of it, and nothing else.
* `callAll_mirrors` — two solvers in the same state answer alike, whatever is done with them.
* `Indistinguishable`, **`next_run_fresh`** — the next run of a used solver is that of a new one.
-/

namespace PrimalDual

variable {α σ : Type}

/-- What can be done with a solver, by its callers or by its worker. -/
inductive Call (α κ : Type) where
  | fit (fuel : ℕ) (args : FitArguments α κ)
  | work (fuel : ℕ)
  | pull (bound : Value α) (count : ℕ)
  | stop
  | writeback
  | busy
  | stats
  | objective
  | solution (which : Option (Value α))

/-- What comes of it. -/
inductive Reply (α : Type) where
  | done (outcome : Except Fault Unit)
  | pulled (items : Solver.Pulled α)
  | busy (answer : Except Fault Bool)
  | stats (shown : Except Fault (Parameters α × Option (History α)))
  | objective (value : Except Fault (NdArray α))
  | solution (value : Except Fault (Value α))

namespace Solver

/-- The reply that is made of a result. -/
def reply {β κ : Type} (f : β → Reply α) (r : Solver α σ κ × World α × β) :
    Solver α σ κ × World α × Reply α := (r.1, r.2.1, f r.2.2)

section

variable {κ : Type} [Scalar α] [StoppingRule α κ]

/-- Does something with a solver. -/
def call (s : Solver α σ κ) (w : World α) :
    Call α κ → Solver α σ κ × World α × Reply α
  | .fit fuel args => reply .done (s.fit fuel w args)
  | .work fuel => ((work fuel s w).1, (work fuel s w).2, .done (.ok ()))
  | .pull bound count => reply .pulled (pull bound count s w)
  | .stop => reply .done (s.stop.1, w, s.stop.2)
  | .writeback => reply .done (s, s.writeback w)
  | .busy => (s, w, .busy s.busy)
  | .stats => (s, w, .stats s.stats)
  | .objective => (s, w, .objective s.objective)
  | .solution which => (s, w, .solution (s.solution which))

/-- Does one thing after the other. -/
def callAll (s : Solver α σ κ) (w : World α) :
    List (Call α κ) → Solver α σ κ × World α × List (Reply α)
  | [] => (s, w, [])
  | o :: later =>
    let (s, w, answer) := s.call w o
    let (s, w, answers) := s.callAll w later
    (s, w, answer :: answers)

end

/-! ## The criteria of runs -/

variable [Scalar α] {A : Algorithm α σ (Criterion α)} {S : Settings} {p : Path} {d : Int}
  {s s' : Solver α σ (Criterion α)} {w w' : World α} {r : Criterion α}
  {args : FitArguments α (Criterion α)}

/-- The run, if there is one, has the criterion `r`, which it may have used. -/
def Uses (r : Criterion α) (s : Solver α σ (Criterion α)) : Prop :=
  ∀ c, s.phase = .running c → r.Used c.rule

/-- Ticks do nothing with a criterion but evaluate it. -/
lemma used_respects {print : Bool} : Scene.Respects
    (fun t t' : Scene α σ (Criterion α) => t = t' ∧ r.Used t.course.rule) A S S print print where
  rates := rfl
  iteration := by
    rintro t t' ⟨rfl, -⟩
    rfl
  records := by
    rintro t t' ⟨rfl, -⟩
    rfl
  log := by
    rintro t t' entry ⟨rfl, hused⟩
    exact ⟨rfl, hused⟩
  trackObjective := by
    rintro t t' ⟨rfl, hused⟩
    rw [Scene.trackObjective]
    split
    · exact .ok () ⟨rfl, hused⟩
    · dsimp only
      split
      · exact .ok () ⟨rfl, hused⟩
      · exact .error _ ⟨rfl, hused⟩
  evaluate := by
    rintro t t' ⟨rfl, hused⟩
    have hjudged : r.Used (t.course.judge A t.world.now).1.rule := by
      rw [Scene.judge_rule]
      exact hused.stop _
    rw [Scene.evaluate]
    revert hjudged
    rcases t.course.judge A t.world.now with ⟨c, e | decision⟩
    · exact fun hjudged => .error e ⟨rfl, hjudged⟩
    · exact fun hjudged => .ok decision ⟨rfl, hjudged⟩
  record := by
    rintro t t' ⟨rfl, hused⟩
    rw [Scene.record]
    split
    · exact .ok () ⟨rfl, hused⟩
    · exact .error _ ⟨rfl, hused⟩
  writeback := by
    rintro t t' ⟨rfl, hused⟩
    rw [Scene.writeback]
    split
    · exact .ok () ⟨rfl, hused⟩
    · exact .error _ ⟨rfl, hused⟩
  advance := by
    rintro t t' ⟨rfl, hused⟩
    rw [Scene.advance]
    dsimp only
    split
    · exact .ok () ⟨rfl, hused⟩
    · exact .error _ ⟨rfl, hused⟩

namespace Uses

lemma tick (h : s.Uses r) (w : World α) : (s.tick w).1.Uses r := by
  rw [Solver.tick]
  split
  · rename_i c hphase
    have hmatches := used_respects.tick (A := s.algorithm) (S := s.settings) (p := s.printing)
      ⟨c, w⟩ ⟨c, w⟩ ⟨rfl, h c hphase⟩
    revert hmatches
    generalize Scene.tick s.algorithm s.settings s.printing ⟨c, w⟩ = result
    intro hmatches
    cases hmatches with
    | ok goesOn ht =>
      intro c' hc'
      cases hc'
      exact ht.2
    | error e ht =>
      intro c' hc'
      cases hc'
      exact ht.2
  · exact h

lemma work (h : s.Uses r) (fuel : ℕ) (w : World α) : (Solver.work fuel s w).1.Uses r := by
  induction fuel generalizing s w with
  | zero => exact h
  | succ fuel ih =>
    have htick := h.tick w
    rw [Solver.work]
    split
    · exact h
    · revert htick
      generalize s.tick w = result
      intro htick
      obtain ⟨s', w', e | goesOn⟩ := result
      · exact htick
      · cases goesOn with
        | true => exact ih htick w'
        | false => exact htick

lemma pullSteps (h : s.Uses r) (bound : Value α) (count done : ℕ) (w : World α) :
    (Solver.pullSteps bound count done s w).1.Uses r := by
  induction count generalizing s w done with
  | zero => exact h
  | succ count ih =>
    have htick := h.tick w
    rw [Solver.pullSteps]
    rcases allowsMore bound done with e | more
    · exact h
    · cases more with
      | false => exact h
      | true =>
        dsimp only
        revert htick
        generalize s.tick w = result
        intro htick
        obtain ⟨s', w', e | goesOn⟩ := result
        · exact htick
        · cases goesOn with
          | false => exact htick
          | true =>
            dsimp only
            rcases s'.stats with e | ⟨data, history⟩
            · exact htick
            · exact ih htick (done + 1) w'

lemma pull (h : s.Uses r) (bound : Value α) (count : ℕ) (w : World α) :
    (Solver.pull bound count s w).1.Uses r := by
  rw [Solver.pull]
  split
  · exact h
  · split
    · exact h
    · exact h.pullSteps bound count 0 w

lemma stop (h : s.Uses r) : s.stop.1.Uses r := by
  rw [Solver.stop]
  split
  · exact h
  · split <;> exact h

/-- Whatever was before, a run uses the criterion that it is given. -/
lemma fit {rule : Criterion α} (hused : r.Used rule) (hrule : args.rule = some rule) (fuel : ℕ)
    (s : Solver α σ (Criterion α)) (w : World α) : (s.fit fuel w args).1.Uses r := by
  rcases hbegin : s.begin w args with ⟨s₁, w₁, e | ⟨⟩⟩
  · rw [fit_refused hbegin]
    exact fun c hc => absurd hc (begin_error hbegin c)
  · obtain ⟨u, rule', hopening, rfl⟩ := begin_ok hbegin
    obtain rfl : rule = rule' := by
      have hgiven := hopening.rule
      rw [ruleFor, hrule] at hgiven
      exact Except.ok.inj hgiven
    have hbegun : (s.begun args.mode (firstCourse args u rule w₁)).Uses r := by
      intro c hc
      cases hc
      exact hused.clear w₁.now
    rw [fit_eq, hbegin]
    dsimp only
    generalize s.begun args.mode (firstCourse args u rule w₁) = s₁ at hbegun
    cases args.mode with
    | manual => exact hbegun
    | background => exact hbegun
    | block =>
      have hopen : { s₁ with mode := some .block, active := true }.Uses r := hbegun
      exact (hopen.work fuel w₁).stop

/-- What runs make of their criterion is a use of it. -/
theorem callAll {calls : List (Call α (Criterion α))} (h : s.Uses r)
    (hcalls : ∀ fuel args, Call.fit fuel args ∈ calls → ∃ rule, args.rule = some rule ∧ r.Used rule)
    (w : World α) : (s.callAll w calls).1.Uses r := by
  induction calls generalizing s w with
  | nil => exact h
  | cons o later ih =>
    have hcall : (s.call w o).1.Uses r := by
      cases o with
      | fit fuel args =>
        obtain ⟨rule, hrule, hused⟩ := hcalls fuel args List.mem_cons_self
        exact fit hused hrule fuel s w
      | work fuel => exact h.work fuel w
      | pull bound count => exact h.pull bound count w
      | stop => exact h.stop
      | writeback | busy | stats | objective | solution => exact h
    exact ih hcall (fun fuel args hfit => hcalls fuel args (List.mem_cons_of_mem _ hfit)) _

end Uses

/-! ## The same calls -/

omit [Scalar α] in
/-- What is made of equal results is equal. -/
lemma Same.reply {β : Type} {x x' : Solver α σ (Criterion α) × World α × β} (f : β → Reply α)
    (h : Same A S p d x x') : Same A S p d (reply f x) (reply f x') := by
  cases h with
  | intro h b => exact .intro h (f b)

/-- A call gives the same in both, and leaves them alike. -/
lemma Mirrors.call (hA : A.Settled) (h : Mirrors A S p d s w s' w') (o : Call α (Criterion α)) :
    Same A S p d (s.call w o) (s'.call w' o) := by
  cases o with
  | fit fuel args =>
    have hsettings : s'.settings = S.inFolder p := by
      rw [h.moved, Solver.moved, h.settings]
    have hfit : Same A S p d (s.fit fuel w args) (s'.fit fuel w' args) :=
      fit_mirrors h.algorithm h.settings (h.moved ▸ h.algorithm) hsettings h.world.ready hA
        h.world.ready' h.world.clock (Criterion.used_self args.rule)
    exact hfit.reply .done
  | work fuel => exact .intro (h.work hA fuel) _
  | pull bound count => exact (h.pull hA bound count).reply .pulled
  | stop => exact h.stop.reply .done
  | writeback => exact (h.writeback hA).reply .done
  | busy =>
    have hbusy : s'.busy = s.busy := by
      rw [h.moved]
      rfl
    rw [Solver.call, Solver.call, hbusy]
    exact .intro h _
  | stats =>
    have hstats : s'.stats = s.stats := by
      rw [h.moved, moved_stats]
    rw [Solver.call, Solver.call, hstats]
    exact .intro h _
  | objective =>
    have hobjective : s'.objective = s.objective := by
      rw [h.moved, Solver.objective, Solver.objective, moved_state]
      rfl
    rw [Solver.call, Solver.call, hobjective]
    exact .intro h _
  | solution which =>
    have hsolution : s'.solution which = s.solution which := by
      rw [h.moved, Solver.solution, Solver.solution, moved_state, moved_stats]
      rfl
    rw [Solver.call, Solver.call, hsolution]
    exact .intro h _

/-- Calls that begin with the same result go on with the same results. -/
lemma callAll_cons {o o' : Call α (Criterion α)} {later : List (Call α (Criterion α))}
    (hfirst : Same A S p d (s.call w o) (s'.call w' o'))
    (hlater : ∀ s w s' w', Mirrors A S p d s w s' w' →
      Same A S p d (s.callAll w later) (s'.callAll w' later)) :
    Same A S p d (s.callAll w (o :: later)) (s'.callAll w' (o' :: later)) := by
  rw [callAll, callAll]
  revert hfirst
  generalize s.call w o = r
  generalize s'.call w' o' = r'
  intro hfirst
  cases hfirst with
  | @intro s₁ s₂ w₁ w₂ hnext answer =>
    have hrest := hlater s₁ w₁ s₂ w₂ hnext
    dsimp only
    revert hrest
    generalize s₁.callAll w₁ later = r
    generalize s₂.callAll w₂ later = r'
    intro hrest
    cases hrest with
    | intro hlast answers => exact .intro hlast (answer :: answers)

/-- **Two solvers in the same state** answer alike, whatever is done with them. -/
theorem callAll_mirrors (hA : A.Settled) (h : Mirrors A S p d s w s' w')
    (calls : List (Call α (Criterion α))) :
    Same A S p d (s.callAll w calls) (s'.callAll w' calls) := by
  induction calls generalizing s w s' w' with
  | nil => exact .intro h []
  | cons o later ih => exact callAll_cons (h.call hA o) fun _ _ _ _ hnext => ih hnext

/-! ## The next run -/

omit [Scalar α] in
/-- A solver is in its own folder, at its own time. -/
lemma Mirrors.refl (hready : s.settings.Ready w.disk) :
    Mirrors s.algorithm s.settings s.settings.workdir 0 s w s w := by
  refine ⟨rfl, rfl, ?_, (Int.add_zero _).symm, rfl, hready, hready⟩
  obtain ⟨A, S, phase, mode, active, failure, printing⟩ := s
  cases phase with
  | blank | prepared => rfl
  | running c =>
    obtain ⟨state, objective, records, iteration, rule, tracker⟩ := c
    rw [Solver.moved, Phase.shift, Course.shift, Criterion.shift_zero]
    rfl

/-- Nothing that is done with a solver changes what it was made of, or gets into the way of its
files. -/
lemma callAll_keeps {calls : List (Call α (Criterion α))} {answers : List (Reply α)}
    (hA : s.algorithm.Settled) (hready : s.settings.Ready w.disk)
    (h : s.callAll w calls = (s', w', answers)) :
    s'.algorithm = s.algorithm ∧ s'.settings = s.settings ∧ s.settings.Ready w'.disk := by
  have hsame := callAll_mirrors hA (Mirrors.refl hready) calls
  rw [h] at hsame
  cases hsame with
  | intro hlast => exact ⟨hlast.algorithm, hlast.settings, hlast.world.ready⟩

/-- Nothing but their folders tells two solvers apart. -/
structure Indistinguishable (s : Solver α σ (Criterion α)) (w : World α)
    (s' : Solver α σ (Criterion α)) (w' : World α) : Prop where
  state : s'.state? = s.state?
  bindings : s'.bindings = s.bindings
  records : s'.records = s.records
  mode : s'.mode = s.mode
  active : s'.active = s.active
  failure : s'.failure = s.failure
  log : w'.disk.find? s'.settings.logFile = w.disk.find? s.settings.logFile

omit [Scalar α] in
lemma Mirrors.indistinguishable (h : Mirrors A S p d s w s' w') : s.Indistinguishable w s' w' := by
  obtain ⟨rfl, rfl, rfl, hw⟩ := h
  exact ⟨moved_state, moved_bindings, moved_records, rfl, rfl, rfl, hw.log⟩

/-- **The next run of a used solver** is that of a new one, in whatever folder and at whatever time
that one is made: the calls from its start on have the same results, and the same is seen afterwards
of the solvers and of their logs.  Its criterion may have been used, too. -/
theorem next_run_fresh {w₀ : World α} {fuel : ℕ} {used fresh : Option (Criterion α)}
    {before after : List (Call α (Criterion α))} {answers : List (Reply α)} (hA : A.Settled)
    (hready : S.Ready w₀.disk) (hready' : (S.inFolder p).Ready w'.disk)
    (hbefore : (ofAlgorithm A S).callAll w₀ before = (s, w, answers))
    (hrule : Option.Rel Criterion.Used fresh used) :
    let r := s.callAll w (.fit fuel { args with rule := used } :: after)
    let r' := (ofAlgorithm A (S.inFolder p)).callAll w'
      (.fit fuel { args with rule := fresh } :: after)
    r'.2.2 = r.2.2 ∧ r.1.Indistinguishable r.2.1 r'.1 r'.2.1 := by
  intro r r'
  obtain ⟨halgorithm, hsettings, hready₁⟩ := callAll_keeps (s := ofAlgorithm A S) hA hready hbefore
  have hnow : w'.now = w.now + (w'.now - w.now) := by omega
  have hfit : Same A S p (w'.now - w.now) (s.fit fuel w { args with rule := used })
      ((ofAlgorithm A (S.inFolder p)).fit fuel w' { args with rule := fresh }) :=
    fit_mirrors halgorithm hsettings rfl rfl hready₁ hA hready' hnow hrule
  have hsame : Same A S p (w'.now - w.now) r r' :=
    callAll_cons (hfit.reply .done) fun _ _ _ _ hnext => callAll_mirrors hA hnext after
  revert hsame
  generalize r = x
  generalize r' = x'
  intro hsame
  cases hsame with
  | intro hlast answers => exact ⟨rfl, hlast.indistinguishable⟩

end Solver

/-! ## The algorithms -/

section

variable [Scalar α]

/-- The arrays of the primal-dual iteration are stored below the directory of the checkpoints. -/
theorem splittingAlgorithm_settled (f : Option (Smooth α)) (terms : List (TermArgument α)) :
    (splittingAlgorithm f terms).Settled := by
  refine Algorithm.settled_of_names ["x", "f", "terms", "tau", "sigma", "method", "momentum", "z",
    "p", "q", "order", "K", "weight", "dual_var"] (fun u => rfl) ?_
  decide

/-- So are those of the recurrence. -/
theorem recurrenceAlgorithm_settled :
    (recurrenceAlgorithm : Algorithm α (Recurrence α) (Criterion α)).Settled := by
  refine Algorithm.settled_of_names ["x", "k"] (fun u => rfl) ?_
  decide

lemma counter_settled {κ : Type} : (counter α κ).Settled := by
  refine Algorithm.settled_of_names ["x"] (fun u => rfl) ?_
  decide

end

/-! ## An abandoned run -/

/-- What the counter is set up with, in the topmost directory. -/
def counterGiven : Parameters Float :=
  [("folder", .text "."), ("exist_ok", .number (.bool true)), ("stop_rate", .number (.int 2)),
    ("writeback_rate", .number (.int 0)), ("verbosity", .number (.int 4)), ("log_var", .text "x")]

/-- An empty tree stays empty when the counter is made in it, below whatever root. -/
lemma counterSettings_read (r : Root) :
    Settings.read (.empty : Disk Float (Array (LogEntry Float))) r "" counterGiven
      = (.empty, .ok (counterSettings.inFolder (.ofRoot r))) := by
  have hplace : Path.ofText r "." = .ofRoot r := by
    rw [Path.ofText, Path.descend, splitOn_slash (by decide)]
    rfl
  have hroot : (Path.ofRoot r).names = [] := rfl
  have hfolder : counterGiven.getD "folder" .null = .text "." := rfl
  have hallowed : (counterGiven.get "exist_ok").truthy = true := by decide
  have hprepared : prepareFolder (.empty : Disk Float (Array (LogEntry Float))) r ""
      (.text "." : Value Float) true = (.empty, .ok (.ofRoot r)) := by
    rw [prepareFolder.eq_def]
    dsimp only
    rw [hplace, Bool.not_true, Bool.and_false, if_neg Bool.false_ne_true, if_pos hroot,
      Disk.removeTree_empty hroot]
  rw [Settings.read, if_neg (by decide)]
  dsimp only
  rw [hfolder, hallowed, hprepared]
  rfl

lemma counterSettings_ready (r : Root) :
    (counterSettings.inFolder (.ofRoot r)).Ready (.empty : Disk Float _) :=
  Settings.read_ready Disk.empty_tidy (counterSettings_read r)

/-- Three steps of a run that nobody ends. -/
def threeSteps : List (Call Float (Criterion Float)) :=
  [.fit 0 (counterArguments .manual), .pull .null 3]

/-- What they make of the criterion. -/
lemma threeSteps_used :
    Criterion.Used (.maxDuration 3 0 0) (.maxDuration 3 0 2 : Criterion Float) := by
  have hcalls : ∀ fuel args, Call.fit fuel args ∈ threeSteps →
      ∃ rule, args.rule = some rule ∧ Criterion.Used (.maxDuration 3 0 0) rule := by
    intro fuel args hmem
    rcases List.mem_cons.mp hmem with hfit | hpull
    · obtain ⟨rfl, rfl⟩ := Call.fit.inj hfit
      exact ⟨_, rfl, .new⟩
    · cases List.mem_singleton.mp hpull
  have hfresh : counterSolver.Uses (.maxDuration 3 0 0) := by
    rintro c ⟨⟩
  have huses := hfresh.callAll hcalls ⟨.empty, 0, #[]⟩
  obtain ⟨c, hphase, hrule⟩ : ∃ c,
      (counterSolver.callAll ⟨.empty, 0, #[]⟩ threeSteps).1.phase = .running c ∧
        c.rule = .maxDuration 3 0 2 := ⟨_, rfl, rfl⟩
  rw [← hrule]
  exact huses c hphase

/-- The counter after two steps of a run that nobody ends. -/
def abandonedCounter : Solver Float ℕ (Criterion Float) × World Float × List (Reply Float) :=
  counterSolver.callAll ⟨.empty, 0, #[]⟩ [.fit 0 (counterArguments .manual), .pull .null 2]

/-- What the calls of another run of the counter come to. -/
def counterAgain (s : Solver Float ℕ (Criterion Float)) (w : World Float)
    (rule : Criterion Float) :
    Solver Float ℕ (Criterion Float) × World Float × List (Reply Float) :=
  s.callAll w [.fit 0 { counterArguments .manual with rule := some rule }, .pull .null 3, .stats]

/-- The counter in another folder, some time later. -/
def otherCounter : Solver Float ℕ (Criterion Float) :=
  .ofAlgorithm (counter _ _) (counterSettings.inFolder (.ofRoot ⟨"", 1⟩))

/-- The counter is started again after an abandoned run, with a criterion that another run has used.
What is asked of its algorithm holds of all algorithms, and what is asked of its folder holds of the
folder of every new solver. -/
theorem abandoned_next_run_fresh :
    (∀ f terms, (splittingAlgorithm f terms : Algorithm Float _ (Criterion Float)).Settled) ∧
    (recurrenceAlgorithm : Algorithm Float (Recurrence Float) (Criterion Float)).Settled ∧
    (counter Float (Criterion Float)).Settled ∧
    counterSettings.Ready (.empty : Disk Float _) ∧
    (counterSettings.inFolder (.ofRoot ⟨"", 1⟩)).Ready (.empty : Disk Float _) ∧
    Option.Rel Criterion.Used (some (.maxDuration 3 0 0))
      (some (.maxDuration 3 0 2 : Criterion Float)) ∧
    (counterAgain otherCounter ⟨.empty, 100, #[]⟩ (.maxDuration 3 0 0)).2.2
      = (counterAgain abandonedCounter.1 abandonedCounter.2.1 (.maxDuration 3 0 2)).2.2 ∧
    (counterAgain abandonedCounter.1 abandonedCounter.2.1 (.maxDuration 3 0 2)).1.Indistinguishable
      (counterAgain abandonedCounter.1 abandonedCounter.2.1 (.maxDuration 3 0 2)).2.1
      (counterAgain otherCounter ⟨.empty, 100, #[]⟩ (.maxDuration 3 0 0)).1
      (counterAgain otherCounter ⟨.empty, 100, #[]⟩ (.maxDuration 3 0 0)).2.1 := by
  have hready : counterSettings.Ready (.empty : Disk Float _) := counterSettings_ready ⟨"", 0⟩
  have hready' : (counterSettings.inFolder (.ofRoot ⟨"", 1⟩)).Ready (.empty : Disk Float _) :=
    counterSettings_ready ⟨"", 1⟩
  have hused : Option.Rel Criterion.Used (some (.maxDuration 3 0 0))
      (some (.maxDuration 3 0 2 : Criterion Float)) := .some threeSteps_used
  have hbefore : counterSolver.callAll ⟨.empty, 0, #[]⟩
      [.fit 0 (counterArguments .manual), .pull .null 2]
      = (abandonedCounter.1, abandonedCounter.2.1, abandonedCounter.2.2) := rfl
  exact ⟨splittingAlgorithm_settled, recurrenceAlgorithm_settled, counter_settled, hready, hready',
    hused,
    Solver.next_run_fresh counter_settled hready hready' hbefore hused⟩

end PrimalDual
