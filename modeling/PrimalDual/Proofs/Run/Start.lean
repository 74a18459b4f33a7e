import PrimalDual.Proofs.Run.Pull

/-!
# Starting a run

Runs of all modes begin alike: the log is emptied, the algorithm and the rule are set up, and only
then the mode decides who advances the run.

* `Solver.begin`, `fit_eq` — what comes before the mode makes a difference.
* `Opening`, **`begin_ok`** — where a run starts.
* `begin_error`, `begin_of_ok`, `Opening.begins`, `begin_of_error` — what it takes to start one.
* `fit_manual`, `fit_background`, `fit_block` — what each mode makes of it.
-/

namespace PrimalDual

variable {α σ κ : Type} [Scalar α] [StoppingRule α κ]

namespace Solver

variable {s s' : Solver α σ κ} {w w' : World α} {args : FitArguments α κ} {fuel : ℕ}

/-- Whether a run prints its log. -/
def prints (s : Solver α σ κ) (m : Mode) : Bool := m == Mode.block && s.settings.showProgress

/-- Begins a run, which nobody advances yet. -/
def begin (s : Solver α σ κ) (w : World α) (args : FitArguments α κ) :
    Solver α σ κ × World α × Except Fault Unit :=
  match s.openLog w with
  | (w, .error e) => ({ s with phase := .blank s.records }, w, .error e)
  | (w, .ok ()) =>
    prepare { s.close with phase := .blank #[], printing := s.prints args.mode } w args

/-- Starting a run: it begins, and is handed over to whoever advances it. -/
lemma fit_eq : s.fit fuel w args =
    match s.begin w args with
    | (s, w, .error e) => (s, w, .error e)
    | (s, w, .ok ()) =>
      match args.mode with
      | .manual => ({ s with mode := some .manual }, w, .ok ())
      | .background => ({ s with mode := some .background, active := true }, w, .ok ())
      | .block =>
        let (s, w) := work fuel { s with mode := some .block, active := true } w
        (s.stop.1, w, s.stop.2) := by
  rw [fit, begin]
  rcases s.openLog w with ⟨w₁, e | ⟨⟩⟩ <;> rfl

/-- The stopping rule of a run: the given one, or else that of the algorithm. -/
def ruleFor (s : Solver α σ κ) (args : FitArguments α κ) (u : σ) : Except Fault κ :=
  match args.rule with
  | some r => .ok r
  | none => s.algorithm.rule u

/-- The world with what is logged of an initial state. -/
def noted (s : Solver α σ κ) (print : Bool) (u : σ) (w : World α) : World α :=
  match s.algorithm.note u with
  | some entry => w.log s.settings.logFile print entry
  | none => w

/-- A run is set up when its state and its rule are known. -/
lemma prepare_of_ok (args : FitArguments α κ) {u : σ} {rule : κ}
    (hstart : s.algorithm.start args.parameters = .ok u) (hrule : s.ruleFor args u = .ok rule) :
    s.prepare w args = ({ s with phase := .running (initialCourse u
        (StoppingRule.clear (s.noted s.printing u w).now rule) args.tracking) },
      s.noted s.printing u w, .ok ()) := by
  rw [prepare, hstart]
  cases hargs : args.rule with
  | none =>
    rw [ruleFor, hargs] at hrule
    dsimp only at hrule ⊢
    rw [hrule]
    rfl
  | some r =>
    rw [ruleFor, hargs] at hrule
    cases hrule
    rfl

/-- Without a rule the state stays, and the failure is logged. -/
lemma prepare_of_error (args : FitArguments α κ) {u : σ} {e : Fault}
    (hstart : s.algorithm.start args.parameters = .ok u) (hrule : s.ruleFor args u = .error e) :
    s.prepare w args = ({ s with phase := .prepared u },
      (s.noted s.printing u w).log s.settings.logFile s.printing .setupFailed, .error e) := by
  rw [prepare, hstart]
  cases hargs : args.rule with
  | none =>
    rw [ruleFor, hargs] at hrule
    dsimp only at hrule ⊢
    rw [hrule]
    rfl
  | some r =>
    rw [ruleFor, hargs] at hrule
    cases hrule

/-- Where a run starts: the state of the algorithm, its rule, and the world when its log is open. -/
structure Opening (s : Solver α σ κ) (w : World α) (args : FitArguments α κ) (u : σ) (rule : κ)
    (w' : World α) : Prop where
  log : (s.openLog w).2 = .ok ()
  state : s.algorithm.start args.parameters = .ok u
  rule : s.ruleFor args u = .ok rule
  world : w' = s.noted (s.prints args.mode) u (s.openLog w).1

omit [Scalar α] [StoppingRule α κ] in
/-- A run has one place to start from. -/
lemma Opening.unique {u u' : σ} {rule rule' : κ} (h : s.Opening w args u rule w')
    {w'' : World α} (h' : s.Opening w args u' rule' w'') : u' = u ∧ rule' = rule ∧ w'' = w' := by
  obtain rfl : u' = u := Except.ok.inj (h'.state.symm.trans h.state)
  exact ⟨rfl, Except.ok.inj (h'.rule.symm.trans h.rule), h'.world.trans h.world.symm⟩

/-- The course at the start of a run. -/
abbrev firstCourse (args : FitArguments α κ) (u : σ) (rule : κ) (w' : World α) : Course α σ κ :=
  initialCourse u (StoppingRule.clear w'.now rule) args.tracking

/-- The solver at the start of a run, which nobody advances yet. -/
def begun (s : Solver α σ κ) (m : Mode) (c : Course α σ κ) : Solver α σ κ where
  algorithm := s.algorithm
  settings := s.settings
  phase := .running c
  mode := none
  active := false
  failure := none
  printing := s.prints m

/-- **How a run begins**, unless it is refused. -/
theorem begin_ok (h : s.begin w args = (s', w', .ok ())) :
    ∃ u rule, s.Opening w args u rule w' ∧
      s' = s.begun args.mode (firstCourse args u rule w') := by
  rw [begin] at h
  split at h
  · cases h
  · rename_i w₁ hlog
    rw [prepare] at h
    split at h
    · cases h
    · rename_i u hstart
      dsimp only at h
      split at h
      · cases h
      · rename_i rule hrule
        cases h
        refine ⟨u, rule, ⟨by rw [hlog], hstart, hrule, ?_⟩, rfl⟩
        rw [hlog]
        rfl

/-- A run that is refused is none. -/
lemma begin_error {e : Fault} (h : s.begin w args = (s', w', .error e)) (c : Course α σ κ) :
    s'.phase ≠ .running c := by
  rw [begin] at h
  split at h
  · cases h
    intro hphase
    cases hphase
  · rw [prepare] at h
    split at h
    · cases h
      intro hphase
      cases hphase
    · dsimp only at h
      split at h
      · cases h
        intro hphase
        cases hphase
      · cases h

/-- A run begins whenever its log can be opened and its state and its rule are known. -/
lemma begin_of_ok {u : σ} {rule : κ} (hlog : (s.openLog w).2 = .ok ())
    (hstart : s.algorithm.start args.parameters = .ok u) (hrule : s.ruleFor args u = .ok rule) :
    ∃ w', s.begin w args = (s.begun args.mode (firstCourse args u rule w'), w', .ok ()) := by
  rw [begin]
  rcases hopen : s.openLog w with ⟨w₁, outcome⟩
  rw [hopen] at hlog
  cases hlog
  refine ⟨s.noted (s.prints args.mode) u w₁, ?_⟩
  exact prepare_of_ok args hstart hrule

/-- A run begins where it opens. -/
lemma Opening.begins {u : σ} {rule : κ} (h : s.Opening w args u rule w') :
    s.begin w args = (s.begun args.mode (firstCourse args u rule w'), w', .ok ()) := by
  obtain ⟨w'', hbegin⟩ := begin_of_ok h.log h.state h.rule
  obtain ⟨u', rule', h', -⟩ := begin_ok hbegin
  obtain ⟨rfl, rfl, rfl⟩ := h.unique h'
  exact hbegin

/-- Without a state there is no run. -/
lemma begin_of_error {e : Fault} (hlog : (s.openLog w).2 = .ok ())
    (hstart : s.algorithm.start args.parameters = .error e) :
    ∃ s' w', s.begin w args = (s', w', .error e) ∧ s'.phase = .blank #[] := by
  rw [begin]
  rcases hopen : s.openLog w with ⟨w₁, outcome⟩
  rw [hopen] at hlog
  cases hlog
  simp only [prepare, close, hstart]
  exact ⟨_, _, rfl, rfl⟩

/-! ## The modes -/

lemma fit_manual (hmode : args.mode = .manual) (h : s.begin w args = (s', w', .ok ())) :
    s.fit fuel w args = ({ s' with mode := some .manual }, w', .ok ()) := by
  rw [fit_eq, h, hmode]

lemma fit_background (hmode : args.mode = .background) (h : s.begin w args = (s', w', .ok ())) :
    s.fit fuel w args = ({ s' with mode := some .background, active := true }, w', .ok ()) := by
  rw [fit_eq, h, hmode]

lemma fit_refused {e : Fault} (h : s.begin w args = (s', w', .error e)) :
    s.fit fuel w args = (s', w', .error e) := by
  rw [fit_eq, h]

/-- A fit that is not refused has begun a run. -/
lemma begin_of_fit (h : s.fit fuel w args = (s', w', .ok ())) :
    ∃ u rule w₁, s.Opening w args u rule w₁ ∧
      s.begin w args = (s.begun args.mode (firstCourse args u rule w₁), w₁, .ok ()) := by
  rcases hbegin : s.begin w args with ⟨s₁, w₁, e | ⟨⟩⟩
  · rw [fit_refused hbegin] at h
    cases h
  · obtain ⟨u, rule, hopening, rfl⟩ := begin_ok hbegin
    exact ⟨u, rule, w₁, hopening, rfl⟩

/-- What comes up when a failure has been kept, or none has. -/
def raised : Option Fault → Except Fault Unit
  | some e => .error e
  | none => .ok ()

lemma raised_injective {failure failure' : Option Fault} (h : raised failure = raised failure') :
    failure = failure' := by
  cases failure <;> cases failure' <;> cases h <;> rfl

omit [Scalar α] [StoppingRule α κ] in
/-- What ended the run of a worker comes up when it is stopped. -/
lemma stop_eq (hmode : s.mode = some .block ∨ s.mode = some .background) :
    s.stop = (s.close, raised s.failure) := by
  have hcheck : s.checkMode [.background, .block] = .ok () := by
    rw [checkMode]
    rcases hmode with hmode | hmode <;> rw [hmode] <;> rfl
  rw [stop, hcheck]
  cases s.failure with
  | none => rfl
  | some e => rfl

/-- A blocking run is that of a worker, which is then stopped. -/
lemma fit_block {c : Course α σ κ} {t : Scene α σ κ} {st : Standing} (hmode : args.mode = .block)
    (h : s.begin w args = (s', w', .ok ())) (hs : s'.phase = .running c)
    (hfailure : s'.failure = none)
    (hdrive : Scene.drive s'.algorithm s'.settings s'.printing fuel ⟨c, w'⟩ = (t, st)) :
    s.fit fuel w args
      = ({ s' with phase := .running t.course }.close, t.world, raised st.failure) := by
  rw [fit_eq, h, hmode]
  dsimp only
  rw [work_eq (s := { s' with mode := some .block, active := true }) hdrive hs rfl hfailure]
  rw [stop_eq (Or.inl rfl)]
  rfl

/-- A run that has begun stays the run of the solver, whatever it comes to. -/
lemma fit_running {m : Mode} {c : Course α σ κ} (h : s.begin w args = (s.begun m c, w', .ok ())) :
    ∃ c', (s.fit fuel w args).1.phase = .running c' := by
  cases hmode : args.mode with
  | manual => exact ⟨c, by rw [fit_manual hmode h]; rfl⟩
  | background => exact ⟨c, by rw [fit_background hmode h]; rfl⟩
  | block =>
    rcases hd : Scene.drive s.algorithm s.settings (s.prints m) fuel ⟨c, w'⟩ with ⟨t, st⟩
    rw [fit_block hmode h rfl rfl hd]
    exact ⟨t.course, rfl⟩

end Solver

end PrimalDual
