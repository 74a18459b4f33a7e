import PrimalDual.Proofs.Run.Turns

/-!
# The equipment of a run

A solver does not have a worker, an event that lets the worker go on, or a log from the outset: `fit`
makes them, and they are dropped when the run is closed.  Methods use them without asking whether they
are there, only whether a run of their mode is open.

* `Equipped` — a solver with its equipment, any of which may be missing.
* `Equipped.fit`, `work`, `pull`, `busy`, `stop` — the methods, which fail if they miss a part.
* `Equipped.Sound` — the worker and its event are there if and only if a run in a thread is open.
* `Equipped.plain` — the solver that does not tell its equipment.
* **`Equipped.callAll_plain`** — no call ever misses a part.
-/

namespace PrimalDual

variable {α σ κ : Type}

/-- A solver with its equipment. -/
structure Equipped (α σ κ : Type) where
  algorithm : Algorithm α σ κ
  settings : Settings
  phase : Phase α σ κ
  mode : Option Mode
  /-- The event that lets a worker go on, and whether it is set. -/
  event : Option Bool
  /-- Whether there is a worker. -/
  worker : Bool
  /-- What has ended the worker. -/
  error : Option Fault
  /-- The log, and whether it is printed. -/
  logger : Option Bool

namespace Equipped

/-- A solver before its first run. -/
def ofAlgorithm (A : Algorithm α σ κ) (S : Settings) : Equipped α σ κ :=
  ⟨A, S, .blank #[], none, none, false, none, none⟩

/-- The solver that does not tell its equipment. -/
def plain (e : Equipped α σ κ) : Solver α σ κ where
  algorithm := e.algorithm
  settings := e.settings
  phase := e.phase
  mode := e.mode
  active := e.event.getD false
  failure := e.error
  printing := e.logger.getD false

/-- The solver without an open run: of its equipment the log stays. -/
def close (e : Equipped α σ κ) : Equipped α σ κ :=
  { e with mode := none, event := none, worker := false, error := none }

/-- Whether the background run still advances. -/
def busy (e : Equipped α σ κ) : Except Fault Bool := do
  e.plain.checkMode [.background, .block]
  match e.event with
  | some set => pure set
  | none => throw .noCapability

/-- Clears the event, waits for the worker, and hands over what ended it. -/
def stop (e : Equipped α σ κ) : Equipped α σ κ × Except Fault Unit :=
  match e.plain.checkMode [.background, .block] with
  | .error x => (e, .error x)
  | .ok () =>
    match e.event, e.worker with
    | some _, true => (e.close, Solver.raised e.error)
    | _, _ => (e, .error .noCapability)

section

variable [Scalar α] [StoppingRule α κ]

/-- One tick of the run, which is logged. -/
def tick (e : Equipped α σ κ) (w : World α) : Equipped α σ κ × World α × Except Fault Bool :=
  match e.logger with
  | none => (e, w, .error .noCapability)
  | some _ => ({ e with phase := (e.plain.tick w).1.phase }, (e.plain.tick w).2)

/-- What the worker does within `fuel` ticks, if there is one. -/
def work : ℕ → Equipped α σ κ → World α → Equipped α σ κ × World α
  | 0, e, w => (e, w)
  | fuel + 1, e, w =>
    if !e.worker then (e, w)
    else
      match e.event with
      | none => ({ e with error := some .noCapability }, w)
      | some false => (e, w)
      | some true =>
        match e.tick w with
        | (e, w, .ok true) => work fuel e w
        | (e, w, .ok false) => ({ e with event := some false }, w)
        | (e, w, .error x) => ({ e with event := some false, error := some x }, w)

/-- Starts a run. The mode is set before the run is set up, and the worker and its event are made
afterwards; if it cannot be set up, the run is closed. -/
def fit (fuel : ℕ) (e : Equipped α σ κ) (w : World α) (args : FitArguments α κ) :
    Equipped α σ κ × World α × Except Fault Unit :=
  match e.plain.openLog w with
  | (w, .error x) => ({ e with phase := .blank e.plain.records }, w, .error x)
  | (w, .ok ()) =>
    let e : Equipped α σ κ := { e with
      phase := .blank #[]
      mode := some args.mode
      event := none
      worker := false
      error := none
      logger := some (e.plain.prints args.mode) }
    match e.plain.prepare w args with
    | (s, w, .error x) => ({ e with phase := s.phase }.close, w, .error x)
    | (s, w, .ok ()) =>
      let e : Equipped α σ κ := { e with phase := s.phase }
      match args.mode with
      | .manual => (e, w, .ok ())
      | .background => ({ e with event := some true, worker := true }, w, .ok ())
      | .block =>
        let (e, w) := work fuel { e with event := some true, worker := true } w
        (e.stop.1, w, e.stop.2)

/-- At most `count` further steps after `done` ones. -/
def pullSteps (bound : Value α) : ℕ → ℕ → Equipped α σ κ → World α →
    Equipped α σ κ × World α × Solver.Pulled α
  | 0, _, e, w => (e, w, ⟨[], none⟩)
  | count + 1, done, e, w =>
    match Solver.allowsMore bound done with
    | .error x => (e, w, ⟨[], some x⟩)
    | .ok false => (e, w, ⟨[], none⟩)
    | .ok true =>
      match e.tick w with
      | (e, w, .error x) => (e.close, w, ⟨[], some x⟩)
      | (e, w, .ok false) => (e.close, w, ⟨[], none⟩)
      | (e, w, .ok true) =>
        match e.plain.stats with
        | .error x => (e, w, ⟨[], some x⟩)
        | .ok (data, _) =>
          let (e, w, rest) := pullSteps bound count (done + 1) e w
          (e, w, { rest with items := data :: rest.items })

/-- Takes at most `count` items of the steps up to a bound. -/
def pull (bound : Value α) (count : ℕ) (e : Equipped α σ κ) (w : World α) :
    Equipped α σ κ × World α × Solver.Pulled α :=
  if count = 0 then (e, w, ⟨[], none⟩)
  else
    match e.plain.checkMode [.manual] with
    | .error x => (e, w, ⟨[], some x⟩)
    | .ok () => pullSteps bound count 0 e w

/-- Does something with a solver. -/
def call (e : Equipped α σ κ) (w : World α) : Call α κ → Equipped α σ κ × World α × Reply α
  | .fit fuel args => ((e.fit fuel w args).1, (e.fit fuel w args).2.1, .done (e.fit fuel w args).2.2)
  | .work fuel => ((work fuel e w).1, (work fuel e w).2, .done (.ok ()))
  | .pull bound count =>
    ((pull bound count e w).1, (pull bound count e w).2.1, .pulled (pull bound count e w).2.2)
  | .stop => (e.stop.1, w, .done e.stop.2)
  | .writeback => (e, (e.plain.writeback w).1, .done (e.plain.writeback w).2)
  | .busy => (e, w, .busy e.busy)
  | .stats => (e, w, .stats e.plain.stats)
  | .objective => (e, w, .objective e.plain.objective)
  | .solution which => (e, w, .solution (e.plain.solution which))

/-- Does one thing after the other. -/
def callAll (e : Equipped α σ κ) (w : World α) :
    List (Call α κ) → Equipped α σ κ × World α × List (Reply α)
  | [] => (e, w, [])
  | o :: later =>
    let (e, w, answer) := e.call w o
    let (e, w, answers) := e.callAll w later
    (e, w, answer :: answers)

end

/-! ## Nothing is missed -/

/-- A run that a worker advances. -/
def Threaded (m : Option Mode) : Prop := m = some .block ∨ m = some .background

/-- A worker and its event are there if and only if a run in a thread is open, and every open run has
a log. -/
structure Sound (e : Equipped α σ κ) : Prop where
  event : e.event.isSome = true ↔ Threaded e.mode
  worker : e.worker = true ↔ Threaded e.mode
  logger : e.mode.isSome = true → e.logger.isSome = true

variable {e : Equipped α σ κ} {w : World α} {A : Algorithm α σ κ} {S : Settings}

lemma sound_new : (ofAlgorithm A S).Sound where
  event := by simp [ofAlgorithm, Threaded]
  worker := by simp [ofAlgorithm, Threaded]
  logger := nofun

lemma sound_close (e : Equipped α σ κ) : e.close.Sound where
  event := by simp [close, Threaded]
  worker := by simp [close, Threaded]
  logger := nofun

lemma Sound.threaded (h : e.Sound) (hmode : Threaded e.mode) :
    ∃ set, e.event = some set ∧ e.worker = true :=
  let ⟨set, hset⟩ := Option.isSome_iff_exists.1 (h.event.2 hmode)
  ⟨set, hset, h.worker.2 hmode⟩

/-- Nothing of the equipment is changed with the run. -/
lemma Sound.withPhase (h : e.Sound) (phase : Phase α σ κ) : Sound { e with phase } :=
  ⟨h.event, h.worker, h.logger⟩

/-- A worker that is done leaves its event, and may leave an error. -/
lemma Sound.done (h : e.Sound) (hmode : Threaded e.mode) (error : Option Fault) :
    Sound { e with event := some false, error } :=
  ⟨⟨fun _ => hmode, fun _ => rfl⟩, h.worker, h.logger⟩

lemma Threaded.isSome {m : Option Mode} (h : Threaded m) : m.isSome = true := by
  rcases h with rfl | rfl <;> rfl

lemma threaded_of_checkMode (h : e.plain.checkMode [.background, .block] = .ok ()) :
    Threaded e.mode := by
  rw [Solver.checkMode] at h
  cases hmode : e.mode with
  | none =>
    rw [plain, hmode] at h
    cases h
  | some m =>
    cases m with
    | block => exact Or.inl rfl
    | background => exact Or.inr rfl
    | manual =>
      rw [plain, hmode] at h
      cases h

lemma busy_plain (h : e.Sound) : e.busy = e.plain.busy := by
  rw [busy, Solver.busy]
  rcases hcheck : e.plain.checkMode [.background, .block] with x | ⟨⟩
  · rfl
  · obtain ⟨set, hset, -⟩ := h.threaded (threaded_of_checkMode hcheck)
    rw [plain, hset]
    rfl

lemma stop_plain (h : e.Sound) :
    e.plain.stop = (e.stop.1.plain, e.stop.2) ∧ e.stop.1.Sound := by
  rcases hcheck : e.plain.checkMode [.background, .block] with x | ⟨⟩
  · rw [stop, Solver.stop, hcheck]
    exact ⟨rfl, h⟩
  · have hmode := threaded_of_checkMode hcheck
    obtain ⟨set, hset, hworker⟩ := h.threaded hmode
    have hstop : e.stop = (e.close, Solver.raised e.error) := by
      rw [stop, hcheck, hset, hworker]
    rw [hstop, Solver.stop_eq (s := e.plain) hmode]
    exact ⟨rfl, sound_close e⟩

section

variable [Scalar α] [StoppingRule α κ] {bound : Value α}

lemma tick_plain (h : e.Sound) (hmode : e.mode.isSome = true) :
    e.plain.tick w = ((e.tick w).1.plain, (e.tick w).2) ∧ (e.tick w).1.Sound ∧
      ∃ phase, (e.tick w).1 = { e with phase } := by
  obtain ⟨print, hlogger⟩ := Option.isSome_iff_exists.1 (h.logger hmode)
  obtain ⟨phase, hphase⟩ := Solver.tick_keeps e.plain w
  have htick : e.tick w = ({ e with phase := (e.plain.tick w).1.phase }, (e.plain.tick w).2) := by
    rw [tick, hlogger]
  rw [htick]
  refine ⟨?_, h.withPhase _, _, rfl⟩
  refine Prod.ext ?_ rfl
  rw [hphase]
  rfl

lemma work_plain (fuel : ℕ) (h : e.Sound) (hmode : Threaded e.mode) :
    Solver.work fuel e.plain w = ((work fuel e w).1.plain, (work fuel e w).2) ∧
      (work fuel e w).1.Sound ∧ (work fuel e w).1.mode = e.mode := by
  induction fuel generalizing e w with
  | zero => exact ⟨rfl, h, rfl⟩
  | succ fuel ih =>
    obtain ⟨set, hset, hworker⟩ := h.threaded hmode
    have hactive : e.plain.active = set := by
      rw [plain, hset]
      rfl
    rw [work, Solver.work, hworker, Bool.not_true, if_neg Bool.false_ne_true, hset, hactive]
    cases set with
    | false => exact ⟨rfl, h, rfl⟩
    | true =>
      obtain ⟨htick, hsound, phase, hphase⟩ := tick_plain (w := w) h hmode.isSome
      rw [Bool.not_true, if_neg Bool.false_ne_true, htick]
      rcases hr : e.tick w with ⟨e', w', x | goesOn⟩
      · rw [hr] at hsound hphase
        cases hphase
        exact ⟨rfl, hsound.done hmode (some x), rfl⟩
      · rw [hr] at hsound hphase
        cases hphase
        cases goesOn with
        | false => exact ⟨rfl, hsound.done hmode e.error, rfl⟩
        | true => exact ih hsound hmode

lemma pullSteps_plain (count done : ℕ) (h : e.Sound) (hmode : e.mode.isSome = true) :
    Solver.pullSteps bound count done e.plain w
        = ((pullSteps bound count done e w).1.plain, (pullSteps bound count done e w).2) ∧
      (pullSteps bound count done e w).1.Sound := by
  induction count generalizing e w done with
  | zero => exact ⟨rfl, h⟩
  | succ count ih =>
    rw [pullSteps, Solver.pullSteps]
    rcases Solver.allowsMore bound done with x | more
    · exact ⟨rfl, h⟩
    · cases more with
      | false => exact ⟨rfl, h⟩
      | true =>
        obtain ⟨htick, hsound, phase, hphase⟩ := tick_plain (w := w) h hmode
        dsimp only
        rw [htick]
        rcases hr : e.tick w with ⟨e', w', x | goesOn⟩
        · exact ⟨rfl, sound_close e'⟩
        · rw [hr] at hsound hphase
          cases hphase
          cases goesOn with
          | false => exact ⟨rfl, sound_close _⟩
          | true =>
            dsimp only
            rcases Solver.stats _ with x | ⟨data, history⟩
            · exact ⟨rfl, hsound⟩
            · obtain ⟨hrest, hlast⟩ := ih (w := w') (done + 1) hsound hmode
              dsimp only
              rw [hrest]
              exact ⟨rfl, hlast⟩

lemma pull_plain (bound : Value α) (count : ℕ) (h : e.Sound) :
    Solver.pull bound count e.plain w
        = ((pull bound count e w).1.plain, (pull bound count e w).2) ∧
      (pull bound count e w).1.Sound := by
  rw [pull, Solver.pull]
  split
  · exact ⟨rfl, h⟩
  · cases hmode : e.mode with
    | none =>
      have hcheck : e.plain.checkMode [.manual] = .error .noRun := by
        rw [plain, hmode]
        rfl
      rw [hcheck]
      exact ⟨rfl, h⟩
    | some m =>
      have hsome : e.mode.isSome = true := by
        rw [hmode]
        rfl
      rcases e.plain.checkMode [.manual] with x | ⟨⟩
      · exact ⟨rfl, h⟩
      · exact pullSteps_plain count 0 h hsome

/-- The mode makes no difference to how a run is set up. -/
lemma prepare_inMode (s : Solver α σ κ) (m : Option Mode) (w : World α) (args : FitArguments α κ) :
    { s with mode := m }.prepare w args
      = ({ (s.prepare w args).1 with mode := m }, (s.prepare w args).2) := by
  rcases hstart : s.algorithm.start args.parameters with x | state
  · simp only [Solver.prepare, hstart]
  · rcases hrule : s.ruleFor args state with x | rule
    · rw [Solver.prepare_of_error args hstart hrule,
        Solver.prepare_of_error (s := { s with mode := m }) args hstart hrule]
      rfl
    · rw [Solver.prepare_of_ok args hstart hrule,
        Solver.prepare_of_ok (s := { s with mode := m }) args hstart hrule]
      rfl

lemma fit_plain (fuel : ℕ) (args : FitArguments α κ) (h : e.Sound) :
    e.plain.fit fuel w args = ((e.fit fuel w args).1.plain, (e.fit fuel w args).2) ∧
      (e.fit fuel w args).1.Sound := by
  rw [fit, Solver.fit]
  rcases e.plain.openLog w with ⟨w', x | ⟨⟩⟩
  · exact ⟨rfl, h.withPhase _⟩
  · -- while a run is set up it has a log, but neither a worker nor its event
    have hset : (⟨e.algorithm, e.settings, .blank #[], some args.mode, none, false, none,
        some (e.plain.prints args.mode)⟩ : Equipped α σ κ).plain
        = { ({ e.plain.close with
            phase := .blank #[]
            printing := args.mode == .block && e.plain.settings.showProgress } : Solver α σ κ) with
          mode := some args.mode } := rfl
    dsimp only
    rw [hset, prepare_inMode]
    obtain ⟨phase, hphase⟩ := Solver.prepare_keeps { e.plain.close with
      phase := .blank #[], printing := args.mode == .block && e.plain.settings.showProgress } w' args
    revert hphase
    generalize Solver.prepare _ w' args = r
    obtain ⟨s, w₁, x | ⟨⟩⟩ := r
    · rintro rfl
      exact ⟨rfl, sound_close _⟩
    · rintro rfl
      dsimp only
      have hthread (m : Mode) (hm : Threaded (some m)) : Sound (⟨e.algorithm, e.settings, phase,
          some m, some true, true, none, some (e.plain.prints m)⟩ : Equipped α σ κ) :=
        ⟨iff_of_true rfl hm, iff_of_true rfl hm, fun _ => rfl⟩
      cases args.mode with
      | manual =>
        have hnone : ¬ Threaded (some Mode.manual) := by
          rintro (h | h) <;> cases h
        exact ⟨rfl, iff_of_false Bool.false_ne_true hnone, iff_of_false Bool.false_ne_true hnone,
          fun _ => rfl⟩
      | background => exact ⟨rfl, hthread .background (Or.inr rfl)⟩
      | block =>
        have hstart := hthread .block (Or.inl rfl)
        obtain ⟨hwork, hworked, -⟩ := work_plain (w := w₁) fuel hstart (Or.inl rfl)
        obtain ⟨hstop, hstopped⟩ := stop_plain hworked
        refine ⟨?_, hstopped⟩
        generalize hr : Solver.work (κ := κ) fuel _ w₁ = r
        obtain rfl := hr.symm.trans hwork
        dsimp only
        rw [hstop]

/-- A call does not miss a part. -/
lemma call_plain (h : e.Sound) (o : Call α κ) :
    e.plain.call w o = ((e.call w o).1.plain, (e.call w o).2) ∧ (e.call w o).1.Sound := by
  cases o with
  | fit fuel args =>
    obtain ⟨hfit, hsound⟩ := fit_plain (w := w) fuel args h
    rw [Solver.call, hfit]
    exact ⟨rfl, hsound⟩
  | work fuel =>
    by_cases hmode : Threaded e.mode
    · obtain ⟨hwork, hsound, -⟩ := work_plain (w := w) fuel h hmode
      rw [Solver.call, hwork]
      exact ⟨rfl, hsound⟩
    · have hidle : work fuel e w = (e, w) ∧ Solver.work fuel e.plain w = (e.plain, w) := by
        have hworker : e.worker = false := by
          rw [← Bool.not_eq_true, h.worker]
          exact hmode
        have hactive : e.plain.active = false := by
          have hevent : e.event = none := by
            rw [← Option.not_isSome_iff_eq_none, h.event]
            exact hmode
          rw [plain, hevent]
          rfl
        cases fuel with
        | zero => exact ⟨rfl, rfl⟩
        | succ fuel =>
          rw [work, Solver.work, hworker, hactive]
          exact ⟨rfl, rfl⟩
      rw [Solver.call, call, hidle.1, hidle.2]
      exact ⟨rfl, h⟩
  | pull bound count =>
    obtain ⟨hpull, hsound⟩ := pull_plain (w := w) bound count h
    rw [Solver.call, hpull]
    exact ⟨rfl, hsound⟩
  | stop =>
    obtain ⟨hstop, hsound⟩ := stop_plain h
    rw [Solver.call, hstop]
    exact ⟨rfl, hsound⟩
  | busy =>
    rw [Solver.call, call, busy_plain h]
    exact ⟨rfl, h⟩
  | writeback | stats | objective | solution => exact ⟨rfl, h⟩

/-- **No call misses a part** of the equipment: a solver with its equipment answers what one answers
that does not tell it. -/
theorem callAll_plain (h : e.Sound) (calls : List (Call α κ)) :
    e.plain.callAll w calls = ((e.callAll w calls).1.plain, (e.callAll w calls).2) ∧
      (e.callAll w calls).1.Sound := by
  induction calls generalizing e w with
  | nil => exact ⟨rfl, h⟩
  | cons o later ih =>
    obtain ⟨hcall, hsound⟩ := call_plain (w := w) h o
    obtain ⟨hrest, hlast⟩ := ih (w := (e.call w o).2.1) hsound
    rw [Solver.callAll, hcall]
    dsimp only
    rw [hrest]
    exact ⟨rfl, hlast⟩

end

end Equipped

end PrimalDual
