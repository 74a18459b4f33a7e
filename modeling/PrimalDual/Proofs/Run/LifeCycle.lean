import PrimalDual.Proofs.Run.Completion
import PrimalDual.Proofs.Run.Equipment
import PrimalDual.Proofs.Run.Steady

/-!
# The life cycle of runs

Runs are opened by `fit`, and are closed by what happens to them.  Which methods are legal is up to the
run that is open: steps are pulled from a manual run, and a run in the background is asked whether it is
busy, and stopped.

* `TakesPulls`, `RefusesPulls` — pulls are legal, or refused.
* `Supervised`, `RefusesControl` — a run in the background can be stopped, or there is none.
* `LifeCycle` — what is legal, by the turns of a solver.
* **`life_cycle`** — so it is after any calls, and no call misses a worker, its event, or the log.

A fit that cannot open its log does not start: what was open stays so.
-/

namespace PrimalDual

variable {α σ κ : Type} [Scalar α] [StoppingRule α κ]

namespace Solver

variable {s : Solver α σ κ} {w : World α} {ts : List (Turn α σ κ)}

/-- Pulls take steps. -/
def TakesPulls (s : Solver α σ κ) (w : World α) : Prop :=
  ∀ bound count, 0 < count → pull bound count s w = pullSteps bound count 0 s w

/-- Pulls are refused, and change nothing. -/
def RefusesPulls (s : Solver α σ κ) (w : World α) : Prop :=
  ∀ bound count, 0 < count →
    ∃ e, e.category = .value ∧ pull bound count s w = (s, w, ⟨[], some e⟩)

omit [Scalar α] [StoppingRule α κ] in
/-- There is nothing to ask for or to stop, and trying to changes nothing. -/
def RefusesControl (s : Solver α σ κ) : Prop :=
  ∃ e, e.category = .value ∧ s.busy = .error e ∧ s.stop = (s, .error e)

omit [Scalar α] [StoppingRule α κ] in
/-- A run in the background can be asked for and stopped.  What has ended it early comes up, once. -/
structure Supervised (failure : Option Fault) (s : Solver α σ κ) : Prop where
  busy : ∃ answer, s.busy = .ok answer
  stop : s.stop = (s.close, raised failure)
  once : s.close.RefusesControl

/-- What is legal after some turns. -/
structure LifeCycle (ts : List (Turn α σ κ)) (s : Solver α σ κ) (w : World α) : Prop where
  manual : ManualOpen ts → s.TakesPulls w
  noManual : ¬ ManualOpen ts → s.RefusesPulls w
  background : BackgroundOpen ts →
    ∃ failure, (∀ e, failure = some e ↔ FailedWith e ts) ∧ s.Supervised failure
  noBackground : ¬ BackgroundOpen ts → s.RefusesControl
  /-- No run is open after a blocking fit, or one that fails. -/
  closed : ∀ fuel args, (s.openLog w).2 = .ok () →
    args.mode = .block ∨ (s.fit fuel w args).2.2 ≠ .ok () →
    (s.fit fuel w args).1.RefusesPulls (s.fit fuel w args).2.1 ∧
      (s.fit fuel w args).1.RefusesControl

/-- A solver whose fields are what its turns tell accepts what is legal, and nothing else. -/
lemma Tracked.lifeCycle (h : Tracked ts s) (w : World α) : LifeCycle ts s w where
  manual hopen bound count hcount := pull_manual hcount (h.manual.2 hopen)
  noManual hopen bound count hcount := refuses_pull bound w hcount fun hmode => hopen (h.manual.1 hmode)
  background hopen := by
    have hmode := h.background.2 hopen
    exact ⟨s.failure, h.failure hmode, ⟨_, busy_background hmode⟩, stop_eq (Or.inr hmode),
      refuses_control nofun nofun⟩
  noBackground hopen := refuses_control h.block fun hmode => hopen (h.background.1 hmode)
  closed fuel args hlog hover := by
    have hnone : (s.fit fuel w args).1.mode = none := by
      rw [(fit_opens fuel args hlog).1]
      rcases hover with hblock | herror
      · rw [hblock]
        cases (s.fit fuel w args).2.2 <;> rfl
      · cases houtcome : (s.fit fuel w args).2.2 with
        | ok => exact absurd houtcome herror
        | error e => rfl
    refine ⟨fun bound count hcount => refuses_pull bound _ hcount ?_, refuses_control ?_ ?_⟩ <;>
      rw [hnone] <;> exact nofun

/-- **The life cycle of runs.**  After any calls of a new solver, pulls are legal if and only if a manual
run is open, and a run can be asked for and stopped if and only if one in the background is open; what
has ended that one is raised once.  What is not legal is refused as such and changes nothing.  What is
legal never misses a part of the equipment: a solver with its equipment does and answers the same.  As
long as nothing is in the way of the log, every fit starts. -/
theorem life_cycle (A : Algorithm α σ κ) (S : Settings) (w : World α) (calls : List (Call α κ)) :
    let r := (ofAlgorithm A S).callAll w calls
    let e := (Equipped.ofAlgorithm A S).callAll w calls
    LifeCycle ((ofAlgorithm A S).turns w calls) r.1 r.2.1 ∧
      e.1.Sound ∧ (e.1.plain, e.2) = r ∧
      (S.Ready w.disk → (∀ name ∈ S.logged, Settles name) → (r.1.openLog r.2.1).2 = .ok ()) := by
  intro r e
  have htracked := callAll_tracked (tracked_new (A := A) (S := S)) w calls
  obtain ⟨hplain, hsound⟩ := Equipped.callAll_plain (w := w) (Equipped.sound_new (A := A) (S := S)) calls
  refine ⟨htracked.lifeCycle r.2.1, hsound, hplain.symm, fun hready hnames => ?_⟩
  obtain ⟨-, hsettings, hlast⟩ :=
    (Steady.ready hnames).callAll (s := ofAlgorithm A S) hready calls
  have hlog : r.1.settings.Ready r.2.1.disk := hsettings ▸ hlast
  rw [openLog_ready hlog]

end Solver

/-! ## A run that fails in the background -/

/-- The counter, if it could not count. -/
def brokenCounter : Solver Float ℕ (Criterion Float) :=
  .ofAlgorithm { counter _ _ with step := fun n => ⟨n, 1, .error .overflow⟩ } counterSettings

/-- A run in the background, whose worker may take five ticks. -/
def brokenCalls : List (Call Float (Criterion Float)) :=
  [.fit 0 (counterArguments .background), .work 5]

theorem broken_life_cycle :
    let r := brokenCounter.callAll ⟨.empty, 0, #[]⟩ brokenCalls
    let ts := brokenCounter.turns ⟨.empty, 0, #[]⟩ brokenCalls
    BackgroundOpen ts ∧ FailedWith .overflow ts ∧ r.1.Supervised (some .overflow) ∧
      ¬ ManualOpen ts ∧ r.1.RefusesPulls r.2.1 := by
  intro r ts
  obtain ⟨hlife, -, -, -⟩ := Solver.life_cycle
    { counter Float (Criterion Float) with step := fun n => ⟨n, 1, .error .overflow⟩ }
    counterSettings ⟨.empty, 0, #[]⟩ brokenCalls
  have hwork : ∀ u ∈ ts.tail, ¬ (u.Starts ∨ u.IsStop) := by
    intro u hu
    rw [List.mem_singleton.mp hu]
    exact not_or_intro id id
  have hopen : BackgroundOpen ts := ⟨[], _, _, rfl, ⟨rfl, rfl⟩, hwork⟩
  have hfailed : FailedWith .overflow ts :=
    ⟨[_], _, [], rfl, ⟨rfl, rfl⟩, fun u hu => absurd hu List.not_mem_nil⟩
  have hclosed : ¬ ManualOpen ts := by
    have hts : ts = [] ++ [_] ++ [_] := rfl
    rw [ManualOpen, hts, since_concat, since_concat]
    rintro (hwork | ⟨hfit | ⟨hnil, -⟩, -⟩)
    · exact hwork
    · cases hfit.1
    · exact not_since_nil hnil
  obtain ⟨failure, hfailure, hsupervised⟩ := hlife.background hopen
  rw [(hfailure _).2 hfailed] at hsupervised
  exact ⟨hopen, hfailed, hsupervised, hclosed, hlife.noManual hclosed⟩

end PrimalDual
