import PrimalDual.Proofs.Run.Interruption

/-!
# What the log says of the last checkpoint

When a tick fails, the log tells the iteration and, where checkpoints are taken periodically, the
iteration of the last one.  The latter is not remembered but worked out from the rate, as if the
checkpoint of the failing iteration had been taken.  So what the log says is right if no checkpoint was
due in that iteration, or if it is the step that has failed.  Otherwise the checkpoint that it names
has not been completed, and in the first iteration there is none at all.

* `Broken` — the runs that a tick has ended by failing, whoever has advanced them.
* `Broken.driven` — all of them are runs of ticks.
* **`broken_lastSave`** — the entry in the log, and the last checkpoint that has been completed.
* **`unsaved_names_checkpoint`** — a checkpoint is named although none has ever been taken.
-/

namespace PrimalDual

variable {α σ κ : Type} [Scalar α] [StoppingRule α κ]

namespace Solver

variable {s s' s₁ s₂ : Solver α σ κ} {w w' w₁ w₂ : World α} {args : FitArguments α κ} {e : Fault}

/-- A run that a tick has ended by failing, from before it is started to when it is over.  A caller may
have made any pulls before the one that comes upon the failure. -/
inductive Broken (s : Solver α σ κ) (w : World α) (args : FitArguments α κ) :
    Solver α σ κ → World α → Fault → Prop
  | block {fuel : ℕ} {s' : Solver α σ κ} {w' : World α} {e : Fault} {c : Course α σ κ}
      (hmode : args.mode = .block) (hfit : s.fit fuel w args = (s', w', .error e))
      (hrunning : s'.phase = .running c) : Broken s w args s' w' e
  | background {fuel k : ℕ} {s₁ s' : Solver α σ κ} {w₁ w' : World α} {e : Fault}
      (hmode : args.mode = .background) (hfit : s.fit fuel w args = (s₁, w₁, .ok ()))
      (hwork : work k s₁ w₁ = (s', w')) (hfailure : s'.failure = some e) : Broken s w args s' w' e
  | manual {fuel count : ℕ} {s₁ s₂ s' : Solver α σ κ} {w₁ w₂ w' : World α} {e : Fault}
      {pulls : List (Value α × ℕ)} {outs : List (Pulled α)} {bound : Value α} {last : Pulled α}
      (hmode : args.mode = .manual) (hfit : s.fit fuel w args = (s₁, w₁, .ok ()))
      (hpulls : pullAll pulls s₁ w₁ = (s₂, w₂, outs)) (hopen : s₂.mode = some .manual)
      (hpull : pull bound count s₂ w₂ = (s', w', last)) (hclosed : s'.mode = none)
      (hfailure : last.failure = some e) : Broken s w args s' w' e

/-- Pulls that leave a run open have advanced it by some number of ticks. -/
lemma pullAll_open {pulls : List (Value α × ℕ)} {outs : List (Pulled α)} {c : Course α σ κ}
    (hs : s.phase = .running c) (hmode : s.mode = some .manual)
    (h : pullAll pulls s w = (s', w', outs)) (hopen : s'.mode = some .manual) :
    ∃ k t, Scene.drive s.algorithm s.settings s.printing k ⟨c, w⟩ = (t, .going) ∧
      s' = { s with phase := .running t.course } ∧ w' = t.world := by
  induction pulls generalizing s w c outs with
  | nil =>
    cases h
    refine ⟨0, _, rfl, ?_, rfl⟩
    rw [← hs]
  | cons p pulls ih =>
    obtain ⟨bound, count⟩ := p
    rcases hpull : pull bound count s w with ⟨v, x, out⟩
    rw [pullAll_cons pulls hpull] at h
    have htaken : Taken s bound c w (pull bound count s w) := pull_taken count hs hmode
    rw [hpull] at htaken
    have hrest {k : ℕ} {t : Scene α σ κ}
        (hgoing : Scene.drive s.algorithm s.settings s.printing k ⟨c, w⟩ = (t, .going))
        (hv : v = { s with phase := .running t.course }) (hx : x = t.world) :
        ∃ k t, Scene.drive s.algorithm s.settings s.printing k ⟨c, w⟩ = (t, .going) ∧
          s' = { s with phase := .running t.course } ∧ w' = t.world := by
      subst hv hx
      rcases hall : pullAll pulls { s with phase := .running t.course } t.world with ⟨y, z, outs'⟩
      rw [hall] at h
      cases h
      obtain ⟨m, t', hdrive, hs', hw'⟩ :=
        ih (s := { s with phase := .running t.course }) rfl hmode hall
      exact ⟨k + m, t', (Scene.drive_add hgoing m).trans hdrive, hs', hw'⟩
    cases htaken with
    | going hgoing => exact hrest hgoing rfl rfl
    | refused items hgoing hrefused => exact hrest hgoing rfl rfl
    | @ended k u t st hgoing hend hst =>
      obtain ⟨outs', -, hall⟩ := pullAll_closed (w := t.world) pulls
        (s := { s with phase := .running t.course }.close) rfl
      rw [hall] at h
      cases h
      cases hopen

/-- A run that a tick has ended by failing is a run of ticks. -/
lemma Broken.driven (h : s.Broken w args s' w' e) :
    ∃ u rule w₀ k c, s.Opening w args u rule w₀ ∧ s'.phase = .running c ∧
      Scene.drive s.algorithm s.settings (s.prints args.mode) k (firstScene args u rule w₀)
        = (⟨c, w'⟩, .failed e) := by
  cases h with
  | @block fuel _ _ _ c hmode hfit hrunning =>
    rcases hbegin : s.begin w args with ⟨s₁, w₁, e' | ⟨⟩⟩
    · rw [fit_refused hbegin] at hfit
      cases hfit
      exact absurd hrunning (begin_error hbegin c)
    · obtain ⟨u, rule, hopening, rfl⟩ := begin_ok hbegin
      rcases hd : Scene.drive s.algorithm s.settings (s.prints args.mode) fuel
        (firstScene args u rule w₁) with ⟨t, st⟩
      rw [fit_block hmode hbegin rfl rfl hd] at hfit
      cases st with
      | failed e' =>
        cases hfit
        exact ⟨u, rule, w₁, fuel, t.course, hopening, rfl, hd⟩
      | going => cases hfit
      | satisfied => cases hfit
  | @background fuel k s₁ _ w₁ _ _ hmode hfit hwork hfailure =>
    obtain ⟨u, rule, w₀, hopening, hbegin⟩ := begin_of_fit hfit
    rw [fit_background hmode hbegin] at hfit
    cases hfit
    rcases hd : Scene.drive s.algorithm s.settings (s.prints args.mode) k
      (firstScene args u rule w₁) with ⟨t, st⟩
    rw [work_eq hd rfl rfl rfl] at hwork
    cases hwork
    cases st with
    | failed e' =>
      cases hfailure
      exact ⟨u, rule, w₁, k, t.course, hopening, rfl, hd⟩
    | going => cases hfailure
    | satisfied => cases hfailure
  | @manual _ count s₁ s₂ _ w₁ w₂ _ _ pulls outs bound last hmode hfit hpulls hopen hpull hclosed
      hfailure =>
    obtain ⟨u, rule, w₀, hopening, hbegin⟩ := begin_of_fit hfit
    rw [fit_manual hmode hbegin] at hfit
    cases hfit
    obtain ⟨k, t, hgoing, rfl, rfl⟩ := pullAll_open rfl rfl hpulls hopen
    have htaken : Taken _ bound t.course t.world (pull bound count _ t.world) :=
      pull_taken (s := { s.begun args.mode (firstCourse args u rule w₁) with
        phase := .running t.course, mode := some .manual }) count rfl rfl
    rw [hpull] at htaken
    cases htaken with
    | going hdrive => cases hclosed
    | refused items hdrive hrefused => cases hclosed
    | @ended m v t' st hdrive hend hst =>
      cases st with
      | going => cases hst
      | satisfied => cases hfailure
      | failed e' =>
        cases hfailure
        exact ⟨u, rule, w₁, k + (m + 1), t'.course, hopening, rfl,
          (Scene.drive_add hgoing (m + 1)).trans hend⟩

/-- **What the log says of the last checkpoint.**  A run that a tick at iteration `k` has ended by
failing names the last multiple of the rate up to `k`.  If the step has failed, the checkpoint of that
iteration is indeed the last one that has been completed.  Otherwise the last one that has been
completed is that of the last multiple below `k`, or none at all; it is the one that is named if and
only if `k` is not a multiple itself.  Unless a checkpoint has failed on the way, what is loaded is what
the last one has left. -/
theorem broken_lastSave {r : ℕ} (h : s.Broken w args s' w' e)
    (hrate : s.settings.rates.writeback = some r) (hr : r ≠ 0) :
    ∃ u rule w₀ k c v, s.Opening w args u rule w₀ ∧ s'.phase = .running c ∧
      w' = v.log s.settings.logFile (s.prints args.mode)
        (.iterationFailed c.iteration (some (k - k % r))) ∧
      loadArrays w'.disk s.settings.dataDir = loadArrays v.disk s.settings.dataDir ∧
      (Scene.lastBelow r k = some (k - k % r) ↔ ¬ r ∣ k) ∧
      Scene.BrokenOff s.algorithm s.settings (s.prints args.mode) (firstScene args u rule w₀) r k e
        ⟨c, v⟩ := by
  obtain ⟨u, rule, w₀, n, c, hopening, hphase, hdrive⟩ := h.driven
  obtain ⟨k, v, hlog, hbroken⟩ := Scene.drive_brokenOff ⟨rfl, rfl⟩ hrate hr hdrive
  have hcourse : c = v.course := congrArg Scene.course hlog
  have hworld : w' = v.world.log s.settings.logFile (s.prints args.mode)
      (.iterationFailed v.course.iteration (some (k - k % r))) := congrArg Scene.world hlog
  rw [← hcourse] at hworld
  refine ⟨u, rule, w₀, k, c, v.world, hopening, hphase, hworld, ?_, Scene.lastBelow_eq_iff hr, ?_⟩
  · rw [hworld]
    exact loadArrays_log v.world _ _
  · rw [hcourse]
    exact hbroken

end Solver

/-! ## Two runs that fail in their first tick -/

-- Named, so that no other settings refer to a proof inside these.
lemma evaluated_when_reported : ((1 : ℕ) : Int) ∣ 1 := Int.dvd_refl 1

/-- A checkpoint in every iteration. -/
def savingSettings : Settings :=
  { counterSettings with rates := ⟨1, some 1, 1, Nat.one_pos, by simp, evaluated_when_reported⟩ }

/-- A rule that asks for a variable that the counter does not have. -/
def absentVariable : FitArguments Float (Criterion Float) :=
  ⟨.block, some (.ofVariable "y"), false, []⟩

/-- What a run of the counter comes to when the rule cannot be evaluated. -/
def unsavedRun : Solver Float ℕ (Criterion Float) × World Float × Except Fault Unit :=
  (Solver.ofAlgorithm (counter _ _) savingSettings).fit 1 ⟨.empty, 0, #[]⟩ absentVariable

/-- The log names a checkpoint of iteration 0, but there are no checkpoints at all. -/
theorem unsaved_names_checkpoint :
    Solver.Broken (.ofAlgorithm (counter _ _) savingSettings) ⟨.empty, 0, #[]⟩ absentVariable
      unsavedRun.1 unsavedRun.2.1 .unknownVariable ∧
    unsavedRun.2.1.disk.find? savingSettings.logFile
      = some (.file #[.iterationFailed 0 (some 0)]) ∧
    unsavedRun.2.1.disk.exists? savingSettings.dataDir = false := by
  have hfit : (Solver.ofAlgorithm (counter _ _) savingSettings).fit 1 ⟨.empty, 0, #[]⟩
    absentVariable = (unsavedRun.1, unsavedRun.2.1, .error .unknownVariable) := rfl
  exact ⟨.block rfl hfit rfl, rfl, rfl⟩

/-- What a run of a counter that cannot count comes to. -/
def stuckRun : Solver Float ℕ (Criterion Float) × World Float × Except Fault Unit :=
  (Solver.ofAlgorithm { counter _ _ with step := fun n => ⟨n, 1, .error .overflow⟩ }
    savingSettings).fit 1 ⟨.empty, 0, #[]⟩ (counterArguments .block)

theorem stuck_lastSave :
    let s : Solver Float ℕ (Criterion Float) :=
      .ofAlgorithm { counter _ _ with step := fun n => ⟨n, 1, .error .overflow⟩ } savingSettings
    let args := counterArguments .block
    s.Broken ⟨.empty, 0, #[]⟩ args stuckRun.1 stuckRun.2.1 .overflow ∧
    s.settings.rates.writeback = some 1 ∧ 1 ≠ 0 ∧
    ∃ u rule w₀ k c v, s.Opening ⟨.empty, 0, #[]⟩ args u rule w₀ ∧ stuckRun.1.phase = .running c ∧
      stuckRun.2.1 = v.log s.settings.logFile (s.prints args.mode)
        (.iterationFailed c.iteration (some (k - k % 1))) ∧
      loadArrays stuckRun.2.1.disk s.settings.dataDir = loadArrays v.disk s.settings.dataDir ∧
      (Scene.lastBelow 1 k = some (k - k % 1) ↔ ¬ 1 ∣ k) ∧
      Scene.BrokenOff s.algorithm s.settings (s.prints args.mode) (Solver.firstScene args u rule w₀)
        1 k .overflow ⟨c, v⟩ := by
  intro s args
  have hfit : s.fit 1 ⟨.empty, 0, #[]⟩ args
    = (stuckRun.1, stuckRun.2.1, .error .overflow) := rfl
  have hbroken : s.Broken ⟨.empty, 0, #[]⟩ args stuckRun.1 stuckRun.2.1 .overflow :=
    .block rfl hfit rfl
  exact ⟨hbroken, rfl, by decide, Solver.broken_lastSave hbroken rfl (by decide)⟩

end PrimalDual
