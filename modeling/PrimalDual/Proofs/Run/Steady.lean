import PrimalDual.Proofs.Run.Turns

/-!
# What calls keep of the files

Whatever is called, a solver does no more with the files than to empty and to extend its log, and to
save checkpoints.  A property of the files that none of these affects is kept by any calls, and so is
what the solver was made of.

* `Steady` — a property of the files that neither the log nor checkpoints affect.
* `Steady.ready` — the folder stays ready when arrays are logged under names that settle.
* **`Steady.callAll`** — such a property is kept by any calls.
-/

namespace PrimalDual

variable {α σ κ : Type} [Scalar α]

/-- A property of the files that neither the log nor the checkpoints of a solver affect. -/
structure Steady (S : Settings) (P : Disk α (Array (LogEntry α)) → Prop) : Prop where
  put : ∀ d entries, P d → P (d.put S.logFile (.file entries))
  save : ∀ (w : World α) records vars, P w.disk →
    P (w.saveCheckpoint S records (loggedValues S vars)).1.disk

namespace Steady

variable {S : Settings} {P Q : Disk α (Array (LogEntry α)) → Prop} {w : World α}

lemma log (h : Steady S P) (print : Bool) (entry : LogEntry α) (hw : P w.disk) :
    P (w.log S.logFile print entry).disk := by
  rw [World.log_disk]
  split
  · exact h.put _ _ hw
  · exact hw

/-- The folder stays ready when arrays are logged under names that settle. -/
lemma ready (hnames : ∀ name ∈ S.logged, Settles name) :
    Steady S (S.Ready : Disk α (Array (LogEntry α)) → Prop) where
  put d entries h := h.put entries
  save w records vars h := by
    refine (h.saveItems (fun name a ha => ?_) records).1
    obtain ⟨name', hname, heq⟩ := List.mem_map.mp ha
    rw [← (Prod.mk.inj heq).1]
    exact hnames name' hname

variable [StoppingRule α κ]

/-- Ticks do nothing with the files but write the log and save checkpoints. -/
lemma respects (h : Steady S P) (A : Algorithm α σ κ) (print : Bool) : Scene.Respects
    (fun t t' : Scene α σ κ => t = t' ∧ P t.world.disk) A S S print print where
  rates := rfl
  iteration := by
    rintro t t' ⟨rfl, -⟩
    rfl
  records := by
    rintro t t' ⟨rfl, -⟩
    rfl
  log := by
    rintro t t' entry ⟨rfl, ht⟩
    exact ⟨rfl, h.log print entry ht⟩
  trackObjective := by
    rintro t t' ⟨rfl, ht⟩
    rw [Scene.trackObjective]
    split
    · exact .ok () ⟨rfl, ht⟩
    · dsimp only
      split
      · exact .ok () ⟨rfl, ht⟩
      · exact .error _ ⟨rfl, ht⟩
  evaluate := by
    rintro t t' ⟨rfl, ht⟩
    rw [Scene.evaluate]
    split
    · exact .ok _ ⟨rfl, ht⟩
    · exact .error _ ⟨rfl, ht⟩
  record := by
    rintro t t' ⟨rfl, ht⟩
    rw [Scene.record]
    split
    · exact .ok () ⟨rfl, ht⟩
    · exact .error _ ⟨rfl, ht⟩
  writeback := by
    rintro t t' ⟨rfl, ht⟩
    have hsave := h.save t.world t.course.records (t.course.bindings A) ht
    rw [Scene.writeback]
    split
    · rename_i hw
      rw [hw] at hsave
      exact .ok () ⟨rfl, hsave⟩
    · rename_i hw
      rw [hw] at hsave
      exact .error _ ⟨rfl, hsave⟩
  advance := by
    rintro t t' ⟨rfl, ht⟩
    rw [Scene.advance]
    dsimp only
    split
    · exact .ok () ⟨rfl, ht⟩
    · exact .error _ ⟨rfl, ht⟩

variable {s : Solver α σ κ} {bound : Value α}

lemma tick (h : Steady s.settings P) (hw : P w.disk) : P (s.tick w).2.1.disk := by
  rw [Solver.tick]
  split
  · rename_i c hphase
    have hmatches := (h.respects s.algorithm s.printing).tick ⟨c, w⟩ ⟨c, w⟩ ⟨rfl, hw⟩
    revert hmatches
    generalize Scene.tick s.algorithm s.settings s.printing ⟨c, w⟩ = result
    intro hmatches
    cases hmatches with
    | ok goesOn ht => exact ht.2
    | error e ht => exact ht.2
  · exact hw

lemma work (h : Steady s.settings P) (fuel : ℕ) (hw : P w.disk) :
    P (Solver.work fuel s w).2.disk := by
  induction fuel generalizing s w with
  | zero => exact hw
  | succ fuel ih =>
    obtain ⟨phase, hphase⟩ := s.tick_keeps w
    have htick := h.tick hw
    rw [Solver.work]
    split
    · exact hw
    · rcases hr : s.tick w with ⟨s', w', e | goesOn⟩
      · rw [hr] at htick
        exact htick
      · rw [hr] at htick hphase
        cases hphase
        cases goesOn with
        | false => exact htick
        | true => exact ih h htick

lemma pullSteps (h : Steady s.settings P) (count done : ℕ) (hw : P w.disk) :
    P (Solver.pullSteps bound count done s w).2.1.disk := by
  induction count generalizing s w done with
  | zero => exact hw
  | succ count ih =>
    obtain ⟨phase, hphase⟩ := s.tick_keeps w
    have htick := h.tick hw
    rw [Solver.pullSteps]
    rcases Solver.allowsMore bound done with e | more
    · exact hw
    · cases more with
      | false => exact hw
      | true =>
        dsimp only
        rcases hr : s.tick w with ⟨s', w', e | goesOn⟩
        · rw [hr] at htick
          exact htick
        · rw [hr] at htick hphase
          cases hphase
          cases goesOn with
          | false => exact htick
          | true =>
            dsimp only
            split
            · exact htick
            · exact ih (s := { s with phase }) h (done + 1) htick

omit [StoppingRule α κ] in
lemma openLog (h : Steady s.settings P) (hw : P w.disk) : P (s.openLog w).1.disk := by
  rw [Solver.openLog]
  split
  · exact hw
  · split
    · exact hw
    · exact h.put _ _ hw

lemma prepare (h : Steady s.settings P) (args : FitArguments α κ) (hw : P w.disk) :
    P (s.prepare w args).2.1.disk := by
  have hnoted : ∀ u, P (s.noted s.printing u w).disk := by
    intro u
    rw [Solver.noted]
    split
    · exact h.log _ _ hw
    · exact hw
  rcases hstart : s.algorithm.start args.parameters with e | u
  · simp only [Solver.prepare, hstart]
    exact h.log _ _ hw
  · rcases hrule : s.ruleFor args u with e | rule
    · rw [Solver.prepare_of_error args hstart hrule]
      exact h.log _ _ (hnoted u)
    · rw [Solver.prepare_of_ok args hstart hrule]
      exact hnoted u

lemma begin (h : Steady s.settings P) (args : FitArguments α κ) (hw : P w.disk) :
    P (s.begin w args).2.1.disk := by
  have hopen := h.openLog hw
  rw [Solver.begin]
  rcases hlog : s.openLog w with ⟨w₁, e | ⟨⟩⟩
  · rw [hlog] at hopen
    exact hopen
  · rw [hlog] at hopen
    exact prepare (s := { s.close with phase := .blank #[], printing := s.prints args.mode })
      h args hopen

lemma fit (h : Steady s.settings P) (fuel : ℕ) (args : FitArguments α κ) (hw : P w.disk) :
    P (s.fit fuel w args).2.1.disk := by
  have hbegun := h.begin args hw
  rw [Solver.fit_eq]
  rcases hbegin : s.begin w args with ⟨s', w', e | ⟨⟩⟩
  · rw [hbegin] at hbegun
    exact hbegun
  · rw [hbegin] at hbegun
    obtain ⟨u, rule, -, rfl⟩ := Solver.begin_ok hbegin
    dsimp only
    cases args.mode with
    | manual | background => exact hbegun
    | block => exact work (s := { s.begun _ _ with mode := some .block, active := true }) h fuel hbegun

/-- Whatever is called, the property stays. -/
lemma call (h : Steady s.settings P) (o : Call α κ) (hw : P w.disk) : P (s.call w o).2.1.disk := by
  cases o with
  | fit fuel args => exact h.fit fuel args hw
  | work fuel => exact h.work fuel hw
  | pull bound count =>
    rw [Solver.call, Solver.pull]
    split
    · exact hw
    · split
      · exact hw
      · exact h.pullSteps count 0 hw
  | writeback => exact h.save w s.records s.bindings hw
  | stop | busy | stats | objective | solution => exact hw

end Steady

namespace Solver

variable [StoppingRule α κ] {s : Solver α σ κ} {w : World α}

lemma work_keeps (fuel : ℕ) (s : Solver α σ κ) (w : World α) :
    (work fuel s w).1.algorithm = s.algorithm ∧ (work fuel s w).1.settings = s.settings := by
  induction fuel generalizing s w with
  | zero => exact ⟨rfl, rfl⟩
  | succ fuel ih =>
    obtain ⟨phase, hphase⟩ := s.tick_keeps w
    rw [work]
    split
    · exact ⟨rfl, rfl⟩
    · rcases hr : s.tick w with ⟨s', w', e | goesOn⟩
      · rw [hr] at hphase
        cases hphase
        exact ⟨rfl, rfl⟩
      · rw [hr] at hphase
        cases hphase
        cases goesOn with
        | false => exact ⟨rfl, rfl⟩
        | true => exact ih { s with phase } w'

omit [Scalar α] [StoppingRule α κ] in
lemma stop_keeps (s : Solver α σ κ) :
    s.stop.1.algorithm = s.algorithm ∧ s.stop.1.settings = s.settings := by
  rw [stop]
  split
  · exact ⟨rfl, rfl⟩
  · split <;> exact ⟨rfl, rfl⟩

lemma fit_keeps (fuel : ℕ) (s : Solver α σ κ) (w : World α) (args : FitArguments α κ) :
    (s.fit fuel w args).1.algorithm = s.algorithm ∧ (s.fit fuel w args).1.settings = s.settings := by
  rcases hlog : (s.openLog w).2 with e | ⟨⟩
  · rw [(fit_of_log_error fuel args hlog).1]
    exact ⟨rfl, rfl⟩
  · obtain ⟨phase, printing, hclosed⟩ := begin_closes args hlog
    rw [fit_eq]
    rcases hbegin : s.begin w args with ⟨s', w', e | ⟨⟩⟩
    · rw [hbegin] at hclosed
      cases hclosed
      exact ⟨rfl, rfl⟩
    · rw [hbegin] at hclosed
      cases hclosed
      dsimp only
      cases args.mode with
      | manual | background => exact ⟨rfl, rfl⟩
      | block =>
        obtain ⟨halgorithm, hsettings⟩ := work_keeps fuel
          { s.close with phase, printing, mode := some .block, active := true } w'
        obtain ⟨halgorithm', hsettings'⟩ := stop_keeps (work fuel
          { s.close with phase, printing, mode := some .block, active := true } w').1
        exact ⟨halgorithm'.trans halgorithm, hsettings'.trans hsettings⟩

/-- Nothing that is called changes what the solver was made of. -/
lemma call_keeps (s : Solver α σ κ) (w : World α) (o : Call α κ) :
    (s.call w o).1.algorithm = s.algorithm ∧ (s.call w o).1.settings = s.settings := by
  cases o with
  | fit fuel args => exact fit_keeps fuel s w args
  | work fuel => exact work_keeps fuel s w
  | pull bound count =>
    rw [call, pull]
    split
    · exact ⟨rfl, rfl⟩
    · split
      · exact ⟨rfl, rfl⟩
      · obtain ⟨phase, ⟨-, hs⟩ | ⟨-, hs⟩⟩ := pullSteps_ends bound count 0 s w
        · rw [reply, hs]
          exact ⟨rfl, rfl⟩
        · rw [reply, hs]
          exact ⟨rfl, rfl⟩
  | stop => exact s.stop_keeps
  | writeback | busy | stats | objective | solution => exact ⟨rfl, rfl⟩

end Solver

/-- **A steady property** is kept by any calls, and so is what the solver was made of. -/
theorem Steady.callAll [StoppingRule α κ] {P : Disk α (Array (LogEntry α)) → Prop}
    {s : Solver α σ κ} {w : World α} (h : Steady s.settings P) (hw : P w.disk)
    (calls : List (Call α κ)) :
    (s.callAll w calls).1.algorithm = s.algorithm ∧ (s.callAll w calls).1.settings = s.settings ∧
      P (s.callAll w calls).2.1.disk := by
  induction calls generalizing s w with
  | nil => exact ⟨rfl, rfl, hw⟩
  | cons o later ih =>
    obtain ⟨halgorithm, hsettings⟩ := s.call_keeps w o
    obtain ⟨hlater, hlater', hdisk⟩ := ih (s := (s.call w o).1) (hsettings ▸ h) (h.call o hw)
    exact ⟨hlater.trans halgorithm, hlater'.trans hsettings, hdisk⟩

end PrimalDual
