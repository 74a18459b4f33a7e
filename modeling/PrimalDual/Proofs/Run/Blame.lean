import PrimalDual.Proofs.Outcome
import PrimalDual.Proofs.Run.Completion
import PrimalDual.Proofs.Run.Frame

/-!
# What a tick fails for

The rates of a solver are read from three values that are checked one after the other.  What the
checks let through decides whether a tick can fail on its own: whether a test of the rates divides by
zero, and whether there is a record to report.  A rate of reports that is zero is let through, as it
is a multiple of everything, and then the first tick fails.  With any other rates a tick does just
what it calls for, and fails for nothing else.

* `Rates.report_eq_zero_iff` — where a rate of reports that is zero comes from.
* `plainWork`, **`work_eq_plainWork`** — a tick without tests that can fail, which reports the record
  that it has just made.
* `PartRefuses`, `Blames` — a part of a tick refuses: the objective, the rule, its statistics, the
  storage of a checkpoint, or the step.
* **`accepted_tick`** — all of it for the rates that are read.
* **`counter_divides_by_zero`** — a rate of zero.
-/

namespace PrimalDual

/-! ## The rates that are read -/

namespace Rates

section

variable {α : Type} [Scalar α] {stop writeback report : Value α} {r : Rates}

/-- A rate of reports is zero if it is given as zero. -/
lemma report_eq_zero_iff (h : Rates.read stop writeback report = .ok r) :
    r.report = 0 ↔ ∃ n, report = .number n ∧ n.exactly? = some 0 := by
  rw [Rates.read] at h
  obtain ⟨s, -, h⟩ := ok_of_bind h
  obtain ⟨w, -, h⟩ := ok_of_bind h
  obtain ⟨k, hk, h⟩ := ok_of_bind h
  cases h
  show k.val = 0 ↔ _
  cases report with
  | null =>
    cases hk
    have hpos : s.val ≠ 0 := Nat.pos_iff_ne_zero.mp s.property
    simp [hpos]
  | number n =>
    rw [readReport] at hk
    split at hk
    · rename_i k' hexact
      split at hk
      · cases hk
        simp [hexact]
      · cases hk
    · cases hk
  | _ => cases hk

end

end Rates

variable {α σ κ : Type}

namespace Scene

section

variable [Scalar α] [StoppingRule α κ]

/-- Adds the record of the last evaluation, and hands it on. -/
def recordRow (A : Algorithm α σ κ) : Action α σ κ (Row α) := fun s =>
  match s.course.row A with
  | .ok r => .ok r { s with course := { s.course with records := s.course.records.push r } }
  | .error e => .error e s

/-- Reports a record. -/
def announce (S : Settings) (print : Bool) (r : Row α) : Action α σ κ Unit :=
  modify fun s => s.log S print (.statistics s.course.iteration r)

/-- What a tick does at iteration `i`, with tests of the rates that have an answer, and reports of the
record that the tick has just made. -/
def plainWork (A : Algorithm α σ κ) (S : Settings) (print : Bool) (i : ℕ) :
    Action α σ κ Bool := do
  if S.rates.stop ∣ i then
    trackObjective A
    if ← evaluate A then
      let r ← recordRow A
      announce S print r
      modify (log S print .satisfied)
      if S.rates.writeback.isSome then writeback A S
      return false
    let r ← recordRow A
    if S.rates.report ∣ i then announce S print r
    if S.rates.writesBack i then writeback A S
  advance A
  return true

variable {A : Algorithm α σ κ} {S : Settings} {print : Bool} {i : ℕ}

/-- A record that is reported right after it has been made is there. -/
lemma record_report {γ : Type} (f : Action α σ κ γ) :
    (do record A; report S print; f) = (do let r ← recordRow A; announce S print r; f) := by
  funext t
  show EStateM.bind (record A) (fun _ => EStateM.bind (report S print) fun _ => f) t
    = EStateM.bind (recordRow A) (fun r => EStateM.bind (announce S print r) fun _ => f) t
  rw [EStateM.bind, EStateM.bind, record, recordRow]
  cases t.course.row A with
  | error e => rfl
  | ok r =>
    dsimp only
    rw [EStateM.bind, report, Array.back?_push]
    rfl

lemma record_eq {γ : Type} (f : Action α σ κ γ) :
    (do record A; f) = (do let _ ← recordRow A; f) := by
  funext t
  show EStateM.bind (record A) (fun _ => f) t = EStateM.bind (recordRow A) (fun _ => f) t
  rw [EStateM.bind, EStateM.bind, record, recordRow]
  cases t.course.row A <;> rfl

lemma reports_eq (h : S.rates.report ≠ 0) (i : ℕ) :
    S.rates.reports i = .ok (decide (S.rates.report ∣ i)) := by
  rw [Rates.reports, if_neg h]
  congr 1
  rw [decide_eq_decide, Int.dvd_iff_emod_eq_zero]

/-- **With a rate of reports that is not zero**, a tick is one whose tests always have an answer, and
whose reports always have a record. -/
theorem work_eq_plainWork (h : S.rates.report ≠ 0) (i : ℕ) :
    work A S print i = plainWork A S print i := by
  rw [work, plainWork]
  simp only [proceed, reports_eq h]
  by_cases hdue : S.rates.stop ∣ i
  · rw [if_pos hdue, if_pos (Rates.evaluates_iff.mpr hdue)]
    simp only [bind_assoc, finish]
    congr 1
    funext _
    congr 1
    funext decision
    cases decision with
    | true =>
      rw [if_pos rfl, if_pos rfl, record_report]
      cases S.rates.writeback.isSome <;> simp
    | false =>
      rw [if_neg Bool.false_ne_true, if_neg Bool.false_ne_true]
      by_cases hreport : S.rates.report ∣ (i : Int)
      · simp only [hreport, decide_true, if_true, bind_assoc, record_report]
        cases S.rates.writesBack i <;> simp
      · simp only [hreport, decide_false, Bool.false_eq_true, if_false, record_eq]
        cases S.rates.writesBack i <;> simp
  · have hreport : ¬ S.rates.report ∣ (i : Int) := mt Rates.stop_dvd_of_reports hdue
    have hsave : S.rates.writesBack i = false :=
      Bool.eq_false_iff.mpr (mt Rates.stop_dvd_of_writesBack hdue)
    have hevaluate : S.rates.evaluates i = false :=
      Bool.eq_false_iff.mpr (mt Rates.evaluates_iff.mp hdue)
    rw [if_neg hdue, hevaluate, decide_eq_false hreport, hsave]
    rfl

/-! ## Blame -/

/-- Something that a tick calls for is refused. -/
inductive PartRefuses (A : Algorithm α σ κ) (S : Settings) (t : Scene α σ κ) (e : Fault) : Prop
  | objective (h : trackedObjective A t.course = .error e)
  | evaluation (h : (t.course.judge A t.world.now).2 = .error e)
  | statistics (h : t.course.row A = .error e)
  | storage (h : (t.world.saveCheckpoint S t.course.records
      (loggedValues S (t.course.bindings A))).2 = .error e)
  | step (h : (A.step t.course.state).outcome = .error e)

/-- An action fails for nothing but a part of the tick that is refused at the same iteration. -/
def Blames {β : Type} (A : Algorithm α σ κ) (S : Settings) (x : Action α σ κ β) : Prop :=
  ∀ t e u, x t = .error e u → ∃ v, Stays t v ∧ PartRefuses A S v e

section

variable {β γ : Type} {x : Action α σ κ β} {f : β → Action α σ κ γ}

lemma Blames.pure (b : β) : Blames A S (pure b : Action α σ κ β) := by
  intro t e u h
  cases h

lemma Blames.bind (hx : Blames A S x) (hkeeps : Keeps x) (hf : ∀ b, Blames A S (f b)) :
    Blames A S (x >>= f) := by
  intro t e u h
  rcases error_of_bind h with h | ⟨b, v, hv, h⟩
  · exact hx t e u h
  · have hstays := hkeeps t
    rw [hv] at hstays
    obtain ⟨w, hw, hrefuses⟩ := hf b v e u h
    exact ⟨w, hstays.trans hw, hrefuses⟩

lemma Blames.ite {y : Action α σ κ β} (p : Prop) [Decidable p] (hx : Blames A S x)
    (hy : Blames A S y) : Blames A S (if p then x else y) := by
  split
  · exact hx
  · exact hy

end

lemma blames_modify (f : Scene α σ κ → Scene α σ κ) :
    Blames A S (modify f : Action α σ κ Unit) := by
  intro t e u h
  cases h

lemma blames_trackObjective : Blames A S (trackObjective A) := by
  intro t e u h
  refine ⟨t, Stays.refl t, .objective ?_⟩
  cases htracker : t.course.tracker with
  | none =>
    simp only [trackObjective, htracker] at h
    cases h
  | some memo =>
    cases hobjective : A.objective with
    | none =>
      simp only [trackObjective, htracker, hobjective] at h
      cases h
      simp only [trackedObjective, htracker, hobjective]
    | some f =>
      cases hvalue : f t.course.state with
      | error e' =>
        simp only [trackObjective, htracker, hobjective, hvalue] at h
        cases h
        simp only [trackedObjective, htracker, hobjective, hvalue, Except.map]
      | ok a =>
        simp only [trackObjective, htracker, hobjective, hvalue] at h
        cases h

lemma blames_evaluate : Blames A S (evaluate A) := by
  intro t e u h
  refine ⟨t, Stays.refl t, .evaluation ?_⟩
  rw [evaluate] at h
  split at h
  · cases h
  · rename_i c e' hjudge
    cases h
    rw [hjudge]

lemma blames_recordRow : Blames A S (recordRow A) := by
  intro t e u h
  refine ⟨t, Stays.refl t, .statistics ?_⟩
  rw [recordRow] at h
  split at h
  · cases h
  · rename_i e' hrow
    cases h
    exact hrow

lemma blames_writeback : Blames A S (writeback A S) := by
  intro t e u h
  refine ⟨t, Stays.refl t, .storage ?_⟩
  rw [writeback] at h
  split at h
  · cases h
  · rename_i w e' hsave
    cases h
    rw [hsave]

lemma blames_advance : Blames A S (advance A) := by
  intro t e u h
  refine ⟨t, Stays.refl t, .step ?_⟩
  rw [advance] at h
  split at h
  · cases h
  · rename_i e' houtcome
    cases h
    exact houtcome

lemma keeps_recordRow : Keeps (recordRow A) := by
  intro t
  rw [recordRow]
  split
  · refine ⟨rfl, rfl, ?_⟩
    show t.course.records.toList <+: (t.course.records.push _).toList
    rw [Array.toList_push]
    exact List.prefix_append _ _
  · exact Stays.refl t

omit [Scalar α] [StoppingRule α κ] in
lemma keeps_announce (r : Row α) : Keeps (announce S print r : Action α σ κ Unit) :=
  fun _ => ⟨rfl, rfl, List.prefix_rfl⟩

/-- The step comes last, so that nothing that is refused comes after it. -/
lemma blames_step : Blames A S (do advance A; return true : Action α σ κ Bool) := by
  intro t e u h
  rcases error_of_bind h with h | ⟨_, v, -, h⟩
  · exact blames_advance t e u h
  · cases h

/-- The last part of a tick: a checkpoint where one is due, and the step. -/
lemma blames_last : Blames A S (do
    if S.rates.writesBack i then writeback A S
    advance A
    return true : Action α σ κ Bool) :=
  Blames.ite _ (blames_writeback.bind keeps_writeback fun _ => blames_step) blames_step

/-- Nothing in a plain tick fails but its parts. -/
lemma blames_plainWork : Blames A S (plainWork A S print i) := by
  rw [plainWork]
  refine Blames.ite _ (blames_trackObjective.bind keeps_trackObjective fun _ =>
    blames_evaluate.bind keeps_evaluate fun decision => Blames.ite _ ?_ ?_) blames_step
  · refine blames_recordRow.bind keeps_recordRow fun r => (blames_modify _).bind (keeps_announce r)
      fun _ => (blames_modify _).bind (keeps_log _) fun _ => ?_
    exact Blames.ite _ (blames_writeback.bind keeps_writeback fun _ => Blames.pure false)
      (Blames.pure false)
  · refine blames_recordRow.bind keeps_recordRow fun r => Blames.ite _ ?_ blames_last
    exact (blames_modify _).bind (keeps_announce r) fun _ => blames_last

variable {stop writeback report : Value α}

/-- **A tick fails for nothing but its parts.**  Let the rates be read from three values, and let the
rate of reports not be given as zero.  Then, at every iteration of every run, a tick is the plain one:
its tests of the rates always have an answer, reports are due only at an evaluation, and what is
reported is the record that the same tick has just made.  So a tick that fails does so because the
objective, the rule, its statistics, the storage of a checkpoint or the step is refused. -/
theorem accepted_tick (hread : Rates.read stop writeback report = .ok S.rates)
    (hreport : ∀ n, report = .number n → n.exactly? ≠ some 0) :
    (∀ i, ∃ due, S.rates.reports i = .ok due) ∧
      (∀ i, (work A S print i : Action α σ κ Bool) = plainWork A S print i) ∧
      ∀ (t : Scene α σ κ) e u, tick A S print t = .error e u →
        ∃ v, Stays t v ∧ PartRefuses A S v e := by
  have hrate : S.rates.report ≠ 0 := by
    rw [Ne, Rates.report_eq_zero_iff hread]
    rintro ⟨n, hn, hzero⟩
    exact hreport n hn hzero
  refine ⟨fun i => ⟨_, reports_eq hrate i⟩, work_eq_plainWork hrate, fun t e u h => ?_⟩
  rw [tick] at h
  split at h
  · cases h
  · rename_i e' u' hwork
    cases h
    rw [work_eq_plainWork hrate] at hwork
    exact blames_plainWork t e u' hwork

end

end Scene

/-! ## A counter at given rates -/

/-- The settings of the counter at other rates. -/
def counterSettingsAt (r : Rates) : Settings := { counterSettings with rates := r }

/-- A counter before its first step, with a rule that never ends the run. -/
def counterStart : Scene Float ℕ (Criterion Float) :=
  ⟨Solver.initialCourse 0 Criterion.manual false, ⟨.empty, 0, #[]⟩⟩

theorem counter_accepted_tick :
    ∃ r, Rates.read (.number (.int 2)) (.number (.int 0)) (.number (.int 4) : Value Float) = .ok r ∧
      ∀ i, (Scene.work (counter _ _) (counterSettingsAt r) false i :
          Scene.Action Float ℕ (Criterion Float) Bool)
        = Scene.plainWork (counter _ _) (counterSettingsAt r) false i := by
  have hread : Rates.read (.number (.int 2)) (.number (.int 0)) (.number (.int 4) : Value Float)
      = .ok ⟨2, some 0, 4, by decide, by simp, by decide⟩ := rfl
  refine ⟨_, hread, (Scene.accepted_tick (S := counterSettingsAt _) hread fun n hn => ?_).2.1⟩
  cases hn
  decide

/-- A rate of reports that is zero is accepted, and then the first tick divides by it. -/
theorem counter_divides_by_zero :
    ∃ r, Rates.read (.number (.int 1)) .null (.number (.int 0) : Value Float) = .ok r ∧
      ∃ t, Scene.tick (counter _ _) (counterSettingsAt r) false counterStart
        = .error .divisionByZero t :=
  ⟨⟨1, none, 0, by decide, by simp, by decide⟩, rfl, _, rfl⟩

end PrimalDual
