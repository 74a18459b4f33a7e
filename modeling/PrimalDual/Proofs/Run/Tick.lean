import Mathlib.Data.Nat.Notation
import Mathlib.Tactic.Lemma
import PrimalDual.Run.Course

/-!
# What a tick does

A tick is a chain of actions, each of which may fail.  One that does not fail is followed backwards:
every action of the chain has not failed either, and each of them tells what it has done.

* `Rates.stop_dvd_of_writesBack`, `Rates.stop_dvd_of_reports` — all rates are multiples of the rate
  of evaluations, so that nothing but a step happens in between.
* `trackObjective_ok`, `evaluate_ok`, `record_ok`, `report_ok`, `writeback_ok`, `advance_ok` — what
  each action does.
* `judge_rule`, `judge_keeps` — an evaluation asks the rule once and leaves the rest as it is.
* `proceed_ok`, `finish_ok`, `work_ok` — the chains that a tick is made of.
-/

namespace PrimalDual

variable {α σ κ : Type}

/-! ## When something is due -/

namespace Rates

variable {r : Rates} {i : ℕ}

lemma evaluates_iff : r.evaluates i = true ↔ r.stop ∣ i := by
  rw [evaluates, decide_eq_true_iff, Nat.dvd_iff_mod_eq_zero]

lemma exists_of_evaluates (h : r.evaluates i = true) : ∃ j, i = j * r.stop := by
  obtain ⟨j, rfl⟩ := evaluates_iff.mp h
  exact ⟨j, Nat.mul_comm _ _⟩

/-- A checkpoint is due at the multiples of a rate that is not zero. -/
lemma writesBack_iff : r.writesBack i = true ↔ ∃ w, r.writeback = some w ∧ w ≠ 0 ∧ w ∣ i := by
  rw [writesBack]
  split
  · rename_i h
    simp [h]
  · rename_i h
    simp [h]
  · rename_i w hzero h
    rw [decide_eq_true_iff, h, ← Nat.dvd_iff_mod_eq_zero]
    constructor
    · intro hdvd
      exact ⟨w, rfl, hzero, hdvd⟩
    · rintro ⟨_, ⟨rfl⟩, -, hdvd⟩
      exact hdvd

/-- Checkpoints are due at evaluations only. -/
lemma stop_dvd_of_writesBack (h : r.writesBack i = true) : r.stop ∣ i := by
  obtain ⟨w, hw, -, hdvd⟩ := writesBack_iff.mp h
  exact Nat.dvd_trans (r.writeback_dvd w hw) hdvd

/-- Reports are due at the multiples of their rate, which is then not zero. -/
lemma reports_ok {due : Bool} (h : r.reports i = .ok due) : due = true ↔ r.report ∣ i := by
  rw [reports] at h
  split at h
  · cases h
  · rw [Except.ok.injEq] at h
    rw [← h, decide_eq_true_iff, Int.dvd_iff_emod_eq_zero]

/-- Reports are due at evaluations only. -/
lemma stop_dvd_of_reports (h : r.report ∣ i) : r.stop ∣ i :=
  Int.natCast_dvd_natCast.mp (Int.dvd_trans r.report_dvd h)

end Rates

/-! ## Logs and checkpoints -/

namespace World

/-- An entry goes into a log that is there. -/
lemma log_disk (w : World α) (file : Path) (print : Bool) (entry : LogEntry α) :
    (w.log file print entry).disk = match w.disk.find? file with
      | some (.file entries) => w.disk.put file (.file (entries.push entry))
      | _ => w.disk := by
  rw [World.log]
  cases w.disk.find? file with
  | none => cases print <;> rfl
  | some e => cases e <;> cases print <;> rfl

lemma log_now (w : World α) (file : Path) (print : Bool) (entry : LogEntry α) :
    (w.log file print entry).now = w.now := by
  rw [World.log]
  split <;> split <;> rfl

lemma saveCheckpoint_now [Scalar α] {S : Settings} (w : World α) (records : Array (Row α))
    (logged : Parameters α) : (w.saveCheckpoint S records logged).1.now = w.now := by
  rw [World.saveCheckpoint]
  split <;> rfl

end World

namespace Scene

/-! ## One action after the other -/

lemma ok_of_bind {β γ : Type} {x : Action α σ κ β} {f : β → Action α σ κ γ} {b : γ}
    {t u : Scene α σ κ} (h : (x >>= f) t = .ok b u) :
    ∃ a v, x t = .ok a v ∧ f a v = .ok b u := by
  change EStateM.bind x f t = .ok b u at h
  rw [EStateM.bind] at h
  split at h
  · rename_i a v hx
    exact ⟨a, v, hx, h⟩
  · cases h

variable {A : Algorithm α σ κ} {S : Settings} {print : Bool} {t u : Scene α σ κ}

/-! ## The actions -/

lemma report_ok (h : report S print t = .ok () u) :
    ∃ r, t.course.records.back? = some r ∧
      u = t.log S print (.statistics t.course.iteration r) := by
  rw [report] at h
  split at h
  · rename_i r hback
    cases h
    exact ⟨r, hback, rfl⟩
  · cases h

lemma advance_ok (h : advance A t = .ok () u) :
    (A.step t.course.state).outcome = .ok () ∧
      u = { course := { t.course with
              state := (A.step t.course.state).state
              iteration := t.course.iteration + 1 }
            world := { t.world with now := t.world.now + (A.step t.course.state).elapsed } } := by
  rw [advance] at h
  split at h
  · rename_i houtcome
    cases h
    exact ⟨houtcome, rfl⟩
  · cases h

/-- The tracked value of the objective in a state. -/
def trackedObjective (A : Algorithm α σ κ) (c : Course α σ κ) : Except Fault (Option (NdArray α)) :=
  match c.tracker with
  | none => .ok c.objective
  | some _ =>
    match A.objective with
    | some f => (f c.state).map fun a => some a.flatten
    | none => .error .noObjective

lemma trackObjective_ok (h : trackObjective A t = .ok () u) :
    ∃ a, trackedObjective A t.course = .ok a ∧
      u = { t with course := { t.course with objective := a } } := by
  cases htracker : t.course.tracker with
  | none =>
    simp only [trackObjective, htracker] at h
    cases h
    exact ⟨t.course.objective, by simp only [trackedObjective, htracker], rfl⟩
  | some memo =>
    cases hobjective : A.objective with
    | none =>
      simp only [trackObjective, htracker, hobjective] at h
      cases h
    | some f =>
      cases hvalue : f t.course.state with
      | error e =>
        simp only [trackObjective, htracker, hobjective, hvalue] at h
        cases h
      | ok a =>
        simp only [trackObjective, htracker, hobjective, hvalue] at h
        cases h
        refine ⟨some a.flatten, ?_, by simp only [htracker]⟩
        simp only [trackedObjective, htracker, hobjective, hvalue, Except.map]

/-- Without a value of the objective, nothing has changed. -/
lemma trackObjective_error {e : Fault} (h : trackObjective A t = .error e u) : u = t := by
  rw [trackObjective] at h
  split at h
  · cases h
  · dsimp only at h
    split at h
    · cases h
    · cases h
      rfl

variable [Scalar α]

lemma writeback_ok (h : writeback A S t = .ok () u) :
    t.world.saveCheckpoint S t.course.records (loggedValues S (t.course.bindings A))
        = (u.world, .ok ()) ∧ u.course = t.course := by
  rw [writeback] at h
  split at h
  · rename_i w hsave
    cases h
    exact ⟨hsave, rfl⟩
  · cases h

variable [StoppingRule α κ]

omit [Scalar α] in
lemma evaluate_ok {decision : Bool} (h : evaluate A t = .ok decision u) :
    (t.course.judge A t.world.now).2 = .ok decision ∧
      u = { t with course := (t.course.judge A t.world.now).1 } := by
  rw [evaluate] at h
  split at h
  · rename_i c d hjudge
    cases h
    rw [hjudge]
    exact ⟨rfl, rfl⟩
  · cases h

lemma record_ok (h : record A t = .ok () u) :
    ∃ r, t.course.row A = .ok r ∧
      u = { t with course := { t.course with records := t.course.records.push r } } := by
  rw [record] at h
  split at h
  · rename_i r hrow
    cases h
    exact ⟨r, hrow, rfl⟩
  · cases h

/-! ## An evaluation -/

omit [Scalar α] in
/-- An evaluation changes the rule and what is recorded of the objective. -/
lemma judge_keeps (A : Algorithm α σ κ) (c : Course α σ κ) (now : Int) :
    (c.judge A now).1 = { c with
      rule := (c.judge A now).1.rule
      tracker := (c.judge A now).1.tracker } := by
  rw [Course.judge]
  split
  · rfl
  · dsimp only
    split
    · rfl
    · split <;> rfl

omit [Scalar α] in
/-- An evaluation asks the rule once. -/
lemma judge_rule (A : Algorithm α σ κ) (c : Course α σ κ) (now : Int) :
    (c.judge A now).1.rule = (StoppingRule.stop c.rule (c.observe A now)).1 := by
  rw [Course.judge]
  split
  · rename_i h
    rw [h]
  · rename_i h
    rw [h]
    dsimp only
    split
    · rfl
    · split <;> rfl

omit [Scalar α] in
lemma judge_decision {A : Algorithm α σ κ} {c : Course α σ κ} {now : Int} {decision : Bool}
    (h : (c.judge A now).2 = .ok decision) :
    (StoppingRule.stop c.rule (c.observe A now)).2 = .ok decision := by
  rw [Course.judge] at h
  split at h
  · cases h
  · rename_i hstop
    rw [hstop]
    dsimp only at h
    split at h
    · exact h
    · split at h
      · exact h
      · cases h

/-! ## Chains of actions -/

omit [StoppingRule α κ] in
lemma proceed_ok {i : ℕ} (h : proceed A S print i t = .ok () u) :
    ∃ due v v', S.rates.reports i = .ok due ∧
      (if due then report S print else pure ()) t = .ok () v ∧
      (if S.rates.writesBack i then writeback A S else pure ()) v = .ok () v' ∧
      advance A v' = .ok () u := by
  have hrest {v : Scene α σ κ}
      (h : (if S.rates.writesBack i then writeback A S >>= fun _ => advance A else advance A) v
        = .ok () u) :
      ∃ v', (if S.rates.writesBack i then writeback A S else pure ()) v = .ok () v' ∧
        advance A v' = .ok () u := by
    split at h
    · rename_i hdue
      rw [if_pos hdue]
      obtain ⟨_, v', hsave, hadvance⟩ := ok_of_bind h
      exact ⟨v', hsave, hadvance⟩
    · rename_i hdue
      rw [if_neg hdue]
      exact ⟨v, rfl, h⟩
  rw [proceed] at h
  cases hdue : S.rates.reports i with
  | ok due =>
    rw [hdue] at h
    cases due with
    | true =>
      obtain ⟨_, v, hreport, h⟩ := ok_of_bind h
      obtain ⟨v', hsave, hadvance⟩ := hrest h
      exact ⟨true, v, v', rfl, hreport, hsave, hadvance⟩
    | false =>
      obtain ⟨v', hsave, hadvance⟩ := hrest h
      exact ⟨false, t, v', rfl, rfl, hsave, hadvance⟩
  | error e =>
    rw [hdue] at h
    obtain ⟨_, _, hthrow, -⟩ := ok_of_bind h
    cases hthrow

lemma work_ok {i : ℕ} {goesOn : Bool} (h : work A S print i t = .ok goesOn u) :
    (S.rates.evaluates i = false ∧ goesOn = true ∧ proceed A S print i t = .ok () u) ∨
    (S.rates.evaluates i = true ∧ ∃ v v', trackObjective A t = .ok () v ∧
      ((evaluate A v = .ok true v' ∧ goesOn = false ∧ finish A S print v' = .ok () u) ∨
       (evaluate A v = .ok false v' ∧ goesOn = true ∧
        ∃ v'', record A v' = .ok () v'' ∧ proceed A S print i v'' = .ok () u))) := by
  rw [work] at h
  split at h
  · rename_i hdue
    obtain ⟨_, v, htrack, h⟩ := ok_of_bind h
    obtain ⟨decision, v', hevaluate, h⟩ := ok_of_bind h
    refine Or.inr ⟨hdue, v, v', htrack, ?_⟩
    cases decision with
    | true =>
      obtain ⟨_, v'', hfinish, h⟩ := ok_of_bind h
      cases h
      exact Or.inl ⟨hevaluate, rfl, hfinish⟩
    | false =>
      obtain ⟨_, v'', hrecord, h⟩ := ok_of_bind h
      obtain ⟨_, u', hproceed, h⟩ := ok_of_bind h
      cases h
      exact Or.inr ⟨hevaluate, rfl, v'', hrecord, hproceed⟩
  · rename_i hdue
    obtain ⟨_, u', hproceed, h⟩ := ok_of_bind h
    cases h
    exact Or.inl ⟨Bool.not_eq_true _ ▸ hdue, rfl, hproceed⟩

lemma tick_ok {goesOn : Bool} (h : tick A S print t = .ok goesOn u) :
    work A S print t.course.iteration t = .ok goesOn u := by
  rw [tick] at h
  split at h
  · rename_i g v hwork
    cases h
    exact hwork
  · cases h

lemma finish_ok (h : finish A S print t = .ok () u) :
    ∃ v v', record A t = .ok () v ∧ report S print v = .ok () v' ∧
      (if S.rates.writeback.isSome then writeback A S else pure ()) (v'.log S print .satisfied)
        = .ok () u := by
  rw [finish] at h
  obtain ⟨_, v, hrecord, h⟩ := ok_of_bind h
  obtain ⟨_, v', hreport, h⟩ := ok_of_bind h
  obtain ⟨_, v'', hmodify, h⟩ := ok_of_bind h
  cases hmodify
  exact ⟨v, v', hrecord, hreport, h⟩

end Scene

end PrimalDual
