import PrimalDual.Proofs.Run.Trace

/-!
# Ticks follow the trace

After `k` ticks there have been evaluations at the multiples of the rate below `k`, and the course
is what the last one of them has left, with the state and the iteration moved on.  One more tick
keeps this, whether it evaluates or not, and a tick in which the rule ends the run closes its trace.

* `reached`, `Reached` — what some number of ticks comes to.
* `proceed_events` — an iteration as its events.
* `Reached.between`, `Reached.judging`, `Reached.ends` — the three kinds of ticks.
* **`drive_traced`** — a run that its rule ends is traced.
-/

namespace PrimalDual

variable {α σ κ : Type}

section

variable [Scalar α] [StoppingRule α κ]

namespace Scene

variable {A : Algorithm α σ κ} {S : Settings} {o t u : Scene α σ κ} {print : Bool} {i j k : ℕ}
  {r : Row α}

/-! ## Actions as events -/

omit [StoppingRule α κ] in
/-- A report that is due is an event; so is none that is not. -/
lemma report_events {due : Bool} (h : (if due then report S print else pure ()) t = .ok () u)
    (hdue : S.rates.reports i = .ok due) (hi : t.course.iteration = i)
    (hlast : S.rates.stop ∣ i → t.course.records.back? = some r) :
    u.course = t.course ∧ u.world.now = t.world.now ∧
      t.world.perform S print (if S.rates.report ∣ i then [.reported i r] else [])
        = .ok u.world := by
  have hiff := Rates.reports_ok hdue
  cases due with
  | false =>
    cases h
    rw [if_neg fun hdvd => Bool.false_ne_true (hiff.mpr hdvd)]
    exact ⟨rfl, rfl, rfl⟩
  | true =>
    obtain ⟨r', hback, rfl⟩ := report_ok h
    rw [hlast (Rates.stop_dvd_of_reports (hiff.mp rfl)), Option.some.injEq] at hback
    rw [if_pos (hiff.mp rfl), hi, hback]
    exact ⟨rfl, World.log_now _ _ _ _, rfl⟩

omit [StoppingRule α κ] in
/-- A checkpoint that is due is an event; so is none that is not. -/
lemma save_events (print : Bool) {due : Bool}
    (h : (if due then writeback A S else pure ()) t = .ok () u) :
    u.course = t.course ∧ u.world.now = t.world.now ∧
      t.world.perform S print (if due then
        [.saved t.course.records.toList (loggedValues S (t.course.bindings A))] else [])
          = .ok u.world := by
  cases due with
  | false =>
    cases h
    exact ⟨rfl, rfl, rfl⟩
  | true =>
    obtain ⟨hsave, hcourse⟩ := writeback_ok h
    have hnow := World.saveCheckpoint_now (S := S) t.world t.course.records
      (loggedValues S (t.course.bindings A))
    rw [hsave] at hnow
    refine ⟨hcourse, hnow, ?_⟩
    show (Event.perform S print t.world _ >>= _) = _
    rw [Event.perform, Array.toArray_toList, hsave]
    rfl

omit [StoppingRule α κ] in
/-- What happens after an evaluation that lets the run go on. -/
lemma proceed_events (h : proceed A S print i t = .ok () u) (hi : t.course.iteration = i)
    (hlast : S.rates.stop ∣ i → t.course.records.back? = some r) :
    (A.step t.course.state).outcome = .ok () ∧
      u.course = { t.course with
        state := (A.step t.course.state).state
        iteration := i + 1 } ∧
      u.world.now = t.world.now + (A.step t.course.state).elapsed ∧
      t.world.perform S print (Event.around S i r t.course.records.toList
        (loggedValues S (t.course.bindings A)) (A.step t.course.state).elapsed) = .ok u.world := by
  obtain ⟨due, v, v', hdue, hreport, hsave, hadvance⟩ := proceed_ok h
  obtain ⟨hv, hvnow, hreported⟩ := report_events hreport hdue hi hlast
  obtain ⟨hv', hvnow', hsaved⟩ := save_events print hsave
  obtain ⟨houtcome, rfl⟩ := advance_ok hadvance
  rw [hv] at hv' hsaved
  rw [hv'] at houtcome ⊢
  refine ⟨houtcome, ?_, ?_, ?_⟩
  · rw [hi]
  · rw [hvnow', hvnow]
  · exact World.perform_append (World.perform_append hreported hsaved) rfl

/-! ## What an evaluation leaves

An evaluation keeps the state, the iteration and the variables of its course, and adds its record.
-/

/-- The course that the `j`-th evaluation leaves. -/
def left (A : Algorithm α σ κ) (S : Settings) (o : Scene α σ κ) (j : ℕ) : Course α σ κ :=
  (judged A S o j).recorded A

/-- The course after `k` ticks. -/
def reached (A : Algorithm α σ κ) (S : Settings) (o : Scene α σ κ) : ℕ → Course α σ κ
  | 0 => o.course
  | k + 1 => { left A S o (k / S.rates.stop) with
      state := stateAfter A o (k + 1)
      iteration := k + 1 }

/-- A run that has not begun. -/
structure Fresh (o : Scene α σ κ) : Prop where
  iteration : o.course.iteration = 0
  records : o.course.records = #[]

lemma reached_state (k : ℕ) : (reached A S o k).state = stateAfter A o k := by
  cases k with
  | zero => rfl
  | succ k => rfl

lemma reached_iteration (ho : Fresh o) (k : ℕ) : (reached A S o k).iteration = k := by
  cases k with
  | zero => exact ho.iteration
  | succ k => rfl

/-- The course that is posed is the one that is reached, once its objective is tracked. -/
lemma posed_eq (j : ℕ) : posed A S o j = (reached A S o (j * S.rates.stop)).tracked A := by
  cases j with
  | zero =>
    rw [Nat.zero_mul]
    rfl
  | succ j =>
    have hpos : 0 < (j + 1) * S.rates.stop := Nat.mul_pos (Nat.succ_pos j) S.rates.stop_pos
    obtain ⟨k, hk⟩ := Nat.exists_eq_succ_of_ne_zero (Nat.ne_of_gt hpos)
    have hdvd : S.rates.stop ∣ k + 1 := ⟨j + 1, by rw [Nat.mul_comm, hk]⟩
    have hdiv : k / S.rates.stop = j := by
      have hsucc := Nat.succ_div_of_dvd hdvd
      rw [← Nat.succ_eq_add_one, ← hk, Nat.mul_div_cancel _ S.rates.stop_pos] at hsucc
      exact (Nat.succ.inj hsucc).symm
    rw [posed, hk, Nat.succ_eq_add_one, reached, hdiv]
    rfl

/-- Where no evaluation is due, the course is still that of the last one. -/
lemma left_between (h : ¬ S.rates.stop ∣ k) :
    { reached A S o k with
      state := stateAfter A o (k + 1)
      iteration := k + 1 } = reached A S o (k + 1) := by
  cases k with
  | zero => exact absurd (Nat.dvd_zero _) h
  | succ k =>
    rw [reached, reached, Nat.succ_div_of_not_dvd h]

lemma posed_state (j : ℕ) : (posed A S o j).state = stateAfter A o (j * S.rates.stop) := by
  rw [posed_eq]
  exact reached_state _

lemma posed_iteration (ho : Fresh o) (j : ℕ) : (posed A S o j).iteration = j * S.rates.stop := by
  rw [posed_eq]
  exact reached_iteration ho _

omit [Scalar α] [StoppingRule α κ] in
lemma tracked_eq {c : Course α σ κ} {a : Option (NdArray α)} (h : trackedObjective A c = .ok a) :
    c.tracked A = { c with objective := a } := by
  rw [Course.tracked, h]

omit [Scalar α] [StoppingRule α κ] in
/-- Tracking the objective once more makes no difference. -/
lemma trackedObjective_tracked {c : Course α σ κ} {a : Option (NdArray α)}
    (h : trackedObjective A c = .ok a) :
    trackedObjective A (c.tracked A) = .ok (c.tracked A).objective := by
  rw [tracked_eq h]
  rw [trackedObjective] at h ⊢
  cases htracker : c.tracker with
  | none => rfl
  | some memo =>
    rw [htracker] at h
    exact h

/-- A record carries the iteration that it was made at. -/
lemma row_iteration {c : Course α σ κ} (h : c.row A = .ok r) : r.iteration = c.iteration := by
  rw [Course.row] at h
  cases hinfo : c.info A with
  | error e =>
    rw [hinfo] at h
    cases h
  | ok entries =>
    rw [hinfo] at h
    simp only [bind, Except.bind] at h
    split at h
    · cases h
    · cases h
      rfl

lemma judged_iteration (ho : Fresh o) (j : ℕ) : (judged A S o j).iteration = j * S.rates.stop := by
  rw [judged, judge_keeps]
  exact posed_iteration ho j

lemma left_state (j : ℕ) : (left A S o j).state = stateAfter A o (j * S.rates.stop) := by
  rw [left, Course.recorded, judged, judge_keeps]
  exact posed_state j

lemma left_iteration (ho : Fresh o) (j : ℕ) : (left A S o j).iteration = j * S.rates.stop :=
  judged_iteration ho j

/-- The variables that are logged with a checkpoint are those of the evaluation. -/
lemma left_logged (j : ℕ) : loggedValues S ((left A S o j).bindings A) = loggedAt A S o j := by
  rw [left, Course.recorded, judged, judge_keeps]
  rfl

lemma left_rule (j : ℕ) : (left A S o j).rule
    = (StoppingRule.stop (posed A S o j).rule (shownAt A S o j)).1 := judge_rule A _ _

/-- The records are those of the evaluations so far. -/
lemma left_records (ho : Fresh o) (h : ∀ i ≤ j, (judged A S o i).row A = .ok (rowAt A S o i)) :
    (left A S o j).records.toList = rowsUpTo A S o j := by
  have hpush {i : ℕ} (hrow : (judged A S o i).row A = .ok (rowAt A S o i)) :
      (left A S o i).records = (posed A S o i).records.push (rowAt A S o i) := by
    rw [left, Course.recorded, hrow]
    show (judged A S o i).records.push _ = _
    rw [judged, judge_keeps]
  induction j with
  | zero =>
    have hrecords : (posed A S o 0).records = #[] := ho.records
    rw [hpush (h 0 (Nat.le_refl 0)), hrecords]
    rfl
  | succ j ih =>
    have hrecords : (posed A S o (j + 1)).records = (left A S o j).records := rfl
    rw [hpush (h (j + 1) (Nat.le_refl _)), hrecords, rowsUpTo, List.range_succ, List.map_append,
      List.map_singleton, Array.toList_push, ih fun i hi => h i (Nat.le_succ_of_le hi), rowsUpTo]

/-! ## Ticks -/

/-- What is known of a run that has taken `k` ticks from `o` to `t`, and goes on. -/
structure Reached (A : Algorithm α σ κ) (S : Settings) (o : Scene α σ κ) (print : Bool) (k : ℕ)
    (t : Scene α σ κ) : Prop where
  course : t.course = reached A S o k
  clock : t.world.now = clockAfter A o k
  world : o.world.perform S print ((List.range k).flatMap (eventsAt A S o)) = .ok t.world
  steps : ∀ i < k, (A.step (stateAfter A o i)).outcome = .ok ()
  evaluations : ∀ j, j * S.rates.stop < k → Evaluated A S o j false

/-- A run that has not begun is reached by no ticks. -/
lemma Fresh.reached (A : Algorithm α σ κ) (S : Settings) (print : Bool) (o : Scene α σ κ) :
    Reached A S o print 0 o where
  course := rfl
  clock := rfl
  world := rfl
  steps i hi := absurd hi (Nat.not_lt_zero i)
  evaluations _ hj := absurd hj (Nat.not_lt_zero _)

namespace Reached

/-- One more step, whatever has been evaluated before it. -/
lemma next (h : Reached A S o print k t)
    (hevaluated : ∀ j, j * S.rates.stop = k → Evaluated A S o j false)
    (houtcome : (A.step (stateAfter A o k)).outcome = .ok ())
    (hcourse : u.course = reached A S o (k + 1))
    (hnow : u.world.now = t.world.now + (A.step (stateAfter A o k)).elapsed)
    (hworld : t.world.perform S print (eventsAt A S o k) = .ok u.world) :
    Reached A S o print (k + 1) u := by
  refine ⟨hcourse, ?_, ?_, ?_, ?_⟩
  · rw [hnow, h.clock]
    rfl
  · rw [List.range_succ, List.flatMap_append, List.flatMap_singleton]
    exact World.perform_append h.world hworld
  · intro i hlt
    rcases Nat.lt_succ_iff_lt_or_eq.mp hlt with hlt | rfl
    · exact h.steps i hlt
    · exact houtcome
  · intro j hlt
    rcases Nat.lt_succ_iff_lt_or_eq.mp hlt with hlt | heq
    · exact h.evaluations j hlt
    · exact hevaluated j heq

/-- A tick between two evaluations. -/
lemma between (ho : Fresh o) (h : Reached A S o print k t) (hbetween : ¬ S.rates.stop ∣ k)
    (hproceed : proceed A S print k t = .ok () u) : Reached A S o print (k + 1) u := by
  have hi : t.course.iteration = k := by
    rw [h.course, reached_iteration ho]
  have hstate : t.course.state = stateAfter A o k := by
    rw [h.course, reached_state]
  obtain ⟨houtcome, hcourse, hnow, hworld⟩ :=
    proceed_events (r := default) hproceed hi fun hdvd => absurd hdvd hbetween
  rw [hstate] at houtcome hcourse hnow hworld
  refine h.next ?_ houtcome ?_ hnow ?_
  · rintro j rfl
    exact absurd (Nat.dvd_mul_left _ _) hbetween
  · rw [hcourse, h.course]
    exact left_between hbetween
  · rw [eventsAt, Event.around_between hbetween]
    rw [Event.around_between hbetween] at hworld
    exact hworld

/-- What an evaluation comes to. -/
lemma evaluate {v v' v'' : Scene α σ κ} {decision : Bool} (ho : Fresh o)
    (h : Reached A S o print (j * S.rates.stop) t) (htrack : trackObjective A t = .ok () v)
    (hevaluate : evaluate A v = .ok decision v') (hrecord : record A v' = .ok () v'') :
    Evaluated A S o j decision ∧ v'' = ⟨left A S o j, t.world⟩ ∧
      v''.course.records.back? = some (rowAt A S o j) := by
  obtain ⟨a, ha, rfl⟩ := trackObjective_ok htrack
  rw [h.course] at ha
  have hposed : { t.course with objective := a } = posed A S o j := by
    rw [posed_eq, h.course, tracked_eq ha]
  obtain ⟨hverdict, rfl⟩ := evaluate_ok hevaluate
  obtain ⟨r, hrow, rfl⟩ := record_ok hrecord
  simp only [hposed, h.clock] at hverdict hrow ⊢
  change (judged A S o j).row A = .ok r at hrow
  have hr : rowAt A S o j = r := by
    rw [rowAt, hrow]
  have hobjective : trackedObjective A (posed A S o j) = .ok (posed A S o j).objective := by
    rw [posed_eq]
    exact trackedObjective_tracked ha
  have hstamp : r.iteration = j * S.rates.stop := by
    rw [row_iteration hrow, judged_iteration ho]
  refine ⟨⟨posed_state j, hobjective, judge_decision hverdict, hverdict, hr ▸ hrow, hr ▸ hstamp⟩,
    ?_, ?_⟩
  · rw [left, Course.recorded, hrow]
    rfl
  · rw [hr]
    exact Array.back?_push

/-- The records after an evaluation are those of the trace. -/
lemma records (ho : Fresh o) (h : Reached A S o print (j * S.rates.stop) t) {decision : Bool}
    (hlast : Evaluated A S o j decision) :
    (left A S o j).records.toList = rowsUpTo A S o j := by
  refine left_records ho fun i hi => ?_
  rcases Nat.lt_or_eq_of_le hi with hlt | rfl
  · exact (h.evaluations i (Nat.mul_lt_mul_of_pos_right hlt S.rates.stop_pos)).row
  · exact hlast.row

/-- A tick with an evaluation that lets the run go on. -/
lemma judging {v v' v'' : Scene α σ κ} (ho : Fresh o)
    (h : Reached A S o print (j * S.rates.stop) t) (htrack : trackObjective A t = .ok () v)
    (hevaluate : Scene.evaluate A v = .ok false v') (hrecord : record A v' = .ok () v'')
    (hproceed : proceed A S print (j * S.rates.stop) v'' = .ok () u) :
    Reached A S o print (j * S.rates.stop + 1) u := by
  obtain ⟨hevaluated, rfl, hback⟩ := h.evaluate ho htrack hevaluate hrecord
  have hdiv : j * S.rates.stop / S.rates.stop = j := Nat.mul_div_cancel _ S.rates.stop_pos
  obtain ⟨houtcome, hcourse, hnow, hworld⟩ :=
    proceed_events hproceed (left_iteration ho j) fun _ => hback
  simp only [left_state, left_logged, h.records ho hevaluated] at houtcome hcourse hnow hworld
  refine h.next ?_ houtcome ?_ hnow ?_
  · intro i hi
    cases Nat.eq_of_mul_eq_mul_right S.rates.stop_pos hi
    exact hevaluated
  · rw [hcourse, reached, hdiv]
    rfl
  · rw [eventsAt, hdiv]
    exact hworld

/-- **One more tick** of a run that goes on. -/
theorem tick (ho : Fresh o) (h : Reached A S o print k t)
    (htick : Scene.tick A S print t = .ok true u) : Reached A S o print (k + 1) u := by
  have hi : t.course.iteration = k := by
    rw [h.course, reached_iteration ho]
  have hwork := work_ok (tick_ok htick)
  rw [hi] at hwork
  rcases hwork with ⟨hdue, -, hproceed⟩ | ⟨hdue, v, v', htrack, hrest⟩
  · have hbetween : ¬ S.rates.stop ∣ k := fun hdvd =>
      Bool.false_ne_true (hdue.symm.trans (Rates.evaluates_iff.mpr hdvd))
    exact h.between ho hbetween hproceed
  · obtain ⟨j, rfl⟩ := Rates.exists_of_evaluates hdue
    rcases hrest with ⟨-, hfalse, -⟩ | ⟨hevaluate, -, v'', hrecord, hproceed⟩
    · cases hfalse
    · exact h.judging ho htrack hevaluate hrecord hproceed

/-- Any number of ticks, as long as the run goes on. -/
lemma drive {m : ℕ} (ho : Fresh o) (h : Reached A S o print m t)
    (hdrive : Scene.drive A S print k t = (u, .going)) : Reached A S o print (m + k) u := by
  induction k generalizing m t with
  | zero =>
    cases hdrive
    exact h
  | succ k ih =>
    rw [Scene.drive] at hdrive
    rcases htick : Scene.tick A S print t with ⟨goesOn, v⟩ | ⟨e, v⟩
    · rw [htick] at hdrive
      cases goesOn with
      | false => cases hdrive
      | true =>
        rw [← Nat.add_assoc, Nat.add_right_comm]
        exact ih (h.tick ho htick) hdrive
    · rw [htick] at hdrive
      cases hdrive

/-- What is done once the rule has ended the run. -/
lemma finish_events {v : Scene α σ κ} (ho : Fresh o)
    (hreport : report S print ⟨left A S o j, t.world⟩ = .ok () v)
    (hback : (left A S o j).records.back? = some (rowAt A S o j))
    (hrecords : (left A S o j).records.toList = rowsUpTo A S o j)
    (hsave : (if S.rates.writeback.isSome then writeback A S else pure ())
      (v.log S print .satisfied) = .ok () u) :
    u.course = left A S o j ∧ u.world.now = t.world.now ∧
      t.world.perform S print (closingEvents A S o j) = .ok u.world := by
  obtain ⟨r, hr, rfl⟩ := report_ok hreport
  cases hr.symm.trans hback
  obtain ⟨hcourse, hnow, hsaved⟩ := save_events print hsave
  refine ⟨hcourse, ?_, ?_⟩
  · rw [hnow]
    exact (World.log_now _ _ _ _).trans (World.log_now _ _ _ _)
  · simp only [Scene.log, left_iteration ho, hrecords, left_logged] at hsaved
    exact World.perform_append rfl hsaved

/-- **The tick in which the rule ends the run** closes its trace. -/
theorem ends (ho : Fresh o) (h : Reached A S o print k t)
    (htick : Scene.tick A S print t = .ok false u) :
    ∃ N, Traced A S o print N u := by
  have hi : t.course.iteration = k := by
    rw [h.course, reached_iteration ho]
  have hwork := work_ok (tick_ok htick)
  rw [hi] at hwork
  rcases hwork with ⟨-, htrue, -⟩ | ⟨hdue, v, v', htrack, hrest⟩
  · cases htrue
  obtain ⟨N, rfl⟩ := Rates.exists_of_evaluates hdue
  rcases hrest with ⟨hevaluate, -, hfinish⟩ | ⟨-, htrue, -⟩
  · obtain ⟨v'', v₃, hrecord, hreport, hsave⟩ := finish_ok hfinish
    obtain ⟨hevaluated, rfl, hback⟩ := h.evaluate ho htrack hevaluate hrecord
    have hrecords := h.records ho hevaluated
    obtain ⟨hcourse, hnow, hworld⟩ := finish_events ho hreport hback hrecords hsave
    refine ⟨N, ?_, hevaluated, h.steps, ?_, ?_, ⟨rfl, fun j _ => left_rule j⟩, ?_, ?_, ?_, ?_⟩
    · intro j hj
      exact h.evaluations j (Nat.mul_lt_mul_of_pos_right hj S.rates.stop_pos)
    · rw [hcourse, left_state]
    · rw [hcourse, left_iteration ho]
    · rw [hcourse, left_rule]
    · rw [hcourse, hrecords]
    · rw [hnow, h.clock]
    · exact World.perform_append h.world hworld
  · cases htrue

end Reached

/-- **A run that its rule ends** is traced. -/
theorem drive_traced (ho : Fresh o) (h : drive A S print k o = (t, .satisfied)) :
    ∃ N, Traced A S o print N t := by
  obtain ⟨n, -, u, hgoing, hend⟩ := exists_last_going h rfl
  have hreached := (Fresh.reached A S print o).drive ho hgoing
  exact hreached.ends ho (tick_of_satisfied hgoing hend)

end Scene

end

end PrimalDual
