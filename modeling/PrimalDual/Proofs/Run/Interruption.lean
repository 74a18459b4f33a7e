import PrimalDual.Proofs.Run.Checkpoint
import PrimalDual.Proofs.Run.Frame

/-!
# The last checkpoint of an interrupted run

A tick that fails may do so before its checkpoint, in it, or in its step.  In each case this file says
which checkpoint is the last one that has been completed, by the iteration that it was taken at.

* `Quietly` — what happens to the world between two checkpoints.
* `SavedLast`, `LastSave` — the last checkpoint on the way from the start of a run.
* **`lastSave_of_iterations`** — the last checkpoint after some number of whole iterations.
* `beforeSaving`, `tick_interrupted` — where a tick fails.
* `Algorithm.unfailing`, `Reached.tick_unfailing` — a tick whose step fails has done everything that
  the iteration calls for.
* **`drive_brokenOff`** — where a run fails, and after which checkpoint.
-/

namespace PrimalDual

variable {α σ κ : Type}

/-! ## Between two checkpoints -/

/-- Whether something that is done to the world is a checkpoint. -/
def Event.isSave : Event α → Bool
  | saved _ _ => true
  | _ => false

section

variable [Scalar α] {S : Settings} {print : Bool} {w w' w'' : World α}
  {events events' : List (Event α)}

lemma World.exists_of_perform_append (h : w.perform S print (events ++ events') = .ok w'') :
    ∃ w', w.perform S print events = .ok w' ∧ w'.perform S print events' = .ok w'' := by
  rw [perform, List.foldlM_append] at h
  exact PrimalDual.ok_of_bind h

/-- Between two checkpoints something is logged, and time passes. -/
def Quietly (S : Settings) (print : Bool) (w w' : World α) : Prop :=
  ∃ events : List (Event α), (∀ ev ∈ events, ev.isSave = false) ∧ w.perform S print events = .ok w'

lemma Quietly.refl (S : Settings) (print : Bool) (w : World α) : Quietly S print w w :=
  ⟨[], fun _ h => absurd h List.not_mem_nil, rfl⟩

lemma Quietly.trans (h : Quietly S print w w') (h' : Quietly S print w' w'') :
    Quietly S print w w'' := by
  obtain ⟨events, hquiet, hdone⟩ := h
  obtain ⟨events', hquiet', hdone'⟩ := h'
  refine ⟨events ++ events', fun ev hev => ?_, World.perform_append hdone hdone'⟩
  exact (List.mem_append.mp hev).elim (hquiet ev) (hquiet' ev)

lemma Quietly.single {ev : Event α} (hev : ev.isSave = false)
    (h : ev.perform S print w = .ok w') : Quietly S print w w' := by
  refine ⟨[ev], List.forall_mem_singleton.mpr hev, ?_⟩
  rw [World.perform, List.foldlM_cons, h]
  rfl

omit [Scalar α] in
/-- A log entry has no influence on what is loaded. -/
lemma loadArrays_log (w : World α) (print : Bool) (entry : LogEntry α) :
    loadArrays (w.log S.logFile print entry).disk S.dataDir = loadArrays w.disk S.dataDir := by
  rw [World.log_disk]
  split
  · have hne : S.dataDir ≠ S.logFile :=
      Settings.ne_logFile_of_mem_data (List.mem_append_right _ (List.mem_singleton_self _))
    rw [loadArrays, loadArrays, Disk.exists?, Disk.exists?, Disk.isDirectory, Disk.isDirectory,
      Disk.find?_put_other _ _ _ _ hne, (Settings.Loggable.dataDir_put w.disk _).1]
  · rfl

/-- Between two checkpoints, what is loaded stays the same. -/
lemma Quietly.loadArrays_eq (h : Quietly S print w w') :
    loadArrays w'.disk S.dataDir = loadArrays w.disk S.dataDir := by
  obtain ⟨events, hquiet, hdone⟩ := h
  induction events generalizing w with
  | nil =>
    cases hdone
    rfl
  | cons ev events ih =>
    obtain ⟨hev, hquiet⟩ := List.forall_mem_cons.mp hquiet
    rw [World.perform, List.foldlM_cons] at hdone
    obtain ⟨v, hv, hdone⟩ := PrimalDual.ok_of_bind hdone
    rw [ih hquiet hdone]
    cases ev with
    | saved records logged => cases hev
    | reported i r =>
      cases hv
      exact loadArrays_log w print _
    | stepped elapsed =>
      cases hv
      rfl
    | ended =>
      cases hv
      exact loadArrays_log w print _

end

/-! ## The last checkpoint -/

namespace Scene

section

variable [Scalar α] [StoppingRule α κ] {A : Algorithm α σ κ} {S : Settings} {print : Bool}
  {o t u : Scene α σ κ} {w w' before after : World α} {j k m r : ℕ}

/-- The checkpoint of iteration `j` has been completed on the way from `o` to `w`, and no other one
has been taken since.  What is loaded is what it has left. -/
structure SavedLast (A : Algorithm α σ κ) (S : Settings) (print : Bool) (o : Scene α σ κ) (j : ℕ)
    (before after w : World α) : Prop where
  arrived : o.world.perform S print ((List.range j).flatMap (eventsAt A S o) ++
    if S.rates.report ∣ j then [.reported j (rowAt A S o (j / S.rates.stop))] else []) = .ok before
  /-- The variables that are saved are those of the state after `j` steps. -/
  state : (posed A S o (j / S.rates.stop)).state = stateAfter A o j
  saved : before.saveCheckpoint S (rowsUpTo A S o (j / S.rates.stop)).toArray
    (loggedAt A S o (j / S.rates.stop)) = (after, .ok ())
  since : Quietly S print after w
  loaded : loadArrays w.disk S.dataDir = loadArrays after.disk S.dataDir

/-- The last checkpoint on the way from `o` to `w`: that of an iteration, or none at all. -/
def LastSave (A : Algorithm α σ κ) (S : Settings) (print : Bool) (o : Scene α σ κ) (w : World α) :
    Option ℕ → Prop
  | none => Quietly S print o.world w
  | some j => ∃ before after, SavedLast A S print o j before after w

lemma LastSave.quietly {last : Option ℕ} (h : LastSave A S print o w last)
    (hw : Quietly S print w w') : LastSave A S print o w' last := by
  cases last with
  | none => exact h.trans hw
  | some j =>
    obtain ⟨before, after, h⟩ := h
    exact ⟨before, after, h.arrived, h.state, h.saved, h.since.trans hw,
      hw.loadArrays_eq.trans h.loaded⟩

/-- The last multiple of `r` below `m`. -/
def lastBelow (r : ℕ) : ℕ → Option ℕ
  | 0 => none
  | m + 1 => some (m - m % r)

/-- It is the last multiple up to `k`, unless that is `k` itself. -/
lemma lastBelow_eq_iff (hr : r ≠ 0) : lastBelow r k = some (k - k % r) ↔ ¬ r ∣ k := by
  cases k with
  | zero => simp [lastBelow]
  | succ k =>
    have hsplit (i : ℕ) : i - i % r = r * (i / r) := by
      have := Nat.mod_add_div i r
      omega
    rw [lastBelow, Option.some.injEq, hsplit, hsplit,
      Nat.mul_right_inj hr]
    constructor
    · intro h hdvd
      rw [Nat.succ_div_of_dvd hdvd] at h
      omega
    · intro h
      rw [Nat.succ_div_of_not_dvd h]

/-- An iteration without a checkpoint. -/
lemma eventsAt_quiet (h : S.rates.writesBack k = false) :
    ∀ ev ∈ eventsAt A S o k, ev.isSave = false := by
  intro ev hev
  rw [eventsAt, Event.around, h, if_neg Bool.false_ne_true, List.append_nil] at hev
  rcases List.mem_append.mp hev with hev | hev
  · split at hev
    · rw [List.mem_singleton.mp hev]
      rfl
    · cases hev
  · rw [List.mem_singleton.mp hev]
    rfl

/-- An iteration with a checkpoint. -/
lemma savedLast_of_eventsAt (h : S.rates.writesBack k = true)
    (harrived : o.world.perform S print ((List.range k).flatMap (eventsAt A S o)) = .ok w)
    (hdone : w.perform S print (eventsAt A S o k) = .ok w') :
    ∃ before after, SavedLast A S print o k before after w' := by
  rw [eventsAt, Event.around, h, if_pos rfl] at hdone
  obtain ⟨after, hdone, hstepped⟩ := World.exists_of_perform_append hdone
  obtain ⟨before, hreported, hsaved⟩ := World.exists_of_perform_append hdone
  obtain ⟨i, rfl⟩ := Rates.stop_dvd_of_writesBack h
  have hsince : Quietly S print after w' :=
    ⟨_, List.forall_mem_singleton.mpr rfl, hstepped⟩
  refine ⟨before, after, World.perform_append harrived hreported, ?_, ?_, hsince,
    hsince.loadArrays_eq⟩
  · rw [posed_state, Nat.mul_div_cancel_left _ S.rates.stop_pos, Nat.mul_comm]
  · rw [World.perform, List.foldlM_cons] at hsaved
    obtain ⟨v, hv, hnil⟩ := PrimalDual.ok_of_bind hsaved
    cases hnil
    rw [Event.perform] at hv
    split at hv
    · rename_i hsave
      cases hv
      exact hsave
    · cases hv

/-- **The last checkpoint after `m` iterations** is that of the last multiple of its rate. -/
theorem lastSave_of_iterations (hrate : S.rates.writeback = some r) (hr : r ≠ 0)
    (h : o.world.perform S print ((List.range m).flatMap (eventsAt A S o)) = .ok w) :
    LastSave A S print o w (lastBelow r m) := by
  induction m generalizing w with
  | zero =>
    cases h
    exact Quietly.refl S print o.world
  | succ m ih =>
    rw [List.range_succ, List.flatMap_append, List.flatMap_singleton] at h
    obtain ⟨v, hv, hdone⟩ := World.exists_of_perform_append h
    by_cases hdvd : r ∣ m
    · have hdue : S.rates.writesBack m = true := Rates.writesBack_iff.mpr ⟨r, hrate, hr, hdvd⟩
      rw [lastBelow, Nat.mod_eq_zero_of_dvd hdvd, Nat.sub_zero]
      exact savedLast_of_eventsAt hdue hv hdone
    · have hdue : S.rates.writesBack m = false := by
        rw [← Bool.not_eq_true, Rates.writesBack_iff]
        rintro ⟨r', hr', -, hdvd'⟩
        cases hrate.symm.trans hr'
        exact hdvd hdvd'
      rw [lastBelow, ← (lastBelow_eq_iff hr).mpr hdvd]
      exact (ih hv).quietly ⟨_, eventsAt_quiet hdue, hdone⟩

end

/-! ## Where a tick fails -/

section

variable [Scalar α] {S : Settings} {print : Bool}

/-- An action that takes no checkpoint, whether it fails or not. -/
def Quiet {β : Type} (S : Settings) (print : Bool) (x : Action α σ κ β) : Prop :=
  ∀ t, Quietly S print t.world (ending (x t)).world

namespace Quiet

variable {β γ : Type} {x : Action α σ κ β} {f : β → Action α σ κ γ}

lemma of_world (h : ∀ t, (ending (x t)).world = t.world) : Quiet S print x := by
  intro t
  rw [h]
  exact Quietly.refl S print t.world

lemma pure (b : β) : Quiet S print (pure b : Action α σ κ β) := of_world fun _ => rfl

lemma bind (hx : Quiet S print x) (hf : ∀ b, Quiet S print (f b)) : Quiet S print (x >>= f) :=
  ending_bind (R := fun t u => Quietly S print t.world u.world) Quietly.trans hx hf

lemma ite {y : Action α σ κ β} (b : Bool) (hx : Quiet S print x) (hy : Quiet S print y) :
    Quiet S print (if b then x else y) :=
  ending_ite (R := fun t u => Quietly S print t.world u.world) b hx hy

end Quiet

variable {A : Algorithm α σ κ} {i : ℕ}

lemma quiet_report : Quiet S print (report S print : Action α σ κ Unit) := by
  intro t
  rw [report]
  split
  · rename_i r hback
    have hdone : Event.perform S print t.world (.reported t.course.iteration r)
      = .ok (t.log S print (.statistics t.course.iteration r)).world := rfl
    exact .single rfl hdone
  · exact .refl S print t.world

lemma quiet_end : Quiet S print (modify (log S print .satisfied) : Action α σ κ Unit) := by
  intro t
  have hdone : Event.perform S print t.world .ended = .ok (t.log S print .satisfied).world := rfl
  exact .single rfl hdone

lemma quiet_trackObjective : Quiet S print (trackObjective A : Action α σ κ Unit) := by
  refine .of_world fun t => ?_
  rw [trackObjective]
  split
  · rfl
  · dsimp only
    split <;> rfl

variable [StoppingRule α κ]

lemma quiet_record : Quiet S print (record A : Action α σ κ Unit) := by
  refine .of_world fun t => ?_
  rw [record]
  split <;> rfl

lemma quiet_evaluate : Quiet S print (evaluate A : Action α σ κ Bool) := by
  refine .of_world fun t => ?_
  rw [evaluate]
  split <;> rfl

/-- What a tick does before its checkpoint: whether the run goes on. -/
def beforeSaving (A : Algorithm α σ κ) (S : Settings) (print : Bool) (i : ℕ) :
    Action α σ κ Bool := do
  if S.rates.evaluates i then
    trackObjective A
    if ← evaluate A then
      record A
      report S print
      modify (log S print .satisfied)
      return false
    record A
  match S.rates.reports i with
  | .ok due => if due then report S print
  | .error e => throw e
  return true

lemma quiet_beforeSaving : Quiet S print (beforeSaving A S print i) := by
  have hreport : Quiet S print (do
      match S.rates.reports i with
      | .ok due => if due then report S print
      | .error e => throw e
      return true : Action α σ κ Bool) := by
    cases S.rates.reports i with
    | ok due => exact .ite due (quiet_report.bind fun _ => .pure true) (.pure true)
    | error e => exact .of_world fun t => rfl
  rw [beforeSaving]
  refine .ite _ (quiet_trackObjective.bind fun _ => quiet_evaluate.bind fun decision => ?_) hreport
  refine .ite decision ?_ (quiet_record.bind fun _ => hreport)
  exact quiet_record.bind fun _ => quiet_report.bind fun _ => quiet_end.bind fun _ => .pure false

/-- A checkpoint is all that is left to do before the step. -/
lemma beforeStep_split (A : Algorithm α σ κ) (S : Settings) (print : Bool) (i : ℕ) :
    beforeStep A S print i = (do
      let goesOn ← beforeSaving A S print i
      if (if goesOn then S.rates.writesBack i else S.rates.writeback.isSome) then writeback A S
      return goesOn) := by
  rw [beforeStep, beforeSaving]
  cases S.rates.evaluates i with
  | false =>
    cases S.rates.reports i with
    | error e => rfl
    | ok due => cases due <;> simp
  | true =>
    simp only [if_true, bind_assoc]
    congr 1
    funext _
    congr 1
    funext decision
    cases decision with
    | true =>
      simp only [finish]
      cases S.rates.writeback.isSome <;> simp
    | false =>
      simp only [Bool.false_eq_true, if_false, bind_assoc]
      congr 1
      funext _
      cases S.rates.reports i with
      | error e => rfl
      | ok due => cases due <;> simp

/-- What comes before the step of a tick fails before the checkpoint, or in it. -/
lemma beforeStep_failed {e : Fault} {t v : Scene α σ κ}
    (h : beforeStep A S print i t = .error e v) :
    Quietly S print t.world v.world ∨
      ∃ x, Quietly S print t.world x.world ∧ writeback A S x = .error e v := by
  have hquiet : Quietly S print t.world (ending (beforeSaving A S print i t)).world :=
    quiet_beforeSaving t
  rw [beforeStep_split] at h
  rcases error_of_bind h with h | ⟨goesOn, x, hx, h⟩
  · rw [h] at hquiet
    exact Or.inl hquiet
  · rw [hx] at hquiet
    refine Or.inr ⟨x, hquiet, ?_⟩
    generalize (if goesOn then S.rates.writesBack i else S.rates.writeback.isSome) = due at h
    cases due with
    | false => cases h
    | true =>
      rcases error_of_bind h with h | ⟨_, _, -, h⟩
      · exact h
      · cases h

end

/-! ## A step that fails -/

end Scene

/-- The algorithm whose steps are the same, but are never refused. -/
def Algorithm.unfailing (A : Algorithm α σ κ) : Algorithm α σ κ :=
  { A with step := fun u => { A.step u with outcome := .ok () } }

namespace Scene

variable [Scalar α] [StoppingRule α κ] {A : Algorithm α σ κ} {S : Settings} {print : Bool}
  {o t u v : Scene α σ κ} {j k n r : ℕ} {e : Fault}

lemma beforeStep_unfailing (i : ℕ) :
    beforeStep A.unfailing S print i = beforeStep A S print i := rfl

/-- A tick of an algorithm whose steps are never refused takes its step. -/
lemma tick_unfailing (hbefore : beforeStep A S print t.course.iteration t = .ok true v) :
    tick A.unfailing S print t = .ok true
      { course := { v.course with
          state := (A.step v.course.state).state
          iteration := v.course.iteration + 1 }
        world := { v.world with now := v.world.now + (A.step v.course.state).elapsed } } := by
  have hwork : work A.unfailing S print t.course.iteration t = .ok true
      { course := { v.course with
          state := (A.step v.course.state).state
          iteration := v.course.iteration + 1 }
        world := { v.world with now := v.world.now + (A.step v.course.state).elapsed } } := by
    rw [work_split, beforeStep_unfailing]
    show EStateM.bind _ _ _ = _
    rw [EStateM.bind, hbefore]
    rfl
  rw [tick, hwork]

/-- A tick that goes on does the same when no step is refused. -/
lemma going_unfailing (h : tick A S print t = .ok true u) :
    tick A.unfailing S print t = .ok true u := by
  have hwork := tick_ok h
  rw [work_split] at hwork
  obtain ⟨goesOn, v, hbefore, hstep⟩ := ok_of_bind hwork
  cases goesOn with
  | false => cases hstep
  | true =>
    obtain ⟨_, v', hadvance, hpure⟩ := ok_of_bind hstep
    cases hpure
    obtain ⟨-, rfl⟩ := advance_ok hadvance
    exact tick_unfailing hbefore

lemma drive_unfailing (h : drive A S print k o = (t, .going)) :
    drive A.unfailing S print k o = (t, .going) := by
  induction k generalizing o with
  | zero => exact h
  | succ k ih =>
    rw [drive] at h ⊢
    rcases htick : tick A S print o with ⟨goesOn, v⟩ | ⟨e, v⟩
    · rw [htick] at h
      cases goesOn with
      | true =>
        rw [going_unfailing htick]
        exact ih h
      | false => cases h
    · rw [htick] at h
      cases h

omit [Scalar α] [StoppingRule α κ] in
lemma stateAfter_unfailing (k : ℕ) : stateAfter A.unfailing o k = stateAfter A o k := by
  induction k with
  | zero => rfl
  | succ k ih =>
    rw [stateAfter, ih]
    rfl

omit [Scalar α] [StoppingRule α κ] in
lemma clockAfter_unfailing (k : ℕ) : clockAfter A.unfailing o k = clockAfter A o k := by
  induction k with
  | zero => rfl
  | succ k ih =>
    rw [clockAfter, ih, stateAfter_unfailing]
    rfl

lemma posed_unfailing (j : ℕ) : posed A.unfailing S o j = posed A S o j := by
  induction j with
  | zero => rfl
  | succ j ih =>
    rw [posed, ih, stateAfter_unfailing, clockAfter_unfailing]
    rfl

lemma rowAt_unfailing (j : ℕ) : rowAt A.unfailing S o j = rowAt A S o j := by
  rw [rowAt, judged, posed_unfailing, clockAfter_unfailing]
  rfl

/-- What is done at an iteration is up to the steps, not to whether they are refused. -/
lemma eventsAt_unfailing : eventsAt A.unfailing S o = eventsAt A S o := by
  funext k
  rw [eventsAt, eventsAt, rowsUpTo, loggedAt, posed_unfailing, rowAt_unfailing,
    stateAfter_unfailing, funext rowAt_unfailing]
  rfl

/-- Where a tick fails that starts at `t`, with `v` just before the failure is logged. -/
inductive Interrupted (A : Algorithm α σ κ) (S : Settings) (print : Bool) (e : Fault)
    (t v : Scene α σ κ) : Prop
  | early (hstays : Stays t v) (h : Quietly S print t.world v.world)
  | saving (hstays : Stays t v) (x : Scene α σ κ) (h : Quietly S print t.world x.world)
      (hsave : writeback A S x = .error e v)
  | stepping (houtcome : (A.step t.course.state).outcome = .error e)
      (h : tick A.unfailing S print t = .ok true v)

/-- **Where a tick fails**, and what is logged of it. -/
theorem tick_interrupted (h : tick A S print t = .error e u) :
    ∃ v, u = v.log S print (.iterationFailed v.course.iteration
      (S.rates.lastCheckpoint t.course.iteration)) ∧ Interrupted A S print e t v := by
  rw [tick] at h
  split at h
  · cases h
  · rename_i e' v hwork
    cases h
    refine ⟨v, rfl, ?_⟩
    have hstays := keeps_beforeStep A S print t.course.iteration t
    rw [work_split] at hwork
    rcases error_of_bind hwork with hbefore | ⟨goesOn, x, hbefore, hstep⟩
    · rw [hbefore] at hstays
      rcases beforeStep_failed hbefore with hquiet | ⟨x, hquiet, hsave⟩
      · exact .early hstays hquiet
      · exact .saving hstays x hquiet hsave
    · cases goesOn with
      | false => cases hstep
      | true =>
        rw [hbefore] at hstays
        have hstate : x.course.state = t.course.state := hstays.state
        rcases error_of_bind hstep with hadvance | ⟨_, _, -, hpure⟩
        · rw [advance] at hadvance
          split at hadvance
          · cases hadvance
          · rename_i e'' houtcome
            cases hadvance
            exact .stepping (hstate ▸ houtcome) (tick_unfailing hbefore)
        · cases hpure

/-! ## Runs that fail -/

/-- How a run from `o` has failed at iteration `k`, with `v` just before the failure is logged, and
which checkpoint is the last one that has been completed. -/
inductive BrokenOff (A : Algorithm α σ κ) (S : Settings) (print : Bool) (o : Scene α σ κ) (r k : ℕ)
    (e : Fault) (v : Scene α σ κ) : Prop
  /-- The step has failed, after the checkpoint of the same iteration if there is one. -/
  | stepping (hiteration : v.course.iteration = k + 1)
      (houtcome : (A.step (stateAfter A o k)).outcome = .error e)
      (hlast : LastSave A S print o v.world (some (k - k % r)))
  /-- Something has failed before any checkpoint of the same iteration. -/
  | early (hiteration : v.course.iteration = k)
      (hlast : LastSave A S print o v.world (lastBelow r k))
  /-- A checkpoint has failed itself. -/
  | saving (hiteration : v.course.iteration = k) (x : Scene α σ κ)
      (hlast : LastSave A S print o x.world (lastBelow r k))
      (hsave : writeback A S x = .error e v)

/-- **A run that fails** has completed the checkpoints of the iterations before, and that of the last
one only if it is the step that has failed.  The log names the last multiple of the rate up to the
last iteration in any case. -/
theorem drive_brokenOff (ho : Fresh o) (hrate : S.rates.writeback = some r) (hr : r ≠ 0)
    (h : drive A S print n o = (u, .failed e)) :
    ∃ k v, u = v.log S print (.iterationFailed v.course.iteration (some (k - k % r))) ∧
      BrokenOff A S print o r k e v := by
  obtain ⟨k, -, t, hgoing, hend⟩ := exists_last_going h rfl
  obtain ⟨v, hlog, hinterrupted⟩ := tick_interrupted (tick_of_failed hgoing hend)
  have hreached := (Fresh.reached A S print o).drive ho hgoing
  rw [Nat.zero_add] at hreached
  have hiteration : t.course.iteration = k := by
    rw [hreached.course, reached_iteration ho]
  have hnamed : S.rates.lastCheckpoint k = some (k - k % r) := by
    rw [Rates.lastCheckpoint, hrate]
    split
    · rename_i hnone
      cases hnone
    · rename_i hzero
      cases hzero
      exact absurd rfl hr
    · rename_i hsome
      cases hsome
      rfl
  rw [hiteration, hnamed] at hlog
  refine ⟨k, v, hlog, ?_⟩
  have hlast := lastSave_of_iterations hrate hr hreached.world
  cases hinterrupted with
  | early hstays hquiet =>
    exact .early (hstays.iteration.trans hiteration) (hlast.quietly hquiet)
  | saving hstays x hquiet hsave =>
    exact .saving (hstays.iteration.trans hiteration) x (hlast.quietly hquiet) hsave
  | stepping houtcome htick =>
    have hwhole := ((Fresh.reached A.unfailing S print o).drive ho
      (drive_unfailing hgoing)).tick ho htick
    rw [Nat.zero_add] at hwhole
    refine .stepping ?_ ?_ (lastSave_of_iterations (m := k + 1) hrate hr ?_)
    · rw [hwhole.course, reached_iteration ho]
    · rw [hreached.course, reached_state] at houtcome
      exact houtcome
    · rw [← eventsAt_unfailing]
      exact hwhole.world

end Scene

end PrimalDual
