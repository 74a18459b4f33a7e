import PrimalDual.Proofs.Run.Drive
import PrimalDual.Proofs.Run.Tick

/-!
# The trace of a run

Everything that a run does is determined by the steps of its algorithm, by its rule, and by its
rates.  This file writes that down without any ticks: which states there are, what the rule is asked
about them and what it says, which records this gives, and what the run does to the world around it.

* `Event`, `World.perform` — what a run may do to the world.
* `stateAfter`, `clockAfter` — the algorithm by itself.
* `posed`, `verdict`, `rowAt` — the evaluations.
* `eventsAt`, `closingEvents` — what is done to the world at an iteration, and at the end.
* `Traced` — a run that its rule ends, described by all of these.

An evaluation is numbered by the evaluations before it.  The `j`-th one is made at iteration
`j * s`, where `s` is the rate of evaluations, and it is asked of the rule that the one before has
left.
-/

namespace PrimalDual

variable {α σ κ : Type}

/-! ## What a run does to the world -/

/-- Something that a run does to the world. -/
inductive Event (α : Type) where
  /-- Statistics are logged. -/
  | reported (iteration : ℕ) (record : Row α)
  /-- A checkpoint is written. -/
  | saved (records : List (Row α)) (logged : Parameters α)
  /-- A step takes its time. -/
  | stepped (elapsed : Int)
  /-- The end is logged. -/
  | ended

namespace Event

/-- What is done at an iteration that does not end the run. -/
def around (S : Settings) (i : ℕ) (r : Row α) (records : List (Row α)) (logged : Parameters α)
    (elapsed : Int) : List (Event α) :=
  (if S.rates.report ∣ i then [reported i r] else []) ++
  (if S.rates.writesBack i then [saved records logged] else []) ++ [stepped elapsed]

/-- Between two evaluations there is only a step. -/
lemma around_between {S : Settings} {i : ℕ} (h : ¬ S.rates.stop ∣ i) (r : Row α)
    (records : List (Row α)) (logged : Parameters α) (elapsed : Int) :
    around S i r records logged elapsed = [stepped elapsed] := by
  rw [around, if_neg fun hdvd => h (Rates.stop_dvd_of_reports hdvd),
    if_neg fun hdvd => h (Rates.stop_dvd_of_writesBack hdvd)]
  rfl

variable [Scalar α]

/-- Does it; only a checkpoint may fail. -/
def perform (S : Settings) (print : Bool) (w : World α) : Event α → Except Fault (World α)
  | reported i r => .ok (w.log S.logFile print (.statistics i r))
  | saved records logged =>
    match w.saveCheckpoint S records.toArray logged with
    | (w, .ok ()) => .ok w
    | (_, .error e) => .error e
  | stepped elapsed => .ok { w with now := w.now + elapsed }
  | ended => .ok (w.log S.logFile print .satisfied)

end Event

section

variable [Scalar α] {S : Settings} {print : Bool} {w w' w'' : World α}

/-- Does one thing after the other. -/
def World.perform (S : Settings) (print : Bool) (w : World α) (events : List (Event α)) :
    Except Fault (World α) := events.foldlM (Event.perform S print) w

lemma World.perform_append {events events' : List (Event α)}
    (h : w.perform S print events = .ok w') (h' : w'.perform S print events' = .ok w'') :
    w.perform S print (events ++ events') = .ok w'' := by
  rw [perform, List.foldlM_append]
  rw [perform] at h h'
  rw [h]
  exact h'

end

/-! ## What a run comes to

The algorithm is followed on its own, and the evaluations one after the other: the course of a run
at its `j`-th evaluation is what the one before has left, with the state that is reached by then.
-/

section

variable [Scalar α] [StoppingRule α κ]

namespace Course

/-- The course with the objective tracked. -/
def tracked (A : Algorithm α σ κ) (c : Course α σ κ) : Course α σ κ :=
  { c with
    objective := match Scene.trackedObjective A c with
      | .ok a => a
      | .error _ => c.objective }

/-- The course with the record of the evaluation that has been made. -/
def recorded (A : Algorithm α σ κ) (c : Course α σ κ) : Course α σ κ :=
  { c with
    records := match c.row A with
      | .ok r => c.records.push r
      | .error _ => c.records }

end Course

namespace Scene

variable (A : Algorithm α σ κ) (S : Settings) (o : Scene α σ κ)

/-- The state after `k` steps. -/
def stateAfter : ℕ → σ
  | 0 => o.course.state
  | k + 1 => (A.step (stateAfter k)).state

/-- The time after `k` steps. -/
def clockAfter : ℕ → Int
  | 0 => o.world.now
  | k + 1 => clockAfter k + (A.step (stateAfter A o k)).elapsed

/-- The course at the `j`-th evaluation. -/
def posed : ℕ → Course α σ κ
  | 0 => o.course.tracked A
  | j + 1 =>
    Course.tracked A
      { Course.recorded A ((posed j).judge A (clockAfter A o (j * S.rates.stop))).1 with
        state := stateAfter A o ((j + 1) * S.rates.stop)
        iteration := (j + 1) * S.rates.stop }

/-- The course after the `j`-th evaluation. -/
def judged (j : ℕ) : Course α σ κ := ((posed A S o j).judge A (clockAfter A o (j * S.rates.stop))).1

/-- What the rule says in the `j`-th evaluation. -/
def verdict (j : ℕ) : Except Fault Bool :=
  ((posed A S o j).judge A (clockAfter A o (j * S.rates.stop))).2

/-- What the rule is shown in the `j`-th evaluation. -/
def shownAt (j : ℕ) : Observation α :=
  (posed A S o j).observe A (clockAfter A o (j * S.rates.stop))

/-- The record of the `j`-th evaluation. -/
def rowAt (j : ℕ) : Row α :=
  match (judged A S o j).row A with
  | .ok r => r
  | .error _ => default

/-- The records up to the `j`-th evaluation. -/
def rowsUpTo (j : ℕ) : List (Row α) := (List.range (j + 1)).map (rowAt A S o)

/-- The logged variables at the `j`-th evaluation. -/
def loggedAt (j : ℕ) : Parameters α := loggedValues S ((posed A S o j).bindings A)

/-- What is done to the world at iteration `k`. -/
def eventsAt (k : ℕ) : List (Event α) :=
  Event.around S k (rowAt A S o (k / S.rates.stop)) (rowsUpTo A S o (k / S.rates.stop))
    (loggedAt A S o (k / S.rates.stop)) (A.step (stateAfter A o k)).elapsed

/-- What is done to the world when the `N`-th evaluation ends the run. -/
def closingEvents (N : ℕ) : List (Event α) :=
  [.reported (N * S.rates.stop) (rowAt A S o N), .ended] ++
  if S.rates.writeback.isSome then [.saved (rowsUpTo A S o N) (loggedAt A S o N)] else []

/-- Nothing fails in the `j`-th evaluation, made in the state after `j * s` steps, and the rule
decides. -/
structure Evaluated (j : ℕ) (d : Bool) : Prop where
  state : (posed A S o j).state = stateAfter A o (j * S.rates.stop)
  objective : trackedObjective A (posed A S o j) = .ok (posed A S o j).objective
  decision : (StoppingRule.stop (posed A S o j).rule (shownAt A S o j)).2 = .ok d
  verdict : verdict A S o j = .ok d
  row : (judged A S o j).row A = .ok (rowAt A S o j)
  stamp : (rowAt A S o j).iteration = j * S.rates.stop

/-- The run from `o` is ended at `t` by its rule, in the `N`-th evaluation. -/
structure Traced (print : Bool) (N : ℕ) (t : Scene α σ κ) : Prop where
  evaluations : ∀ j < N, Evaluated A S o j false
  last : Evaluated A S o N true
  steps : ∀ k < N * S.rates.stop, (A.step (stateAfter A o k)).outcome = .ok ()
  state : t.course.state = stateAfter A o (N * S.rates.stop)
  iteration : t.course.iteration = N * S.rates.stop
  /-- The rule that is asked first is the one that the run starts with, and each evaluation leaves
  the rule that the next one asks. -/
  turns : (posed A S o 0).rule = o.course.rule ∧ ∀ j < N,
    (posed A S o (j + 1)).rule = (StoppingRule.stop (posed A S o j).rule (shownAt A S o j)).1
  rule : t.course.rule = (StoppingRule.stop (posed A S o N).rule (shownAt A S o N)).1
  records : t.course.records.toList = rowsUpTo A S o N
  clock : t.world.now = clockAfter A o (N * S.rates.stop)
  world : o.world.perform S print ((List.range (N * S.rates.stop)).flatMap (eventsAt A S o)
    ++ closingEvents A S o N) = .ok t.world

end Scene

end

end PrimalDual
