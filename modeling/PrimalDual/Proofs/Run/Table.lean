import PrimalDual.Proofs.Criterion.Labels
import PrimalDual.Proofs.Run.Ending
import PrimalDual.Proofs.Run.Modes
import PrimalDual.Proofs.Run.Steps

/-!
# The table of a run

Every evaluation of a run leaves a record.  They make up a table as long as all of them have the same
labels, and the run hands out its table with every step that is pulled, and with every checkpoint.  So
a label that changes in the middle of a run spoils it: pulls are refused, and checkpoints fail.

A run under a criterion whose variables keep their shapes has its table at any time, whether it goes
on, has ended or has failed.

* `Course.tree` — the criterion of a run, with the recorder of its objective.
* `Scene.Spares`, `tick_notes` — a tick adds no record but that of its evaluation.
* `Scene.AtEvaluation`, `KeepsShapes` — where a run is evaluated, and what is seen there.
* `Course.Tabular`, **`tick_tabular`**, **`drive_tabular`** — all records have the same labels.
* **`records_fit`** — whoever advances a run, it has its table.
* `twinSolver` — a criterion whose labels change.
-/

namespace PrimalDual

variable {α σ κ : Type}

/-! ## What a tick notes -/

namespace Scene

/-- The rule, what is recorded of the objective, and the records are the same. -/
structure Same (t u : Scene α σ κ) : Prop where
  rule : u.course.rule = t.course.rule
  tracker : u.course.tracker = t.course.tracker
  records : u.course.records = t.course.records

lemma Same.refl (t : Scene α σ κ) : Same t t := ⟨rfl, rfl, rfl⟩

lemma Same.trans {t u v : Scene α σ κ} (h : Same t u) (h' : Same u v) : Same t v :=
  ⟨h'.rule.trans h.rule, h'.tracker.trans h.tracker, h'.records.trans h.records⟩

/-- An action that neither evaluates nor records. -/
def Spares {β : Type} (x : Action α σ κ β) : Prop := ∀ t, Same t (ending (x t))

variable {A : Algorithm α σ κ} {S : Settings} {print : Bool} {i : ℕ}

lemma spares_pure {β : Type} (b : β) : Spares (pure b : Action α σ κ β) := fun t => Same.refl t

lemma spares_report : Spares (report S print : Action α σ κ Unit) := by
  intro t
  rw [report]
  split <;> exact ⟨rfl, rfl, rfl⟩

lemma spares_log (entry : LogEntry α) : Spares (modify (log S print entry) : Action α σ κ Unit) :=
  fun _ => ⟨rfl, rfl, rfl⟩

lemma spares_advance : Spares (advance A) := by
  intro t
  rw [advance]
  split <;> exact ⟨rfl, rfl, rfl⟩

variable [Scalar α]

lemma spares_writeback : Spares (writeback A S) := by
  intro t
  rw [writeback]
  split <;> exact ⟨rfl, rfl, rfl⟩

/-- Reports, checkpoints and steps come after the evaluation. -/
lemma spares_proceed (A : Algorithm α σ κ) (S : Settings) (print : Bool) (i : ℕ) :
    Spares (proceed A S print i) := by
  have hsave : Spares (do
      if S.rates.writesBack i then writeback A S
      advance A : Action α σ κ Unit) :=
    ending_ite _ (ending_bind Same.trans spares_writeback fun _ => spares_advance) spares_advance
  rw [proceed]
  cases S.rates.reports i with
  | ok due => exact ending_ite due (ending_bind Same.trans spares_report fun _ => hsave) hsave
  | error e => exact fun t => Same.refl t

/-- A tick that goes on. -/
lemma spares_goOn (A : Algorithm α σ κ) (S : Settings) (print : Bool) (i : ℕ) :
    Spares (do proceed A S print i; return true : Action α σ κ Bool) :=
  ending_bind Same.trans (spares_proceed A S print i) fun _ => spares_pure true

/-- What a tick does after its record, be it the end of the run or not. -/
lemma spares_settle (A : Algorithm α σ κ) (S : Settings) (print : Bool) (i : ℕ) (d : Bool) :
    Spares (if d then do
        report S print
        modify (log S print .satisfied)
        if S.rates.writeback.isSome then writeback A S
        return false
      else do
        proceed A S print i
        return true : Action α σ κ Bool) := by
  have hclose : Spares (do
      report S print
      modify (log S print .satisfied)
      if S.rates.writeback.isSome then writeback A S
      return false : Action α σ κ Bool) :=
    ending_bind Same.trans spares_report fun _ => ending_bind Same.trans (spares_log _) fun _ =>
      ending_ite _ (ending_bind Same.trans spares_writeback fun _ => spares_pure false)
        (spares_pure false)
  exact ending_ite d hclose (spares_goOn A S print i)

variable [StoppingRule α κ] {t u v : Scene α σ κ}

/-- What has become of the rule and of the records in a tick: there was no evaluation, or there was
one, and its record has been added if it came to a decision. -/
inductive Notes (A : Algorithm α σ κ) (S : Settings) (t u : Scene α σ κ) : Prop
  | quiet (h : Same t u)
  | judged {v : Scene α σ κ} (hdue : S.rates.evaluates t.course.iteration = true)
      (htrack : trackObjective A t = .ok () v)
      (hrule : u.course.rule = (v.course.judge A v.world.now).1.rule)
      (htracker : u.course.tracker = (v.course.judge A v.world.now).1.tracker)
      (hrecords : u.course.records = t.course.records ∨ ∃ decision r,
        (v.course.judge A v.world.now).2 = .ok decision ∧
        (v.course.judge A v.world.now).1.row A = .ok r ∧
        u.course.records = t.course.records.push r)

omit [Scalar α] in
/-- An evaluation by itself leaves the records as they are. -/
lemma judge_records (htrack : trackObjective A t = .ok () v) :
    (v.course.judge A v.world.now).1.records = t.course.records := by
  obtain ⟨a, -, rfl⟩ := trackObjective_ok htrack
  rw [judge_keeps]

/-- A record is followed by what neither evaluates nor records. -/
lemma notes_of_record {f : Unit → Action α σ κ Bool} (hf : ∀ b, Spares (f b))
    (hdue : S.rates.evaluates t.course.iteration = true) (htrack : trackObjective A t = .ok () v)
    {decision : Bool} (hdecision : (v.course.judge A v.world.now).2 = .ok decision) :
    Notes A S t (ending ((record A >>= f) { v with course := (v.course.judge A v.world.now).1 })) := by
  have hrecords := judge_records htrack
  show Notes A S t (ending (EStateM.bind _ _ _))
  rw [EStateM.bind, record]
  cases hrow : (v.course.judge A v.world.now).1.row A with
  | error e => exact .judged hdue htrack rfl rfl (Or.inl hrecords)
  | ok r =>
    have hsame := hf () { v with course := { (v.course.judge A v.world.now).1 with
      records := (v.course.judge A v.world.now).1.records.push r } }
    refine .judged hdue htrack hsame.rule hsame.tracker (Or.inr ⟨decision, r, hdecision, hrow, ?_⟩)
    rw [← hrecords]
    exact hsame.records

/-- An evaluation that comes to a decision is recorded, whatever the decision is. -/
lemma notes_of_evaluate {f : Bool → Unit → Action α σ κ Bool} (hf : ∀ d b, Spares (f d b))
    (hdue : S.rates.evaluates t.course.iteration = true) (htrack : trackObjective A t = .ok () v) :
    Notes A S t (ending ((evaluate A >>= fun d => record A >>= f d) v)) := by
  show Notes A S t (ending (EStateM.bind _ _ _))
  rw [EStateM.bind, evaluate]
  have hrecords := judge_records htrack
  rcases hjudge : v.course.judge A v.world.now with ⟨c, e | decision⟩
  · rw [hjudge] at hrecords
    exact .judged hdue htrack (by rw [hjudge]; rfl) (by rw [hjudge]; rfl) (Or.inl hrecords)
  · have hdecision : (v.course.judge A v.world.now).2 = .ok decision := by rw [hjudge]
    obtain rfl : (v.course.judge A v.world.now).1 = c := by rw [hjudge]
    exact notes_of_record (hf decision) hdue htrack hdecision

/-- The part of a tick with an evaluation. -/
lemma work_of_evaluates (h : S.rates.evaluates i = true) : work A S print i = (do
    trackObjective A
    evaluate A >>= fun d => record A >>= fun _ =>
      if d then do
        report S print
        modify (log S print .satisfied)
        if S.rates.writeback.isSome then writeback A S
        return false
      else do
        proceed A S print i
        return true) := by
  rw [work, h, if_pos rfl]
  congr 1
  funext _
  congr 1
  funext d
  cases d with
  | false => rfl
  | true =>
    simp only [finish, if_true, bind_assoc]
    cases S.rates.writeback.isSome <;> rfl

/-- **What a tick notes**, whether it fails or not. -/
theorem tick_notes (A : Algorithm α σ κ) (S : Settings) (print : Bool) (t : Scene α σ κ) :
    Notes A S t (ending (tick A S print t)) := by
  suffices hwork : Notes A S t (ending (work A S print t.course.iteration t)) by
    rw [tick]
    rcases hresult : work A S print t.course.iteration t with ⟨goesOn, u⟩ | ⟨e, u⟩
    · rw [hresult] at hwork
      exact hwork
    · rw [hresult] at hwork
      cases hwork with
      | quiet h => exact .quiet ⟨h.rule, h.tracker, h.records⟩
      | judged hdue htrack hrule htracker hrecords =>
        exact .judged hdue htrack hrule htracker hrecords
  cases hdue : S.rates.evaluates t.course.iteration with
  | false =>
    rw [work, hdue]
    exact .quiet (spares_goOn A S print _ t)
  | true =>
    rw [work_of_evaluates hdue]
    show Notes A S t (ending (EStateM.bind _ _ t))
    rw [EStateM.bind]
    cases htrack : trackObjective A t with
    | error e u =>
      cases trackObjective_error htrack
      exact .quiet (Same.refl _)
    | ok a v => exact notes_of_evaluate (fun d _ => spares_settle A S print _ d) hdue htrack

end Scene

/-! ## Records -/

/-- Records of some labels make a table. -/
lemma History.ofRows_of_labels {rows : List (Row α)} {labels : List String}
    (h : ∀ r ∈ rows, r.labels = labels) : ∃ table, History.ofRows rows = .ok table := by
  have hlabels : Solver.SameLabels rows := fun r hr r' hr' => (h r hr).trans (h r' hr').symm
  cases hrows : History.ofRows rows with
  | error e => exact absurd hrows (Solver.ofRows_ok List.prefix_rfl hlabels)
  | ok table => exact ⟨table, rfl⟩

/-- The labels of a record; a criterion without statistics leaves a placeholder. -/
def rowLabels (labels : List String) : List String := if labels.isEmpty then ["dummy"] else labels

/-! ## The criterion of a run -/

variable [Scalar α]

namespace Course

section

variable {A : Algorithm α σ κ} {c : Course α σ κ} [StoppingRule α κ]

omit [StoppingRule α κ] in
/-- Statistics keep their labels when they are turned into scalars. -/
lemma labels_of_toReal {entries : List (String × Number α)} {numbers : List (String × α)}
    (h : entries.mapM (fun (label, n) => do
      let x ← n.toReal
      pure (label, x)) = .ok numbers) : numbers.map (·.1) = entries.map (·.1) := by
  induction entries generalizing numbers with
  | nil =>
    cases h
    rfl
  | cons e entries ih =>
    rw [List.mapM_cons] at h
    obtain ⟨entry, hentry, h⟩ := ok_of_bind h
    obtain ⟨rest, hrest, h⟩ := ok_of_bind h
    obtain ⟨x, -, hx⟩ := ok_of_bind hentry
    cases hx
    cases h
    rw [List.map_cons, List.map_cons, ih hrest]

/-- A record has the labels of the statistics that it is made of. -/
lemma row_labels {r : Row α} {labels : List String}
    (hinfo : Yields (c.info A) fun entries => entries.map (·.1) = labels) (h : c.row A = .ok r) :
    r.labels = rowLabels labels := by
  obtain ⟨entries, hentries, rfl⟩ := hinfo
  obtain ⟨entries', hentries', h⟩ := ok_of_bind h
  cases hentries'.symm.trans hentries
  obtain ⟨numbers, hnumbers, h⟩ := ok_of_bind h
  cases h
  rw [Row.labels, labels_of_toReal hnumbers, rowLabels]
  cases entries <;> rfl

end

variable {A : Algorithm α σ (Criterion α)} {c c' : Course α σ (Criterion α)} {now : ℤ}

/-- The criterion of a run.  The recorder of the objective, where it is tracked, is one side of it. -/
def tree (c : Course α σ (Criterion α)) : Criterion α :=
  match c.tracker with
  | none => c.rule
  | some memo => .either c.rule (.memorize objectiveName memo)

omit [Scalar α] in
lemma tree_congr (hrule : c.rule = c'.rule) (htracker : c.tracker = c'.tracker) :
    c.tree = c'.tree := by
  rw [tree, tree, hrule, htracker]

/-- A run evaluates its criterion. -/
lemma tree_stop (A : Algorithm α σ (Criterion α)) (c : Course α σ (Criterion α)) (now : ℤ) :
    c.tree.stop (c.observe A now) = ((c.judge A now).1.tree, (c.judge A now).2) := by
  rw [tree]
  cases htracker : c.tracker with
  | none =>
    rw [Scene.judge_untracked htracker]
    simp only [tree, htracker]
    rfl
  | some memo =>
    have hrule : StoppingRule.stop c.rule (c.observe A now) = c.rule.stop (c.observe A now) := rfl
    rw [Criterion.stop, judge, hrule]
    rcases c.rule.stop (c.observe A now) with ⟨rule, e | d⟩
    · simp only [tree, htracker]
    · simp only [htracker, Criterion.stop]
      rcases ((c.observe A now).slot objectiveName).bind
        (Criterion.memoOf objectiveName (c.observe A now)) with e | memo'
      · simp only [tree, Except.map]
      · simp only [tree, Except.map, Bool.or_false]

/-- A run reports what its criterion does. -/
lemma tree_info (A : Algorithm α σ (Criterion α)) (c : Course α σ (Criterion α)) :
    c.info A = c.tree.info (Observation.memoryOf (c.bindings A)) := by
  rw [tree, info]
  cases c.tracker with
  | none =>
    show (c.rule.info _ >>= fun main => pure main) = _
    exact bind_pure _
  | some memo => rfl

/-- All records have the labels of the criterion, and it may be evaluated again. -/
structure Tabular (shapes : String → Shape) (labels : List String)
    (c : Course α σ (Criterion α)) : Prop where
  labelled : c.tree.Labelled shapes labels
  remembers : c.tree.Remembers shapes
  records : ∀ r ∈ c.records, r.labels = rowLabels labels

variable {shapes : String → Shape} {labels : List String}

omit [Scalar α] in
lemma Tabular.congr (h : c.Tabular shapes labels) (hrule : c'.rule = c.rule)
    (htracker : c'.tracker = c.tracker) (hrecords : c'.records = c.records) :
    c'.Tabular shapes labels := by
  have htree : c'.tree = c.tree := tree_congr hrule htracker
  refine ⟨?_, ?_, ?_⟩
  · rw [htree]
    exact h.labelled
  · rw [htree]
    exact h.remembers
  · rw [hrecords]
    exact h.records

omit [Scalar α] in
lemma Tabular.tracked {t v : Scene α σ (Criterion α)} (h : t.course.Tabular shapes labels)
    (htrack : Scene.trackObjective A t = .ok () v) : v.course.Tabular shapes labels := by
  obtain ⟨a, -, rfl⟩ := Scene.trackObjective_ok htrack
  exact h.congr rfl rfl rfl

/-- **An evaluation that comes to a decision** has the labels of the criterion. -/
theorem Tabular.judge_labels (h : c.Tabular shapes labels)
    (hsees : c.tree.Sees shapes (c.observe A now)) {decision : Bool}
    (hdecision : (c.judge A now).2 = .ok decision) :
    Yields ((c.judge A now).1.info A) fun entries => entries.map (·.1) = labels := by
  have hstop := tree_stop A c now
  have hbindings : (c.judge A now).1.bindings A = c.bindings A := by
    rw [Scene.judge_keeps]
    rfl
  have hdecided : (c.tree.stop (c.observe A now)).2 = .ok decision := by rw [hstop, hdecision]
  have hreports := Criterion.stop_labels h.labelled hsees h.remembers hdecided
  rw [hstop] at hreports
  rw [tree_info, hbindings]
  exact hreports

end Course

/-! ## Ticks -/

namespace Scene

variable {A : Algorithm α σ (Criterion α)} {S : Settings} {print : Bool}
  {o t v : Scene α σ (Criterion α)} {shapes : String → Shape} {labels : List String} {k : ℕ}
  {st : Standing}

omit [Scalar α] in
lemma tree_tracked (htrack : trackObjective A t = .ok () v) : v.course.tree = t.course.tree := by
  obtain ⟨a, -, rfl⟩ := trackObjective_ok htrack
  rfl

/-- Where there was an evaluation, the criterion is what it has left. -/
lemma tree_of_judged {u : Scene α σ (Criterion α)}
    (hrule : u.course.rule = (v.course.judge A v.world.now).1.rule)
    (htracker : u.course.tracker = (v.course.judge A v.world.now).1.tracker) :
    u.course.tree = (v.course.tree.stop (v.course.observe A v.world.now)).1 := by
  rw [Course.tree_stop, Course.tree_congr hrule htracker]

/-- Started afresh, the criterion of a run is the same at any time. -/
lemma drive_renewed (hd : drive A S print k o = (t, st)) :
    t.course.tree.clear 0 = o.course.tree.clear 0 := by
  refine drive_keeps (P := fun t => t.course.tree.clear 0 = o.course.tree.clear 0) rfl
    (fun _ u _ hu => ?_) hd
  rw [← hu]
  cases tick_notes A S print u with
  | quiet hsame => rw [Course.tree_congr hsame.rule hsame.tracker]
  | judged _ htrack hrule htracker _ =>
    rw [tree_of_judged hrule htracker, Criterion.clear_stop, tree_tracked htrack]

/-- The run comes to `v`, which is to be evaluated. -/
def AtEvaluation (A : Algorithm α σ (Criterion α)) (S : Settings) (print : Bool)
    (o v : Scene α σ (Criterion α)) : Prop :=
  ∃ k t, drive A S print k o = (t, .going) ∧ S.rates.evaluates t.course.iteration = true ∧
    trackObjective A t = .ok () v

/-- Whenever the run is evaluated, the variables that its criterion looks at have these shapes. -/
def KeepsShapes (shapes : String → Shape) (A : Algorithm α σ (Criterion α)) (S : Settings)
    (print : Bool) (o : Scene α σ (Criterion α)) : Prop :=
  ∀ v, AtEvaluation A S print o v → o.course.tree.Sees shapes (v.course.observe A v.world.now)

/-- **A tick** keeps the records in line, whether it fails or not. -/
theorem tick_tabular (h : t.course.Tabular shapes labels)
    (hsees : ∀ v, S.rates.evaluates t.course.iteration = true → trackObjective A t = .ok () v →
      t.course.tree.Sees shapes (v.course.observe A v.world.now)) :
    (ending (tick A S print t)).course.Tabular shapes labels := by
  cases tick_notes A S print t with
  | quiet hsame => exact h.congr hsame.rule hsame.tracker hsame.records
  | @judged v hdue htrack hrule htracker hrecords =>
    have htree := tree_of_judged hrule htracker
    have hsees := hsees v hdue htrack
    rw [← tree_tracked htrack] at hsees
    have hv := h.tracked htrack
    refine ⟨?_, ?_, fun r hr => ?_⟩
    · rw [htree, Criterion.labelled_stop]
      exact hv.labelled
    · rw [htree]
      exact Criterion.remembers_stop hsees hv.remembers
    · rcases hrecords with hsame | ⟨decision, r', hdecision, hrow, hpush⟩
      · exact h.records r (hsame ▸ hr)
      · rw [hpush] at hr
        rcases Array.mem_push.mp hr with hold | rfl
        · exact h.records r hold
        · exact Course.row_labels (hv.judge_labels hsees hdecision) hrow

/-- **A run** keeps the records in line, whatever it comes to. -/
theorem drive_tabular (h : o.course.Tabular shapes labels)
    (hshapes : KeepsShapes shapes A S print o) (hd : drive A S print k o = (t, st)) :
    t.course.Tabular shapes labels := by
  refine drive_keeps (P := fun t => t.course.Tabular shapes labels) h (fun m u hu htabular => ?_) hd
  refine tick_tabular htabular fun v hdue htrack => ?_
  rw [Criterion.sees_congr (drive_renewed hu)]
  exact hshapes v ⟨m, u, hu, hdue, htrack⟩

/-- An evaluation has the labels of the criterion wherever the run comes to it, and the record of it
makes a table with those before. -/
lemma AtEvaluation.reports (h : o.course.Tabular shapes labels)
    (hshapes : KeepsShapes shapes A S print o) (hv : AtEvaluation A S print o v) {decision : Bool}
    (hdecision : (v.course.judge A v.world.now).2 = .ok decision) :
    Yields ((v.course.judge A v.world.now).1.info A) (fun entries => entries.map (·.1) = labels) ∧
      ∀ r, (v.course.judge A v.world.now).1.row A = .ok r →
        ∃ table, History.ofRows (v.course.records.push r).toList = .ok table := by
  have hsees := hshapes v hv
  obtain ⟨k, t, hgoing, hdue, htrack⟩ := hv
  have htabular := (drive_tabular h hshapes hgoing).tracked htrack
  rw [← Criterion.sees_congr (drive_renewed hgoing), ← tree_tracked htrack] at hsees
  have hinfo := htabular.judge_labels hsees hdecision
  refine ⟨hinfo, fun r hr => ?_⟩
  have hrows : ∀ r' ∈ (v.course.records.push r).toList, r'.labels = rowLabels labels := by
    intro r' hr'
    rcases Array.mem_push.mp (Array.mem_toList_iff.mp hr') with hold | rfl
    · exact htabular.records r' hold
    · exact Course.row_labels hinfo hr
  exact History.ofRows_of_labels hrows

end Scene

/-! ## Whoever advances a run -/

namespace Solver

variable {s s' : Solver α σ (Criterion α)} {w w₀ : World α} {args : FitArguments α (Criterion α)}
  {u : σ} {rule : Criterion α} {c : Course α σ (Criterion α)} {shapes : String → Shape}
  {labels : List String} {faults : List Fault}

/-- What may come up in the run that starts at `o`: a failure of the run itself, or a pull that is
refused because its bound is no number or because there is no open run. -/
def Explained (A : Algorithm α σ (Criterion α)) (S : Settings) (print : Bool)
    (o : Scene α σ (Criterion α)) (e : Fault) : Prop :=
  e = .wrongType ∨ e = .noRun ∨ ∃ k t, Scene.drive A S print k o = (t, .failed e)

lemma allowsMore_error {bound : Value α} {done : ℕ} {e : Fault}
    (h : allowsMore bound done = .error e) : e = .wrongType := by
  cases bound <;> cases h <;> rfl

omit [Scalar α] in
/-- Records in line make a table. -/
lemma ofRows_of_tabular (h : c.Tabular shapes labels) :
    ∃ table, History.ofRows c.records.toList = .ok table :=
  History.ofRows_of_labels fun r hr => h.records r (Array.mem_toList_iff.mp hr)

/-- However a run is advanced, it is in line, and what comes up in it is explained.  No pull is refused
for want of a table. -/
lemma advanced_tabular (hopening : s.Opening w args u rule w₀)
    (h : (firstCourse args u rule w₀).Tabular shapes labels)
    (hshapes : Scene.KeepsShapes shapes s.algorithm s.settings (s.prints args.mode)
      (firstScene args u rule w₀)) (hadvanced : s.Advanced w args s' faults) :
    (∃ c, s'.phase = .running c ∧ c.Tabular shapes labels) ∧
      ∀ e ∈ faults, Explained s.algorithm s.settings (s.prints args.mode)
        (firstScene args u rule w₀) e := by
  obtain ⟨c, hphase, hbrought⟩ := advanced_brought hopening.begins hadvanced
  obtain ⟨k, t, st, hd, rfl, -⟩ := hbrought.driven
  refine ⟨⟨t.course, hphase, Scene.drive_tabular h hshapes hd⟩, fun e he => ?_⟩
  cases hbrought.raised e he with
  | failed hfailed => exact Or.inr (Or.inr ⟨_, _, hfailed⟩)
  | closed => exact Or.inr (Or.inl rfl)
  | bound hbound => exact Or.inl (allowsMore_error hbound)
  | table hgoing hrows =>
    obtain ⟨table, htable⟩ := ofRows_of_tabular (Scene.drive_tabular h hshapes hgoing)
    cases htable.symm.trans hrows

/-- A run that has not begun is in line. -/
lemma firstCourse_tabular
    (h : (firstCourse args u rule w₀).tree.Labelled shapes labels) :
    (firstCourse args u rule w₀).Tabular shapes labels := by
  refine ⟨h, ?_, fun r hr => absurd hr (Array.not_mem_empty r)⟩
  rw [Course.tree]
  split
  · exact Criterion.remembers_clear _ _
  · exact ⟨Criterion.remembers_clear _ _, trivial⟩

/-- **The records of a run fit together** if the variables that its criterion looks at keep their
shapes.  Wherever it is evaluated, the statistics have the same labels, and the record makes a table with
those before it, which is what a checkpoint saves.  Whoever advances the run and whatever it comes to,
the solver shows its table, and its checkpoints fail only if files cannot be written.  Pulls are
never refused for want of a table. -/
theorem records_fit (hopening : s.Opening w args u rule w₀)
    (hlabels : (firstCourse args u rule w₀).tree.Labelled shapes labels)
    (hshapes : Scene.KeepsShapes shapes s.algorithm s.settings (s.prints args.mode)
      (firstScene args u rule w₀)) :
    (∀ v d, Scene.AtEvaluation s.algorithm s.settings (s.prints args.mode)
        (firstScene args u rule w₀) v → (v.course.judge s.algorithm v.world.now).2 = .ok d →
      (∃ entries, (v.course.judge s.algorithm v.world.now).1.info s.algorithm = .ok entries ∧
        entries.map (·.1) = labels) ∧
      ∀ r, (v.course.judge s.algorithm v.world.now).1.row s.algorithm = .ok r →
        ∃ table, History.ofRows (v.course.records.push r).toList = .ok table) ∧
    ∀ s' faults, s.Advanced w args s' faults →
      (∀ r ∈ s'.records, r.labels = rowLabels labels) ∧
      (∃ table, s'.stats = .ok (s'.logged, table) ∧
        ∀ w₁ : World α, s'.writeback w₁ =
          ({ w₁ with disk := (saveArrays w₁.disk s'.settings.dataDir
              (checkpointItems table s'.logged)).1 },
            (saveArrays w₁.disk s'.settings.dataDir (checkpointItems table s'.logged)).2)) ∧
      ∀ e ∈ faults, Explained s.algorithm s.settings (s.prints args.mode)
        (firstScene args u rule w₀) e := by
  have hfirst := firstCourse_tabular hlabels
  refine ⟨fun v d hv hdecision => hv.reports (o := firstScene args u rule w₀) hfirst hshapes hdecision,
    fun s' faults hadvanced => ?_⟩
  obtain ⟨⟨c, hphase, hc⟩, hfaults⟩ := advanced_tabular hopening hfirst hshapes hadvanced
  have hrecords : s'.records = c.records := by rw [records, hphase]
  obtain ⟨table, htable⟩ := ofRows_of_tabular hc
  rw [← hrecords] at htable
  refine ⟨fun r hr => hc.records r (hrecords ▸ hr), ⟨table, ?_, fun w₁ => ?_⟩, hfaults⟩
  · rw [stats, htable]
    rfl
  · rw [writeback, World.saveCheckpoint, htable]

end Solver

/-! ## A variable of two elements -/

/-- A counter that shows its number twice. -/
def twin : Algorithm Float ℕ (Criterion Float) :=
  { counter Float (Criterion Float) with
    bindings := fun n => [⟨"x", .array (.tabulateWhole .memory [2] .int64 fun _ => n), true⟩] }

/-- It is evaluated at every other step. -/
def twinSolver : Solver Float ℕ (Criterion Float) := .ofAlgorithm twin counterSettings

/-- The change of the variable, whose points have some rank; it is watched without ever stopping. -/
def twinRule (rank : ℤ) : Criterion Float :=
  .both .manual (.ofChange .absolute ⟨.real (Scalar.ratio 1 2), "x", rank, .ok, .int 1, true⟩)

/-- A manual run that watches it. -/
def twinArguments (rank : ℤ) : FitArguments Float (Criterion Float) :=
  ⟨.manual, some (twinRule rank), false, []⟩

/-- The world when the log of the run is open. -/
def twinWorld : World Float := (twinSolver.openLog ⟨.empty, 0, #[]⟩).1

/-- The run at its start. -/
def twinFit (rank : ℤ) : Solver Float ℕ (Criterion Float) × World Float × Except Fault Unit :=
  twinSolver.fit 0 ⟨.empty, 0, #[]⟩ (twinArguments rank)

/-- The run after three items have been asked for. -/
def twinPulled (rank : ℤ) :
    Solver Float ℕ (Criterion Float) × World Float × List (Solver.Pulled Float) :=
  Solver.pullAll [(.null, 3)] (twinFit rank).1 (twinFit rank).2.1

/-- The variable keeps its shape all the time. -/
lemma twin_keepsShapes (rank : ℤ) : Scene.KeepsShapes (fun _ => [2]) twin twinSolver.settings
    (twinSolver.prints .manual) (Solver.firstScene (twinArguments rank) 0 (twinRule rank) twinWorld) := by
  intro v _
  have hget : (v.course.observe twin v.world.now).get "x"
      = .ok (.array (.tabulateWhole .memory [2] .int64 fun _ => v.course.state)) := by
    rw [Course.observe, Course.bindings]
    cases v.course.objective <;> rfl
  refine ⟨trivial, fun x hx => ?_⟩
  cases hget.symm.trans hx
  exact ⟨_, rfl, rfl⟩

/-- In points of rank one, the run has its table. -/
theorem twin_fits :
    twinSolver.Opening ⟨.empty, 0, #[]⟩ (twinArguments 1) 0 (twinRule 1) twinWorld ∧
    (Solver.firstCourse (twinArguments 1) 0 (twinRule 1) twinWorld).tree.Labelled (fun _ => [2])
      ["AbsChange[x]"] ∧
    (∀ r ∈ (twinPulled 1).1.records, r.labels = ["AbsChange[x]"]) ∧
    ∃ table, (twinPulled 1).1.stats = .ok ((twinPulled 1).1.logged, table) := by
  have hopening : twinSolver.Opening ⟨.empty, 0, #[]⟩ (twinArguments 1) 0 (twinRule 1) twinWorld :=
    ⟨rfl, rfl, rfl, rfl⟩
  have hlabels : (Solver.firstCourse (twinArguments 1) 0 (twinRule 1) twinWorld).tree.Labelled
      (fun _ => [2]) ["AbsChange[x]"] := by
    refine ⟨[], ["AbsChange[x]"], rfl, ⟨[], ?_, Nat.one_ne_zero, Or.inl (by decide), rfl⟩, rfl⟩
    rintro a _ ha ⟨rfl⟩
    exact ⟨a, rfl, congrArg (Shape.lead · 1) ha⟩
  have hfit : twinSolver.fit 0 ⟨.empty, 0, #[]⟩ (twinArguments 1)
      = ((twinFit 1).1, (twinFit 1).2.1, .ok ()) := rfl
  have hpull : Solver.pullAll [(.null, 3)] (twinFit 1).1 (twinFit 1).2.1
      = ((twinPulled 1).1, (twinPulled 1).2.1, (twinPulled 1).2.2) := rfl
  obtain ⟨-, hfits⟩ := Solver.records_fit hopening hlabels (twin_keepsShapes 1)
  obtain ⟨hrecords, ⟨table, hstats, -⟩, -⟩ := hfits _ _ (.manual rfl hfit hpull)
  exact ⟨hopening, hlabels, hrecords, table, hstats⟩

/-- In points of rank zero, the first record has one label and the second one has two, although the
variable keeps its shape.  The pull of the third item is refused, and there is no table any more. -/
theorem twin_breaks :
    Scene.KeepsShapes (fun _ => [2]) twin twinSolver.settings (twinSolver.prints .manual)
      (Solver.firstScene (twinArguments 0) 0 (twinRule 0) twinWorld) ∧
    (twinPulled 0).1.records.toList.map Row.labels
      = [["AbsChange[x]"], ["AbsChange[x]_min", "AbsChange[x]_max"]] ∧
    (twinPulled 0).2.2.filterMap (·.failure) = [.fieldsDiffer] ∧
    (twinPulled 0).1.stats.map (·.1) = .error .fieldsDiffer ∧
    ((twinPulled 0).1.writeback (twinPulled 0).2.1).2 = .error .fieldsDiffer :=
  ⟨twin_keepsShapes 0, rfl, rfl, rfl, rfl⟩

end PrimalDual
