import PrimalDual.Proofs.Criterion.Norm
import PrimalDual.Proofs.Criterion.Retention
import PrimalDual.Proofs.Run.Table

/-!
# What a run records of its criterion

An evaluation that comes to a decision leaves a record of what the criterion reports, with every number
turned into a scalar.  If this fails, so does the run.  A record holds everything that the leaves of the
criterion report if no two of them are of one kind and look at the same variable; otherwise it holds,
under each label, the number of the last leaf that uses it.

* `Row.Holds`, `Course.row_holds` — what a record holds.
* `Scene.DecidesWithin`, **`drive_recorded`** — every evaluation that decides leaves its record.
* `Course.Keeps`, **`Solver.statistics_recorded`** — trees of criteria, and the records of a run.
* `pairRule` — a criterion whose records hold everything.
* `cornerTree` — a criterion that loses a number.
-/

namespace PrimalDual

variable {α σ κ : Type} [Scalar α]

/-! ## Records -/

namespace Row

/-- The number is there under its label, as a scalar. -/
def Has (r : Row α) (e : String × Number α) : Prop := ∃ x, e.2.toReal = .ok x ∧ (e.1, x) ∈ r.entries

/-- The record holds these statistics and nothing else, but for a placeholder if there are none. -/
structure Holds (r : Row α) (entries : List (String × Number α)) : Prop where
  every : ∀ e ∈ entries, r.Has e
  only : ∀ label x, (label, x) ∈ r.entries →
    (∃ n : Number α, (label, n) ∈ entries ∧ n.toReal = .ok x) ∨
      entries = [] ∧ label = "dummy" ∧ x = Scalar.zero

end Row

/-- Each number is turned into a scalar, and keeps its label. -/
lemma mem_of_toReal {entries : List (String × Number α)} {numbers : List (String × α)}
    (h : entries.mapM (fun (label, n) => do
      let x ← n.toReal
      pure (label, x)) = .ok numbers) :
    (∀ e ∈ entries, ∃ x, e.2.toReal = .ok x ∧ (e.1, x) ∈ numbers) ∧
      ∀ y ∈ numbers, ∃ n : Number α, (y.1, n) ∈ entries ∧ n.toReal = .ok y.2 := by
  induction entries generalizing numbers with
  | nil =>
    cases h
    exact ⟨nofun, nofun⟩
  | cons e entries ih =>
    rw [List.mapM_cons] at h
    obtain ⟨entry, hentry, h⟩ := ok_of_bind h
    obtain ⟨rest, hrest, h⟩ := ok_of_bind h
    obtain ⟨x, hx, hentry⟩ := ok_of_bind hentry
    cases hentry
    cases h
    obtain ⟨hevery, honly⟩ := ih hrest
    refine ⟨fun e' he' => ?_, fun y hy => ?_⟩
    · rcases List.mem_cons.mp he' with rfl | he'
      · exact ⟨x, hx, List.mem_cons_self⟩
      · obtain ⟨x', hx', hmem⟩ := hevery e' he'
        exact ⟨x', hx', List.mem_cons_of_mem _ hmem⟩
    · rcases List.mem_cons.mp hy with rfl | hy
      · exact ⟨e.2, List.mem_cons_self, hx⟩
      · obtain ⟨n, hn, hvalue⟩ := honly y hy
        exact ⟨n, List.mem_cons_of_mem _ hn, hvalue⟩

/-- **A record** holds what is reported. -/
theorem Course.row_holds [StoppingRule α κ] {A : Algorithm α σ κ} {c : Course α σ κ} {r : Row α}
    (h : c.row A = .ok r) :
    r.iteration = c.iteration ∧ ∃ entries, c.info A = .ok entries ∧ r.Holds entries := by
  obtain ⟨entries, hinfo, h⟩ := ok_of_bind h
  obtain ⟨numbers, hnumbers, h⟩ := ok_of_bind h
  cases h
  refine ⟨rfl, entries, hinfo, ?_⟩
  obtain ⟨hevery, honly⟩ := mem_of_toReal hnumbers
  cases entries with
  | nil =>
    refine ⟨nofun, fun label x hx => Or.inr ?_⟩
    obtain ⟨n, hn, hvalue⟩ := honly _ hx
    cases List.mem_singleton.mp hn
    cases hvalue
    exact ⟨rfl, rfl, rfl⟩
  | cons e entries => exact ⟨hevery, fun label x hx => Or.inl (honly _ hx)⟩

/-! ## Every evaluation leaves its record -/

namespace Scene

variable [StoppingRule α κ] {A : Algorithm α σ κ} {S : Settings} {print : Bool}
  {o t u v : Scene α σ κ} {j k : ℕ} {st st' : Standing} {d : Bool} {r : Row α} {e : Fault}

omit [Scalar α] [StoppingRule α κ] in
lemma bind_of_error {β γ : Type} {x : Action α σ κ β} {f : β → Action α σ κ γ}
    (h : x t = .error e u) : (x >>= f) t = .error e u := by
  show EStateM.bind x f t = _
  rw [EStateM.bind, h]

/-- A tick that has come to a decision goes on with its record. -/
lemma work_of_decided (hdue : S.rates.evaluates t.course.iteration = true)
    (htrack : trackObjective A t = .ok () v) (hdecision : (v.course.judge A v.world.now).2 = .ok d) :
    work A S print t.course.iteration t = (record A >>= fun _ => if d then do
        report S print
        modify (log S print .satisfied)
        if S.rates.writeback.isSome then writeback A S
        return false
      else do
        proceed A S print t.course.iteration
        return true) { v with course := (v.course.judge A v.world.now).1 } := by
  have hevaluate : evaluate A v
      = .ok d { v with course := (v.course.judge A v.world.now).1 } := by
    rw [evaluate]
    rcases hjudge : v.course.judge A v.world.now with ⟨c, outcome⟩
    rw [hjudge] at hdecision
    cases hdecision
    rfl
  rw [work_of_evaluates hdue]
  exact (bind_of_ok htrack).trans (bind_of_ok hevaluate)

/-- The record is added, whatever comes after it. -/
lemma tick_recorded (hdue : S.rates.evaluates t.course.iteration = true)
    (htrack : trackObjective A t = .ok () v) (hdecision : (v.course.judge A v.world.now).2 = .ok d)
    (hrow : (v.course.judge A v.world.now).1.row A = .ok r) :
    (ending (tick A S print t)).course.records = t.course.records.push r := by
  have hrecord : record A { v with course := (v.course.judge A v.world.now).1 } = .ok ()
      { v with course := { (v.course.judge A v.world.now).1 with
        records := t.course.records.push r } } := by
    rw [record, hrow, ← judge_records (A := A) htrack]
  have hspared : (ending (work A S print t.course.iteration t)).course.records
      = t.course.records.push r := by
    rw [work_of_decided hdue htrack hdecision, bind_of_ok hrecord]
    exact (spares_settle A S print t.course.iteration d _).records
  rw [tick]
  rcases hresult : work A S print t.course.iteration t with ⟨goesOn, u⟩ | ⟨e, u⟩ <;>
  · rw [hresult] at hspared
    exact hspared

/-- A record that cannot be made is what the tick fails with. -/
lemma tick_unrecorded (hdue : S.rates.evaluates t.course.iteration = true)
    (htrack : trackObjective A t = .ok () v) (hdecision : (v.course.judge A v.world.now).2 = .ok d)
    (hrow : (v.course.judge A v.world.now).1.row A = .error e) :
    ∃ u, tick A S print t = .error e u := by
  have hrecord : record A { v with course := (v.course.judge A v.world.now).1 } = .error e
      { v with course := (v.course.judge A v.world.now).1 } := by
    rw [record, hrow]
  rw [tick, work_of_decided hdue htrack hdecision, bind_of_error hrecord]
  exact ⟨_, rfl⟩

/-- In one of the first `k` ticks the run comes to `v`, and its rule decides there. -/
def DecidesWithin (A : Algorithm α σ κ) (S : Settings) (print : Bool) (k : ℕ)
    (o v : Scene α σ κ) : Prop :=
  ∃ j < k, ∃ t d, drive A S print j o = (t, .going) ∧
    S.rates.evaluates t.course.iteration = true ∧ trackObjective A t = .ok () v ∧
    (v.course.judge A v.world.now).2 = .ok d

/-- What a run comes to is what it comes to from any earlier point. -/
lemma drive_later (hjk : j ≤ k) (hj : drive A S print j o = (u, st'))
    (hd : drive A S print k o = (t, st)) :
    u.course.records.toList <+: t.course.records.toList ∧ (st' = .going ∨ st' = st) := by
  obtain ⟨m, rfl⟩ := Nat.exists_eq_add_of_le hjk
  cases hst : st'.goesOn with
  | false =>
    cases (drive_of_ended hj hst m).symm.trans hd
    exact ⟨List.prefix_rfl, Or.inr rfl⟩
  | true =>
    cases st' with
    | going => exact ⟨drive_records ((drive_add hj m).symm.trans hd), Or.inl rfl⟩
    | satisfied | failed => cases hst

/-- **Every evaluation** that comes to a decision leaves its record, or the run fails. -/
theorem drive_recorded (hd : drive A S print k o = (t, st)) (hv : DecidesWithin A S print k o v) :
    (∃ r ∈ t.course.records, (v.course.judge A v.world.now).1.row A = .ok r) ∨
      ∃ e, st = .failed e ∧ (v.course.judge A v.world.now).1.row A = .error e := by
  obtain ⟨j, hj, u, d, hgoing, hdue, htrack, hdecision⟩ := hv
  rcases hnext : drive A S print (j + 1) o with ⟨u', st'⟩
  obtain ⟨hgrown, hst⟩ := drive_later (Nat.succ_le_of_lt hj) hnext hd
  rw [drive_succ hgoing] at hnext
  cases hrow : (v.course.judge A v.world.now).1.row A with
  | ok r =>
    left
    refine ⟨r, ?_, rfl⟩
    have hrecorded : (ending (tick A S print u)).course.records = u.course.records.push r :=
      tick_recorded hdue htrack hdecision hrow
    have hending : ending (tick A S print u) = u' := by
      rcases htick : tick A S print u with ⟨goesOn, w⟩ | ⟨e, w⟩
      · rw [htick] at hnext
        cases goesOn <;> (cases hnext; rfl)
      · rw [htick] at hnext
        cases hnext
        rfl
    rw [hending] at hrecorded
    refine Array.mem_toList_iff.mp (hgrown.subset ?_)
    rw [hrecorded, Array.mem_toList_iff]
    exact Array.mem_push_self
  | error e =>
    right
    obtain ⟨w, hfailed⟩ : ∃ w, tick A S print u = .error e w :=
      tick_unrecorded hdue htrack hdecision hrow
    rw [hfailed] at hnext
    cases hnext
    exact ⟨e, (hst.resolve_left nofun).symm, rfl⟩

end Scene

/-! ## The criterion of a run -/

namespace Course

variable {A : Algorithm α σ (Criterion α)} {c : Course α σ (Criterion α)} {r : Row α}
  {entries : List (String × Number α)}

/-- The record holds everything that the leaves of the criterion report. -/
def Keeps (A : Algorithm α σ (Criterion α)) (c : Course α σ (Criterion α)) (r : Row α) : Prop :=
  ∀ l ∈ c.tree.leaves, ∃ own, l.info (Observation.memoryOf (c.bindings A)) = .ok own ∧
    ∀ e ∈ own, r.Has e

/-- It does if the leaves are about different things. -/
lemma keeps_of_topics (hinfo : c.tree.info (Observation.memoryOf (c.bindings A)) = .ok entries)
    (hholds : r.Holds entries) (htopics : c.tree.topics.Nodup) : c.Keeps A r := by
  intro l hl
  obtain ⟨all, hall, hretains⟩ := Criterion.retains_of_topics hinfo htopics
  cases hinfo.symm.trans hall
  obtain ⟨own, hown, hsub⟩ := hretains l hl
  exact ⟨own, hown, fun e he => hholds.every e (hsub he)⟩

end Course

namespace Scene

variable {A : Algorithm α σ (Criterion α)} {S : Settings} {print : Bool}
  {o v : Scene α σ (Criterion α)} {k : ℕ}

/-- What an evaluation leaves. -/
def evaluated (A : Algorithm α σ (Criterion α)) (v : Scene α σ (Criterion α)) :
    Course α σ (Criterion α) := (v.course.judge A v.world.now).1

/-- An evaluation has evaluated every leaf, and they are about what they were about at the start. -/
lemma DecidesWithin.tree (hv : DecidesWithin A S print k o v) :
    (v.evaluated A).tree.leaves
        = v.course.tree.leaves.map (fun l => (l.stop (v.course.observe A v.world.now)).1) ∧
      (v.evaluated A).tree.topics = o.course.tree.topics := by
  obtain ⟨j, -, t, d, hgoing, -, htrack, hdecision⟩ := hv
  have hstop := Course.tree_stop A v.course v.world.now
  have hdecided : (v.course.tree.stop (v.course.observe A v.world.now)).2 = .ok d := by
    rw [hstop, hdecision]
  have hafter : (v.course.tree.stop (v.course.observe A v.world.now)).1 = (v.evaluated A).tree := by
    rw [hstop]
    rfl
  rw [← hafter]
  refine ⟨Criterion.leaves_of_decided hdecided, ?_⟩
  rw [Criterion.topics_stop, tree_tracked htrack, ← Criterion.topics_clear 0, drive_renewed hgoing,
    Criterion.topics_clear]

end Scene

namespace Solver

/-- **What is reported of combined criteria, and recorded.**  A tree of criteria has statistics exactly
if all of its leaves have.  Under each label it reports what the last leaf with this label does, so it
reports everything that its leaves do exactly if those that use the same label report the same number;
which they do if no two leaves are of the same kind and look at the same variable.  Whoever advances a
run, every evaluation that comes to a decision evaluates all leaves, and leaves a record, unless the
record cannot be made and the run fails with this.  The record holds what the tree reports and nothing
else, and so everything that the leaves do if no two leaves of the criterion that the run has started
with, and of the recorder of its objective, are of the same kind and look at the same variable. -/
theorem statistics_recorded :
    (∀ (c : Criterion α) (m : Memory α),
      ((∃ entries, c.info m = .ok entries) ↔ ∀ l ∈ c.leaves, ∃ own, l.info m = .ok own) ∧
      ∀ entries, c.info m = .ok entries →
        (∀ label n, (label, n) ∈ entries ↔
          c.leaves.reverse.findSome? (·.statistic m label) = some n) ∧
        (c.Retains m ↔ c.Consistent m) ∧ (c.topics.Nodup → c.Retains m)) ∧
    ∀ (s : Solver α σ (Criterion α)) (w : World α) args u rule w₀, s.Opening w args u rule w₀ →
      ∀ s' faults, s.Advanced w args s' faults →
        ∃ k t st, Scene.drive s.algorithm s.settings (s.prints args.mode) k
            (firstScene args u rule w₀) = (t, st) ∧ s'.phase = .running t.course ∧
          st.failure.toList ⊆ faults ∧
          ∀ v, Scene.DecidesWithin s.algorithm s.settings (s.prints args.mode) k
              (firstScene args u rule w₀) v →
            (v.evaluated s.algorithm).tree.leaves = v.course.tree.leaves.map
              (fun l => (l.stop (v.course.observe s.algorithm v.world.now)).1) ∧
            ((∃ e ∈ faults, (v.evaluated s.algorithm).row s.algorithm = .error e) ∨
              ∃ r ∈ s'.records, r.iteration = v.course.iteration ∧
                (∃ entries, r.Holds entries ∧ (v.evaluated s.algorithm).tree.info
                  (Observation.memoryOf ((v.evaluated s.algorithm).bindings s.algorithm))
                    = .ok entries) ∧
                ((firstCourse args u rule w₀).tree.topics.Nodup →
                  (v.evaluated s.algorithm).Keeps s.algorithm r)) := by
  refine ⟨fun c m => ⟨Criterion.info_ok_iff c m, fun entries h => ⟨fun label n => ?_,
    Criterion.retains_iff h, Criterion.retains_of_topics h⟩⟩, ?_⟩
  · rw [← Criterion.statistic_tree h, Criterion.statistic_eq_some_iff h]
  · intro s w args u rule w₀ hopening s' faults hadvanced
    obtain ⟨c, hphase, hbrought⟩ := advanced_brought hopening.begins hadvanced
    obtain ⟨k, t, st, hd, rfl, hfaults⟩ := hbrought.driven
    refine ⟨k, t, st, hd, hphase, hfaults, fun v hv => ⟨hv.tree.1, ?_⟩⟩
    have hrecords : s'.records = t.course.records := by rw [records, hphase]
    rcases Scene.drive_recorded hd hv with ⟨r, hr, hrow⟩ | ⟨e, rfl, hrow⟩
    · right
      obtain ⟨hiteration, entries, hinfo, hholds⟩ := Course.row_holds hrow
      rw [Course.tree_info] at hinfo
      refine ⟨r, hrecords ▸ hr, ?_, ⟨entries, hholds, hinfo⟩, fun htopics => ?_⟩
      · rw [hiteration, Scene.judge_keeps]
      · refine Course.keeps_of_topics hinfo hholds ?_
        exact hv.tree.2.symm ▸ htopics
    · exact Or.inl ⟨e, hfaults (List.mem_singleton_self e), hrow⟩

end Solver

/-! ## A change and a recorder -/

/-- The variable is recorded, and its change is watched. -/
def pairRule : Criterion Float := .both (twinRule 1) (.ofVariable "x")

/-- A manual run under both. -/
def pairArguments : FitArguments Float (Criterion Float) := ⟨.manual, some pairRule, false, []⟩

/-- The run at its start. -/
def pairFit : Solver Float ℕ (Criterion Float) × World Float × Except Fault Unit :=
  twinSolver.fit 0 ⟨.empty, 0, #[]⟩ pairArguments

/-- The run after three items have been asked for. -/
def pairPulled : Solver Float ℕ (Criterion Float) × World Float × List (Solver.Pulled Float) :=
  Solver.pullAll [(.null, 3)] pairFit.1 pairFit.2.1

/-- Both have labels of their own, so every record holds what both report. -/
theorem pair_recorded :
    pairPulled.1.records.toList.map Row.labels
      = [["AbsChange[x]", "Memorize[x]_min", "Memorize[x]_max"],
        ["AbsChange[x]", "Memorize[x]_min", "Memorize[x]_max"]] ∧
    ∃ k t st, Scene.drive twin twinSolver.settings (twinSolver.prints .manual) k
        (Solver.firstScene pairArguments 0 pairRule twinWorld) = (t, st) ∧
      pairPulled.1.phase = .running t.course ∧
      ∀ v, Scene.DecidesWithin twin twinSolver.settings (twinSolver.prints .manual) k
          (Solver.firstScene pairArguments 0 pairRule twinWorld) v →
        ∃ r ∈ pairPulled.1.records, r.iteration = v.course.iteration ∧
          (v.evaluated twin).Keeps twin r := by
  have hopening : twinSolver.Opening ⟨.empty, 0, #[]⟩ pairArguments 0 pairRule twinWorld :=
    ⟨rfl, rfl, rfl, rfl⟩
  have hfit : twinSolver.fit 0 ⟨.empty, 0, #[]⟩ pairArguments
      = (pairFit.1, pairFit.2.1, .ok ()) := rfl
  have hpull : Solver.pullAll [(.null, 3)] pairFit.1 pairFit.2.1
      = (pairPulled.1, pairPulled.2.1, pairPulled.2.2) := rfl
  have hnone : pairPulled.2.2.filterMap (·.failure) = [] := rfl
  have htopics : (Solver.firstCourse pairArguments 0 pairRule twinWorld).tree.topics.Nodup := by
    decide
  obtain ⟨-, hruns⟩ := Solver.statistics_recorded (α := Float) (σ := ℕ)
  obtain ⟨k, t, st, hd, hphase, -, hdecided⟩ :=
    hruns _ _ _ _ _ _ hopening _ _ (.manual rfl hfit hpull)
  refine ⟨rfl, k, t, st, hd, hphase, fun v hv => ?_⟩
  obtain ⟨-, ⟨e, he, -⟩ | ⟨r, hr, hiteration, -, hkeeps⟩⟩ := hdecided v hv
  · rw [hnone] at he
    cases he
  · exact ⟨r, hr, hiteration, hkeeps htopics⟩

/-! ## Two norms of one variable -/

section

open Exact NdArray

/-- The statistics of a single norm. -/
lemma summary_of_reads {V : NdArray Exact} {s : Shape} {F : ℕ → Exact} (hV : V.Reads s F)
    (hs : s.size = 1) (label : String) : summary label V = .ok [(label, .real (F 0))] := by
  have hsize : V.size = 1 := by rw [NdArray.size, hV.shape_eq, hs]
  have hentry : V.realAt 0 = F 0 := hV.entry 0 (hs ▸ Nat.one_pos)
  have hscalars : V.toScalars = [F 0] := by
    rw [toScalars, hsize, ← hentry]
    rfl
  rw [summary, if_pos hsize, greatest, if_neg (by rw [hsize]; decide), hscalars]
  rfl

/-- The corner of a rectangle. -/
noncomputable def cornerPoint : NdArray Exact :=
  .tabulate .memory [2] .double fun k => Scalar.ofInt (if k = 0 then 3 else 4)

/-- An evaluation that finds it in the only variable. -/
noncomputable def corner : Observation Exact := ⟨⟨#[cornerPoint]⟩, [("x", .array 0)], 0⟩

/-- Its distance from the origin, in some norm. -/
noncomputable def cornerRule (order : Number Exact) : NormRule Exact :=
  ⟨.real (Scalar.ratio 1 1000), "x", 1, .ok, order, true⟩

lemma cornerPoint_reads : cornerPoint.Reads [2] fun k => finite (if k = 0 then 3 else 4) := by
  refine (tabulate_reads .double _).congr fun k _ => ?_
  split_ifs <;> simp

/-- An evaluation measures the norm. -/
lemma corner_measured (order : Number Exact) (horder : (Number.int 0).atMost order = true) :
    ∃ V decision, (Criterion.ofNorm (cornerRule order)).stop corner
        = (.size (cornerRule order) V, .ok decision) ∧
      ∀ m, (Criterion.size (cornerRule order) V).info m
        = .ok [("AbsError[x]", .real (finite (lpNorm order.order ![3, 4])))] := by
  have hmeasures : order.Measures 1 [2] := ⟨by decide, fun _ => by decide, fun _ => by decide⟩
  obtain ⟨V, hnorm, -, hV⟩ := blockNorm_reads horder hmeasures cornerPoint_reads
  obtain ⟨passed, hpassed, -⟩ := compare_number_marks .atMost hV (cornerRule order).threshold
  have hget : corner.get (cornerRule order).var = .ok (.array cornerPoint) := rfl
  have hmeasure : (cornerRule order).measure (.array cornerPoint) = .ok V := hnorm
  have hevaluate : Criterion.evaluateSize (cornerRule order) corner
      = .ok (V, (cornerRule order).decides passed) := by
    rw [Criterion.evaluateSize, hget]
    show ((cornerRule order).measure (.array cornerPoint) >>= _) = _
    rw [hmeasure]
    show (compare .atMost (.array V) (.number (cornerRule order).threshold) >>= _) = _
    rw [hpassed]
    rfl
  have hpoint : blockOf (fun k => if k = 0 then (3 : ℝ) else 4) 2 0 = ![3, 4] := by
    funext j
    fin_cases j <;> simp [blockOf]
  refine ⟨V, (cornerRule order).decides passed, ?_, fun m => ?_⟩
  · rw [Criterion.ofNorm, Criterion.stop, hevaluate]
  · rw [← hpoint]
    exact summary_of_reads hV rfl _

/-- Both norms at once. -/
noncomputable def cornerTree : Criterion Exact :=
  .both (.ofNorm (cornerRule (.int 1))) (.ofNorm (cornerRule (.real Scalar.inf)))

/-- The sum of the sides is reported as the longer side is, and not seen in the tree. -/
theorem corner_loses : ∃ l l', (cornerTree.stop corner).1.leaves = [l, l'] ∧
    (∀ m, l.info m = .ok [("AbsError[x]", .real (finite 7))]) ∧
    (∀ m, l'.info m = .ok [("AbsError[x]", .real (finite 4))]) ∧
    ∀ m, (cornerTree.stop corner).1.info m = .ok [("AbsError[x]", .real (finite 4))] ∧
      ¬ (cornerTree.stop corner).1.Retains m := by
  have hone : lpNorm (Number.int 1 : Number Exact).order ![3, 4] = 7 := by
    rw [Number.order_of_is Number.is_one, lpNorm_one, Fin.sum_univ_two]
    norm_num
  have hmax : lpNorm (Number.real Scalar.inf : Number Exact).order ![3, 4] = 4 := by
    show lpNorm ⊤ ![(3 : ℝ), 4] = 4
    rw [lpNorm_top]
    have hbounded : BddAbove (Set.range fun j => |![(3 : ℝ), 4] j|) := (Set.finite_range _).bddAbove
    have hfour : |(4 : ℝ)| = 4 := by norm_num
    refine le_antisymm (ciSup_le fun j => ?_) (hfour.ge.trans (le_ciSup hbounded 1))
    fin_cases j <;> norm_num
  obtain ⟨V, d, hstop, hinfo⟩ := corner_measured (.int 1) (by decide)
  obtain ⟨V', d', hstop', hinfo'⟩ := corner_measured (.real Scalar.inf) (by decide)
  rw [hone] at hinfo
  rw [hmax] at hinfo'
  have htree : (cornerTree.stop corner).1
      = .both (.size (cornerRule (.int 1)) V) (.size (cornerRule (.real Scalar.inf)) V') := by
    rw [cornerTree, Criterion.stop, hstop, hstop']
  rw [htree]
  refine ⟨_, _, rfl, hinfo, hinfo', fun m => ?_⟩
  have htotal : (Criterion.both (.size (cornerRule (.int 1)) V)
      (.size (cornerRule (.real Scalar.inf)) V')).info m
        = .ok [("AbsError[x]", .real (finite 4))] := by
    rw [Criterion.info, hinfo, hinfo']
    rfl
  refine ⟨htotal, ?_⟩
  rintro ⟨entries, hentries, hretains⟩
  cases htotal.symm.trans hentries
  obtain ⟨own, hown, hsub⟩ := hretains _ List.mem_cons_self
  cases (hinfo m).symm.trans hown
  have hlost := List.mem_singleton.mp (hsub List.mem_cons_self)
  norm_num at hlost

end

end PrimalDual
