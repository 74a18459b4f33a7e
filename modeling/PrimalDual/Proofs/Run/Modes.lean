import PrimalDual.Proofs.Run.Alike
import PrimalDual.Proofs.Run.Completion

/-!
# The modes agree

Whoever advances a run, it comes to the same.  A blocking run, a run in the background that is left
to its worker and then stopped, and a manual run that is pulled until it is over, from one solver
with the same arguments, leave the same state of the algorithm, the same records and the same files,
and raise the same failure, once.  The pulls hand out the logged variables after each step that has
succeeded, however they are portioned.

* `begin_ok_alike` — the modes begin alike.
* `Succeeded`, `succeeded_of_drive` — which steps of a run have succeeded.
* `block_ends`, `pulls_end` — a blocking run and a manual run come to the end of the one in the
  background.
* **`modes_agree`** — the modes agree.

The records of the run have to make a table: a pull shows the table of the records so far along with
the logged variables, and is refused if there is none.
-/

namespace PrimalDual

variable {α σ κ : Type} [Scalar α] [StoppingRule α κ]

/-- The same arguments for a run of another mode. -/
def FitArguments.inMode (args : FitArguments α κ) (m : Mode) : FitArguments α κ :=
  { args with mode := m }

namespace Solver

variable {s s₁ s₂ s₃ : Solver α σ κ} {w w₁ w₂ : World α} {args : FitArguments α κ}

/-! ## Beginnings -/

omit [Scalar α] [StoppingRule α κ] in
lemma noted_agrees (s : Solver α σ κ) (p q : Bool) (u : σ) (w : World α) :
    (s.noted p u w).Agrees (s.noted q u w) := by
  rw [noted, noted]
  cases s.algorithm.note u with
  | none => exact World.Agrees.refl w
  | some entry => exact (World.Agrees.refl w).log _ _

/-- What is printed has no influence on how a run is set up. -/
lemma prepare_alike (p q : Bool) (m m' : Mode) :
    (prepare { s with printing := p } w (args.inMode m)).2.2
        = (prepare { s with printing := q } w (args.inMode m')).2.2 ∧
      (prepare { s with printing := p } w (args.inMode m)).1.phase
        = (prepare { s with printing := q } w (args.inMode m')).1.phase ∧
      (prepare { s with printing := p } w (args.inMode m)).2.1.Agrees
        (prepare { s with printing := q } w (args.inMode m')).2.1 := by
  rw [prepare, prepare]
  dsimp only [FitArguments.inMode]
  cases s.algorithm.start args.parameters with
  | error e => exact ⟨rfl, rfl, (World.Agrees.refl w).log _ _⟩
  | ok u =>
    have hnote : (s.noted p u w).Agrees (s.noted q u w) := noted_agrees s p q u w
    have hcourse (rule : κ) := congrArg (fun now => Phase.running (α := α)
      (initialCourse u (StoppingRule.clear now rule) args.tracking)) hnote.now
    cases args.rule with
    | some rule => exact ⟨rfl, hcourse rule, hnote⟩
    | none =>
      dsimp only
      cases s.algorithm.rule u with
      | error e => exact ⟨rfl, rfl, hnote.log _ _⟩
      | ok rule => exact ⟨rfl, hcourse rule, hnote⟩

lemma begin_alike (s : Solver α σ κ) (w : World α) (args : FitArguments α κ) (m m' : Mode) :
    (s.begin w (args.inMode m)).2.2 = (s.begin w (args.inMode m')).2.2 ∧
      (s.begin w (args.inMode m)).1.phase = (s.begin w (args.inMode m')).1.phase ∧
      (s.begin w (args.inMode m)).2.1.Agrees (s.begin w (args.inMode m')).2.1 := by
  rw [begin, begin]
  rcases s.openLog w with ⟨w₁, e | ⟨⟩⟩
  · exact ⟨rfl, rfl, World.Agrees.refl w₁⟩
  · exact prepare_alike (s := { s.close with phase := .blank #[] }) _ _ m m'

/-- All modes begin a run of the same course. -/
lemma begin_ok_alike {c : Course α σ κ} {m : Mode} (m' : Mode)
    (h : s.begin w (args.inMode m) = (s.begun m c, w₁, .ok ())) :
    ∃ w₂, s.begin w (args.inMode m') = (s.begun m' c, w₂, .ok ()) ∧ w₂.Agrees w₁ := by
  obtain ⟨houtcome, hphase, hworld⟩ := begin_alike s w args m' m
  rcases hbegin : s.begin w (args.inMode m') with ⟨s', w', outcome⟩
  rw [h, hbegin] at houtcome hphase hworld
  cases houtcome
  obtain ⟨u, rule, -, rfl⟩ := begin_ok hbegin
  have hc : firstCourse (args.inMode m') u rule w' = c := Phase.running.inj hphase
  rw [hc]
  exact ⟨w', rfl, hworld⟩

/-! ## The steps of a worker -/

/-- The first `T` steps of a run that `s` advances on its own have succeeded, and no other one has
by the time that the run is that of `s'`. -/
structure Succeeded (s : Solver α σ κ) (w : World α) (s' : Solver α σ κ) (T : ℕ) : Prop where
  steps : ∀ i < T, ∃ u, (work i s w).1.state? = some u ∧
    (work (i + 1) s w).1.state? = some (s.algorithm.step u).state ∧
    (s.algorithm.step u).outcome = .ok ()
  rest : ∃ c, s'.phase = .running c ∧ (c.iteration = T ∨ c.iteration = T + 1 ∧
    ∃ u e, (work T s w).1.state? = some u ∧ (s.algorithm.step u).outcome = .error e)

section

variable {c : Course α σ κ} {k i T : ℕ} {t u : Scene α σ κ} {st : Standing}

lemma work_state (h : Scene.drive s.algorithm s.settings s.printing i ⟨c, w⟩ = (t, st))
    (hs : s.phase = .running c) (hactive : s.active = true) (hfailure : s.failure = none) :
    (work i s w).1.state? = some t.course.state := by
  rw [work_eq h hs hactive hfailure]
  rfl

lemma work_logged (hs : s.phase = .running c) (hactive : s.active = true)
    (hfailure : s.failure = none) : Scene.items s.algorithm s.settings s.printing T ⟨c, w⟩
      = (List.range T).map fun i => (work (i + 1) s w).1.logged := by
  rw [Scene.items]
  refine List.map_congr_left fun i _ => ?_
  rcases h : Scene.drive s.algorithm s.settings s.printing (i + 1) ⟨c, w⟩ with ⟨t, st⟩
  rw [work_eq h hs hactive hfailure]
  rfl

/-- The ticks of a worker before the last one have taken their steps. -/
lemma succeeded_of_drive {s' : Solver α σ κ} (hc : c.iteration = 0)
    (hs : s.phase = .running c) (hactive : s.active = true) (hfailure : s.failure = none)
    (hgoing : Scene.drive s.algorithm s.settings s.printing T ⟨c, w⟩ = (u, .going))
    (hend : Scene.drive s.algorithm s.settings s.printing (T + 1) ⟨c, w⟩ = (t, st))
    (hst : st.goesOn = false) (hs' : s'.phase = .running t.course) : Succeeded s w s' T := by
  refine ⟨?_, t.course, hs', ?_⟩
  · intro i hi
    obtain ⟨m, rfl⟩ := Nat.exists_eq_add_of_le (Nat.succ_le_of_lt hi)
    obtain ⟨v', hv'⟩ := Scene.exists_going hgoing
    obtain ⟨v, hv⟩ := Scene.exists_going (m := 1) hv'
    obtain ⟨houtcome, hstate, -⟩ := Scene.tick_going (Scene.tick_of_going hv hv')
    refine ⟨v.course.state, work_state hv hs hactive hfailure, ?_, houtcome⟩
    rw [work_state hv' hs hactive hfailure, hstate]
  · have hiteration : u.course.iteration = T := by
      rw [Scene.iteration_of_going hgoing, hc, Nat.zero_add]
    cases st with
    | going => cases hst
    | satisfied =>
      left
      rw [(Scene.tick_satisfied (Scene.tick_of_satisfied hgoing hend)).iteration, hiteration]
    | failed e =>
      rcases Scene.tick_failed (Scene.tick_of_failed hgoing hend) with hstays | hmoves
      · left
        rw [hstays.iteration, hiteration]
      · right
        rw [hmoves.iteration, hiteration]
        exact ⟨rfl, u.course.state, e, work_state hgoing hs hactive hfailure, hmoves.outcome⟩

end

/-! ## Pulls that are not refused -/

/-- A bound on the number of steps that a caller may give: none, or a number. -/
def IsBound (v : Value α) : Prop := v = .null ∨ ∃ n, v = .number n

omit [StoppingRule α κ] in
lemma allowsMore_ok {bound : Value α} {e : Fault} (h : IsBound bound) (j : ℕ) :
    allowsMore bound j ≠ .error e := by
  rcases h with rfl | ⟨n, rfl⟩
  · rw [allowsMore]
    exact nofun
  · rw [allowsMore]
    exact nofun

/-- Records with the labels of one another. -/
def SameLabels (rows : List (Row α)) : Prop := ∀ r ∈ rows, ∀ r' ∈ rows, r.labels = r'.labels

omit [Scalar α] in
/-- Records make a table at every point of a run if they do at its end. -/
lemma ofRows_ok {rows rows' : List (Row α)} {e : Fault} (h : rows <+: rows')
    (hlabels : SameLabels rows') : History.ofRows rows ≠ .error e := by
  cases rows with
  | nil => exact nofun
  | cons first rest =>
    have hall : ∀ r ∈ first :: rest, r.labels = first.labels := fun r hr =>
      hlabels r (h.subset hr) first (h.subset List.mem_cons_self)
    rw [History.ofRows, dif_pos hall]
    exact nofun

/-! ## The end of a run

The run in the background is followed by its ticks from `c`, and the other modes are compared with
it.
-/

/-- The run of `s` is over, and has come to `t`. -/
structure EndsAt (s : Solver α σ κ) (w : World α) (t : Scene α σ κ) : Prop where
  closed : s.mode = none
  phase : s.phase = .running t.course
  world : w.Agrees t.world

section

variable {c : Course α σ κ} {k : ℕ} {t : Scene α σ κ} {st : Standing}

lemma block_ends
    (hbegin : s.begin w (args.inMode .background) = (s.begun .background c, w₁, .ok ()))
    (hd : Scene.drive s.algorithm s.settings (s.prints .background) k ⟨c, w₁⟩ = (t, st))
    (hst : st.goesOn = false) {m : ℕ} (hm : k ≤ m) :
    ∃ s' w', s.fit m w (args.inMode .block) = (s', w', raised st.failure) ∧ EndsAt s' w' t := by
  obtain ⟨w', hblock, hw'⟩ := begin_ok_alike .block hbegin
  obtain ⟨r, rfl⟩ := Nat.exists_eq_add_of_le hm
  have hstart : Scene.Agrees ⟨c, w'⟩ ⟨c, w₁⟩ := ⟨rfl, hw'⟩
  rcases hb : Scene.drive s.algorithm s.settings (s.prints .block) (k + r) ⟨c, w'⟩ with ⟨t', st'⟩
  obtain ⟨t'', ht'', hagrees⟩ := Scene.exists_drive_alike hstart hb
  cases (Scene.drive_of_ended hd hst r).symm.trans ht''
  refine ⟨_, _, fit_block rfl hblock rfl rfl hb, rfl, ?_, hagrees.world⟩
  exact congrArg Phase.running hagrees.course

/-- What comes of pulls, in whatever portions, once they have closed the run. -/
structure PulledOut (outs : List (Pulled α)) (items : List (Parameters α))
    (failure : Option Fault) : Prop where
  items : handedOut outs = items
  once : ∃ before last after, outs = before ++ last :: after ∧ (∀ o ∈ before, o.failure = none) ∧
    last.failure = failure ∧ ∀ o ∈ after, o.Idle

omit [Scalar α] [StoppingRule α κ] in
/-- Pulls that find no open run hand out nothing. -/
lemma handedOut_idle {before after : List (Pulled α)} (h : ∀ o ∈ after, o.Idle) :
    handedOut (before ++ after) = handedOut before := by
  have hnone : handedOut after = [] := by
    rw [handedOut, List.flatMap_eq_nil_iff]
    exact fun o ho => (h o ho).1
  rw [handedOut, List.flatMap_append, ← handedOut, ← handedOut, hnone, List.append_nil]

/-- On the way to the end of a run, its records make a table if they do in the end. -/
lemma ofRows_of_going {print : Bool} {j T : ℕ} {u : Scene α σ κ} {e : Fault}
    (hgoing : Scene.drive s.algorithm s.settings print j ⟨c, w⟩ = (u, .going))
    (hend : Scene.drive s.algorithm s.settings print T ⟨c, w⟩ = (t, st))
    (hst : st.goesOn = false) (hlabels : SameLabels t.course.records.toList) :
    History.ofRows u.course.records.toList ≠ .error e := by
  have hrest : Scene.drive s.algorithm s.settings print T u = (t, st) := by
    rw [← Scene.drive_add hgoing, Nat.add_comm, Scene.drive_of_ended hend hst]
  exact ofRows_ok (Scene.drive_records hrest) hlabels

/-- Pulls that close an open run come to what the ticks of an alike run come to. -/
lemma pulls_end {print : Bool} {s' : Solver α σ κ} {w' : World α} {T : ℕ} {u : Scene α σ κ}
    {pulls : List (Value α × ℕ)} {outs : List (Pulled α)} (hs : s.phase = .running c)
    (hmode : s.mode = some .manual) (hw : w.Agrees w₁)
    (hgoing : Scene.drive s.algorithm s.settings print T ⟨c, w₁⟩ = (u, .going))
    (hend : Scene.drive s.algorithm s.settings print (T + 1) ⟨c, w₁⟩ = (t, st))
    (hst : st.goesOn = false) (hlabels : SameLabels t.course.records.toList)
    (hbounds : ∀ p ∈ pulls, IsBound p.1) (hpull : pullAll pulls s w = (s', w', outs))
    (hclosed : s'.mode = none) :
    EndsAt s' w' t ∧
      PulledOut outs (Scene.items s.algorithm s.settings print T ⟨c, w₁⟩) st.failure := by
  have hstart : Scene.Agrees ⟨c, w⟩ ⟨c, w₁⟩ := ⟨rfl, hw⟩
  have htaken := pullAll_taken (w := w) pulls hs hmode
  rw [hpull] at htaken
  cases htaken with
  | going h =>
    rw [hmode] at hclosed
    cases hclosed
  | @ended j v' t' st' before after last hgoing' hend' hst' hitems hbefore hlast hafter =>
    -- there is one last number of ticks that an alike run goes on for
    obtain ⟨v, hv, -⟩ := Scene.exists_drive_alike (q := print) hstart hgoing'
    obtain ⟨t'', ht'', hagrees⟩ := Scene.exists_drive_alike (q := print) hstart hend'
    cases Scene.last_going_unique hgoing hend hst hv ht'' hst'
    cases hend.symm.trans ht''
    refine ⟨⟨rfl, congrArg Phase.running hagrees.course, hagrees.world⟩, ?_,
      before, last, after, rfl, hbefore, hlast, hafter⟩
    rw [List.append_cons, handedOut_idle hafter, hitems]
    exact Scene.items_alike hstart T
  | @refused j t' e o bound count _ h ho hfailure hpulled hrefused =>
    rcases hrefused with ⟨i, hi⟩ | hrows
    · exact absurd hi (allowsMore_ok (hbounds _ hpulled) i)
    · obtain ⟨v, hv, hagrees⟩ := Scene.exists_drive_alike (q := print) hstart h
      rw [hagrees.course] at hrows
      exact absurd hrows (ofRows_of_going hv hend hst hlabels)

end

/-- The runs are over and have come to the same: the state of the algorithm with the iteration, the
rule and the records, and the files and the time. -/
structure EndsAlike (s : Solver α σ κ) (w : World α) (s' : Solver α σ κ) (w' : World α) : Prop where
  closed : s.mode = none ∧ s'.mode = none
  phase : s.phase = s'.phase
  world : w.Agrees w'

/-- **The modes agree.** The run in the background, left to its worker and then stopped, is the one
that the others are compared with; `T` is the number of its steps that have succeeded. -/
theorem modes_agree {n k : ℕ} {outcome : Except Fault Unit}
    (hfit : s.fit n w (args.inMode .background) = (s₁, w₁, .ok ()))
    (hwork : work k s₁ w₁ = (s₂, w₂)) (hover : s₂.active = false)
    (hstop : s₂.stop = (s₃, outcome)) (hlabels : SameLabels s₃.records.toList) :
    ∃ T failure, outcome = raised failure ∧ Succeeded s₁ w₁ s₃ T ∧
      (∀ m ≥ k, ∃ s' w', s.fit m w (args.inMode .block) = (s', w', outcome) ∧
        EndsAlike s' w' s₃ w₂) ∧
      ∀ m, ∃ s₄ w₄, s.fit m w (args.inMode .manual) = (s₄, w₄, .ok ()) ∧
        ∀ pulls : List (Value α × ℕ), (∀ p ∈ pulls, IsBound p.1) →
          ∀ s' w' outs, pullAll pulls s₄ w₄ = (s', w', outs) → s'.mode = none →
            EndsAlike s' w' s₃ w₂ ∧
            PulledOut outs ((List.range T).map fun i => (work (i + 1) s₁ w₁).1.logged) failure := by
  obtain ⟨u, rule, w₀, -, hbegin⟩ := begin_of_fit hfit
  rw [fit_background rfl hbegin] at hfit
  cases hfit
  generalize hc : firstCourse (args.inMode .background) u rule w₁ = c at hbegin hwork
  have hzero : c.iteration = 0 := by
    rw [← hc]
    rfl
  rcases hd : Scene.drive s.algorithm s.settings (s.prints .background) k ⟨c, w₁⟩ with ⟨t, st⟩
  rw [work_eq hd rfl rfl rfl] at hwork
  cases hwork
  rw [stop_eq (Or.inr rfl)] at hstop
  cases hstop
  obtain ⟨T, -, v, hgoing, hend⟩ := Scene.exists_last_going hd hover
  refine ⟨T, st.failure, rfl, succeeded_of_drive hzero rfl rfl rfl hgoing hend hover rfl, ?_, ?_⟩
  · intro m hm
    obtain ⟨s', w', hblock, hends⟩ := block_ends hbegin hd hover hm
    exact ⟨s', w', hblock, ⟨hends.closed, rfl⟩, hends.phase, hends.world⟩
  · intro m
    obtain ⟨w₄, hmanual, hw₄⟩ := begin_ok_alike .manual hbegin
    refine ⟨_, _, fit_manual rfl hmanual, ?_⟩
    intro pulls hbounds s' w' outs hpull hclosed
    obtain ⟨hends, hout⟩ := pulls_end (s := { s.begun .manual c with mode := some .manual })
      rfl rfl hw₄ hgoing hend hover hlabels hbounds hpull hclosed
    refine ⟨⟨⟨hends.closed, rfl⟩, hends.phase, hends.world⟩, ?_⟩
    rw [← work_logged rfl rfl rfl]
    exact hout

end Solver

/-! ## The counter in all modes -/

/-- A run of the counter in a mode. -/
def counterFit (fuel : ℕ) (m : Mode) :
    Solver Float ℕ (Criterion Float) × World Float × Except Fault Unit :=
  counterSolver.fit fuel ⟨.empty, 0, #[]⟩ ((counterArguments .block).inMode m)

/-- The run in the background after five ticks of its worker. -/
def counterWorked : Solver Float ℕ (Criterion Float) × World Float :=
  Solver.work 5 (counterFit 0 .background).1 (counterFit 0 .background).2.1

/-- The manual run after three items, one further step, and whatever is left. -/
def counterPulled : Solver Float ℕ (Criterion Float) × World Float × List (Solver.Pulled Float) :=
  Solver.pullAll [(.null, 3), (.number (.int 1), 2), (.null, 5)] (counterFit 0 .manual).1
    (counterFit 0 .manual).2.1

theorem counter_modes_agree : ∃ T,
    Solver.Succeeded (counterFit 0 .background).1 (counterFit 0 .background).2.1
      counterWorked.1.stop.1 T ∧
    Solver.EndsAlike (counterFit 5 .block).1 (counterFit 5 .block).2.1 counterWorked.1.stop.1
      counterWorked.2 ∧
    Solver.EndsAlike counterPulled.1 counterPulled.2.1 counterWorked.1.stop.1 counterWorked.2 ∧
    Solver.PulledOut counterPulled.2.2 ((List.range T).map fun i =>
      (Solver.work (i + 1) (counterFit 0 .background).1 (counterFit 0 .background).2.1).1.logged)
      none := by
  have hlabels : Solver.SameLabels counterWorked.1.stop.1.records.toList := by
    unfold Solver.SameLabels
    decide
  have hfit : counterSolver.fit 0 ⟨.empty, 0, #[]⟩ ((counterArguments .block).inMode .background)
      = ((counterFit 0 .background).1, (counterFit 0 .background).2.1, .ok ()) := rfl
  have hwork : Solver.work 5 (counterFit 0 .background).1 (counterFit 0 .background).2.1
      = (counterWorked.1, counterWorked.2) := rfl
  have hover : counterWorked.1.active = false := rfl
  have hstop : counterWorked.1.stop = (counterWorked.1.stop.1, .ok ()) := rfl
  obtain ⟨T, failure, houtcome, hsteps, hblock, hmanual⟩ :=
    Solver.modes_agree hfit hwork hover hstop hlabels
  refine ⟨T, hsteps, ?_, ?_⟩
  · obtain ⟨s', w', hblocked, hends⟩ := hblock 5 (Nat.le_refl 5)
    have hrun : counterFit 5 .block = (s', w', .ok ()) := hblocked
    rw [hrun]
    exact hends
  · obtain ⟨s₄, w₄, hmanual, hpulls⟩ := hmanual 0
    have hrun : counterFit 0 .manual = (s₄, w₄, .ok ()) := hmanual
    have hclosed : counterPulled.1.mode = none := rfl
    obtain ⟨hends, hout⟩ := hpulls [(.null, 3), (.number (.int 1), 2), (.null, 5)]
      (by simp [Solver.IsBound]) counterPulled.1 counterPulled.2.1 counterPulled.2.2
      (by rw [counterPulled, hrun]) hclosed
    cases failure with
    | none => exact ⟨hends, hout⟩
    | some e => cases houtcome

end PrimalDual
