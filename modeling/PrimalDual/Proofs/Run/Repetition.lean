import PrimalDual.Proofs.Run.Mirror
import PrimalDual.Proofs.Run.Start

/-!
# A solver beside its repetition

Whatever is done with a solver may be done with another one in its own folder and at another time.
If the two are in the same state, they stay so, and every call gives the same result.  If they are
not, they are after the next start of a run: a start leaves nothing of what was before.

* `Solver.moved`, `Solver.Mirrors` — a solver in another folder and at another time.
* `Mirrors.tick`, `Mirrors.work`, `Mirrors.pull`, `Mirrors.stop`, `Mirrors.writeback` — they stay so.
* **`fit_mirrors`** — they are so after a start, whatever they were before.
-/

namespace PrimalDual

variable {α σ : Type}

/-- What there is of a run, with its clocks set later by `d`. -/
def Phase.shift (d : Int) : Phase α σ (Criterion α) → Phase α σ (Criterion α)
  | .running c => .running (c.shift d)
  | phase => phase

namespace Solver

/-- The solver in the folder `p`, with its clocks set later by `d`. -/
def moved (s : Solver α σ (Criterion α)) (p : Path) (d : Int) : Solver α σ (Criterion α) :=
  { s with
    settings := s.settings.inFolder p
    phase := s.phase.shift d }

/-- The solver `s'` is `s` in the folder `p`, `d` later. -/
structure Mirrors (A : Algorithm α σ (Criterion α)) (S : Settings) (p : Path) (d : Int)
    (s : Solver α σ (Criterion α)) (w : World α) (s' : Solver α σ (Criterion α)) (w' : World α) :
    Prop where
  algorithm : s.algorithm = A
  settings : s.settings = S
  moved : s' = s.moved p d
  world : w.Mirrors S (S.inFolder p) d w'

/-- Two calls have the same result, and leave such solvers. -/
inductive Same {β : Type} (A : Algorithm α σ (Criterion α)) (S : Settings) (p : Path) (d : Int) :
    Solver α σ (Criterion α) × World α × β → Solver α σ (Criterion α) × World α × β → Prop
  | intro {s s' : Solver α σ (Criterion α)} {w w' : World α} (h : Mirrors A S p d s w s' w')
      (b : β) : Same A S p d (s, w, b) (s', w', b)

variable {A : Algorithm α σ (Criterion α)} {S : Settings} {p : Path} {d : Int}
  {s s' : Solver α σ (Criterion α)} {w w' : World α}

/-! ## What does not depend on the folder or the time -/

lemma moved_records : (s.moved p d).records = s.records := by
  rcases s with ⟨A, S, _ | _ | _⟩ <;> rfl

lemma moved_state : (s.moved p d).state? = s.state? := by
  rcases s with ⟨A, S, _ | _ | _⟩ <;> rfl

lemma moved_bindings : (s.moved p d).bindings = s.bindings := by
  rcases s with ⟨A, S, _ | _ | _⟩ <;> rfl

lemma moved_logged : (s.moved p d).logged = s.logged := by
  rw [logged, logged, moved_bindings]
  rfl

lemma moved_stats : (s.moved p d).stats = s.stats := by
  rw [stats, stats, moved_records, moved_logged]

/-- The arrays of a solver are stored below the directory of its checkpoints. -/
lemma bindings_settle (hA : s.algorithm.Settled) : ∀ v ∈ s.bindings, Settles v.name := by
  rw [bindings]
  split
  · exact fun v hv => absurd hv List.not_mem_nil
  · exact hA _
  · exact Course.settles hA _

/-! ## Calls -/

namespace Mirrors

lemma close (h : Mirrors A S p d s w s' w') : Mirrors A S p d s.close w s'.close w' := by
  obtain ⟨rfl, rfl, rfl, hw⟩ := h
  exact ⟨rfl, rfl, rfl, hw⟩

/-- A run that is brought to the same phase in both. -/
lemma brought (h : Mirrors A S p d s w s' w') (phase : Phase α σ (Criterion α)) {v v' : World α}
    (hv : v.Mirrors S (S.inFolder p) d v') :
    Mirrors A S p d { s with phase := phase } v { s' with phase := phase.shift d } v' := by
  obtain ⟨rfl, rfl, rfl, -⟩ := h
  exact ⟨rfl, rfl, rfl, hv⟩

lemma logged (h : Mirrors A S p d s w s' w') (entry : LogEntry α) :
    Mirrors A S p d s (w.log s.settings.logFile s.printing entry) s'
      (w'.log s'.settings.logFile s'.printing entry) := by
  obtain ⟨rfl, rfl, rfl, hw⟩ := h
  exact ⟨rfl, rfl, rfl, hw.logged _ _ entry⟩

lemma noted (h : Mirrors A S p d s w s' w') (u : σ) :
    Mirrors A S p d s (s.noted s.printing u w) s' (s'.noted s'.printing u w') := by
  have halgorithm : s'.algorithm = s.algorithm := by
    rw [h.moved]
    rfl
  rw [Solver.noted, Solver.noted, halgorithm]
  cases s.algorithm.note u with
  | none => exact h
  | some entry => exact h.logged entry

lemma stop (h : Mirrors A S p d s w s' w') :
    Same A S p d (s.stop.1, w, s.stop.2) (s'.stop.1, w', s'.stop.2) := by
  have hcheck : s'.checkMode [.background, .block] = s.checkMode [.background, .block] := by
    rw [h.moved]
    rfl
  have hfailure : s'.failure = s.failure := by
    rw [h.moved]
    rfl
  rw [Solver.stop, Solver.stop, hcheck, hfailure]
  cases s.checkMode [.background, .block] with
  | error e => exact .intro h _
  | ok u =>
    cases s.failure with
    | none => exact .intro h.close _
    | some e => exact .intro h.close _

variable [Scalar α]

/-- A tick that finds no run to advance. -/
lemma tick_idle (h : Mirrors A S p d s w s' w') (hphase : ∀ c, s.phase ≠ .running c) :
    Same A S p d (s.tick w) (s'.tick w') := by
  obtain ⟨rfl, rfl, rfl, hw⟩ := h
  obtain ⟨A, S, phase, mode, active, failure, printing⟩ := s
  cases phase with
  | blank | prepared => exact .intro ⟨rfl, rfl, rfl, hw⟩ _
  | running c => exact absurd rfl (hphase c)

lemma tick (hA : A.Settled) (h : Mirrors A S p d s w s' w') :
    Same A S p d (s.tick w) (s'.tick w') := by
  cases hphase : s.phase with
  | blank | prepared =>
    refine h.tick_idle fun c hc => ?_
    rw [hphase] at hc
    cases hc
  | running c =>
    have hphase' : s'.phase = .running (c.shift d) := by
      rw [h.moved, Solver.moved, hphase]
      rfl
    have hmatches : Scene.Matches (Scene.Mirrors S p d)
        (Scene.tick s.algorithm s.settings s.printing ⟨c, w⟩)
        (Scene.tick s'.algorithm s'.settings s'.printing ⟨c.shift d, w'⟩) := by
      obtain ⟨rfl, rfl, rfl, hw⟩ := h
      exact (Scene.mirrors_respects hA).tick _ _ ⟨rfl, hw⟩
    rw [tick_running hphase, tick_running hphase']
    revert hmatches
    generalize Scene.tick s.algorithm s.settings s.printing ⟨c, w⟩ = r
    generalize Scene.tick s'.algorithm s'.settings s'.printing ⟨c.shift d, w'⟩ = r'
    intro hmatches
    cases hmatches with
    | @ok t t' goesOn ht =>
      obtain ⟨c', v'⟩ := t'
      obtain ⟨rfl, hv⟩ := ht
      exact .intro (h.brought (.running _) hv) _
    | @error t t' e ht =>
      obtain ⟨c', v'⟩ := t'
      obtain ⟨rfl, hv⟩ := ht
      exact .intro (h.brought (.running _) hv) _

/-- The workers of two runs do the same. -/
lemma work (hA : A.Settled) (h : Mirrors A S p d s w s' w') (fuel : ℕ) :
    Mirrors A S p d (Solver.work fuel s w).1 (Solver.work fuel s w).2 (Solver.work fuel s' w').1
      (Solver.work fuel s' w').2 := by
  induction fuel generalizing s w s' w' with
  | zero => exact h
  | succ fuel ih =>
    have hactive : s'.active = s.active := by
      rw [h.moved]
      rfl
    have htick := h.tick hA
    rw [Solver.work, Solver.work, hactive]
    cases s.active with
    | false => exact h
    | true =>
      revert htick
      generalize s.tick w = r
      generalize s'.tick w' = r'
      intro htick
      cases htick with
      | intro hnext outcome =>
        rcases outcome with e | goesOn
        · obtain ⟨rfl, rfl, rfl, hw⟩ := hnext
          exact ⟨rfl, rfl, rfl, hw⟩
        · cases goesOn with
          | true => exact ih hnext
          | false =>
            obtain ⟨rfl, rfl, rfl, hw⟩ := hnext
            exact ⟨rfl, rfl, rfl, hw⟩

lemma pullSteps (hA : A.Settled) (h : Mirrors A S p d s w s' w') (bound : Value α)
    (count done : ℕ) :
    Same A S p d (Solver.pullSteps bound count done s w) (Solver.pullSteps bound count done s' w') := by
  induction count generalizing s w s' w' done with
  | zero => exact .intro h _
  | succ count ih =>
    have htick := h.tick hA
    rw [Solver.pullSteps, Solver.pullSteps]
    rcases allowsMore bound done with e | more
    · exact .intro h _
    · cases more with
      | false => exact .intro h _
      | true =>
        dsimp only
        revert htick
        generalize s.tick w = r
        generalize s'.tick w' = r'
        intro htick
        cases htick with
        | @intro s₁ s₂ w₁ w₂ hnext outcome =>
          rcases outcome with e | goesOn
          · exact .intro hnext.close _
          · cases goesOn with
            | false => exact .intro hnext.close _
            | true =>
              have hstats : s₂.stats = s₁.stats := by
                rw [hnext.moved, moved_stats]
              have hrest := ih hnext (done + 1)
              dsimp only
              rw [hstats]
              rcases s₁.stats with e | ⟨data, history⟩
              · exact .intro hnext _
              · dsimp only
                revert hrest
                generalize Solver.pullSteps bound count (done + 1) s₁ w₁ = r
                generalize Solver.pullSteps bound count (done + 1) s₂ w₂ = r'
                intro hrest
                cases hrest with
                | intro hlast rest => exact .intro hlast _

lemma pull (hA : A.Settled) (h : Mirrors A S p d s w s' w') (bound : Value α) (count : ℕ) :
    Same A S p d (Solver.pull bound count s w) (Solver.pull bound count s' w') := by
  have hcheck : s'.checkMode [.manual] = s.checkMode [.manual] := by
    rw [h.moved]
    rfl
  rw [Solver.pull, Solver.pull, hcheck]
  split
  · exact .intro h _
  · split
    · exact .intro h _
    · exact h.pullSteps hA bound count 0

lemma writeback (hA : A.Settled) (h : Mirrors A S p d s w s' w') :
    Same A S p d (s, s.writeback w) (s', s'.writeback w') := by
  have hlogged : s'.logged = loggedValues S s.bindings := by
    rw [h.moved, moved_logged, Solver.logged, h.settings]
  have hrecords : s'.records = s.records := by
    rw [h.moved, moved_records]
  have hsettings : s'.settings = S.inFolder p := by
    rw [h.moved, Solver.moved, h.settings]
  have hbindings : ∀ v ∈ s.bindings, Settles v.name := bindings_settle (h.algorithm ▸ hA)
  obtain ⟨hworld, houtcome⟩ := h.world.saved hbindings s.records
  rw [Solver.writeback, Solver.writeback, hlogged, hrecords, hsettings, Solver.logged, h.settings]
  revert hworld houtcome
  generalize w.saveCheckpoint S s.records (loggedValues S s.bindings) = r
  generalize w'.saveCheckpoint (S.inFolder p) s.records (loggedValues S s.bindings) = r'
  obtain ⟨v, outcome⟩ := r
  obtain ⟨v', outcome'⟩ := r'
  rintro hworld rfl
  exact .intro ⟨h.algorithm, h.settings, h.moved, hworld⟩ _

end Mirrors

/-! ## Starting a run -/

variable [Scalar α] {args : FitArguments α (Criterion α)} {used fresh : Option (Criterion α)}
  {fuel : ℕ}

/-- A rule is started afresh at the time at which it is needed. -/
lemma Mirrors.started {rule rule' : Criterion α} (h : Mirrors A S p d s w s' w') (u : σ)
    (tracking : Bool) (hrule : ∀ now, rule.clear now = rule'.clear now) :
    Mirrors A S p d
      { s with phase := .running (initialCourse u (StoppingRule.clear w.now rule) tracking) } w
      { s' with phase := .running (initialCourse u (StoppingRule.clear w'.now rule') tracking) }
      w' := by
  have hclear : StoppingRule.clear w'.now rule' = (StoppingRule.clear w.now rule).shift d := by
    rw [h.world.clock]
    show rule'.clear (w.now + d) = (rule.clear w.now).shift d
    rw [Criterion.clear_shift, hrule]
  rw [hclear]
  exact h.brought (.running _) h.world

/-- A run is set up alike, and a rule that has been used is as good as a new one. -/
lemma Mirrors.prepare (h : Mirrors A S p d s w s' w') (hrule : Option.Rel Criterion.Used fresh used) :
    Same A S p d (s.prepare w { args with rule := used })
      (s'.prepare w' { args with rule := fresh }) := by
  have halgorithm : s'.algorithm = s.algorithm := by
    rw [h.moved]
    rfl
  cases hstart : s.algorithm.start args.parameters with
  | error e =>
    rw [Solver.prepare, Solver.prepare, halgorithm, hstart]
    exact .intro (h.logged _) _
  | ok u =>
    have hnoted := h.noted u
    have hstart' : s'.algorithm.start args.parameters = .ok u := halgorithm ▸ hstart
    cases hrule with
    | none =>
      have hdefault : ruleFor s' { args with rule := none } u
          = ruleFor s { args with rule := none } u := by
        rw [ruleFor, ruleFor, halgorithm]
      cases hrule : ruleFor s { args with rule := none } u with
      | error e =>
        rw [prepare_of_error { args with rule := none } hstart hrule,
          prepare_of_error { args with rule := none } hstart' (hdefault.trans hrule)]
        exact .intro ((hnoted.brought (.prepared u) hnoted.world).logged _) _
      | ok rule =>
        rw [prepare_of_ok { args with rule := none } hstart hrule,
          prepare_of_ok { args with rule := none } hstart' (hdefault.trans hrule)]
        exact .intro (hnoted.started u args.tracking fun now => rfl) _
    | @some rule rule' hrule =>
      rw [prepare_of_ok { args with rule := some rule' } hstart rfl,
        prepare_of_ok { args with rule := some rule } hstart' rfl]
      exact .intro (hnoted.started u args.tracking hrule.clear_eq) _

/-- A run begins alike, whatever the solvers have been used for. -/
lemma begin_mirrors (hA : s.algorithm = A) (hS : s.settings = S) (hA' : s'.algorithm = A)
    (hS' : s'.settings = S.inFolder p) (hready : S.Ready w.disk)
    (hready' : (S.inFolder p).Ready w'.disk) (hnow : w'.now = w.now + d)
    (hrule : Option.Rel Criterion.Used fresh used) :
    Same A S p d (s.begin w { args with rule := used }) (s'.begin w' { args with rule := fresh }) := by
  have hopened : World.Mirrors S (S.inFolder p) d
      { w with disk := w.disk.put S.logFile (.file #[]) }
      { w' with disk := w'.disk.put (S.inFolder p).logFile (.file #[]) } := by
    refine ⟨hnow, ?_, hready.put _, hready'.put _⟩
    rw [Disk.find?_put_self _ _ _ S.logFile_ne_root,
      Disk.find?_put_self _ _ _ (S.inFolder p).logFile_ne_root]
  rw [begin, begin, openLog_ready (hS ▸ hready), openLog_ready (hS' ▸ hready')]
  refine Mirrors.prepare ⟨hA, hS, ?_, ?_⟩ hrule
  · obtain ⟨A', S', phase, mode, active, failure, printing⟩ := s'
    cases hA'
    cases hS'
    subst hA
    subst hS
    rfl
  · rw [hS, hS']
    exact hopened

/-- **A start leaves nothing** of what was before. -/
theorem fit_mirrors (hA : s.algorithm = A) (hS : s.settings = S) (hA' : s'.algorithm = A)
    (hS' : s'.settings = S.inFolder p) (hready : S.Ready w.disk) (hsettled : A.Settled)
    (hready' : (S.inFolder p).Ready w'.disk) (hnow : w'.now = w.now + d)
    (hrule : Option.Rel Criterion.Used fresh used) :
    Same A S p d (s.fit fuel w { args with rule := used })
      (s'.fit fuel w' { args with rule := fresh }) := by
  have hbegin : Same A S p d (s.begin w { args with rule := used })
      (s'.begin w' { args with rule := fresh }) :=
    begin_mirrors hA hS hA' hS' hready hready' hnow hrule
  rw [fit_eq, fit_eq]
  revert hbegin
  generalize s.begin w { args with rule := used } = r
  generalize s'.begin w' { args with rule := fresh } = r'
  intro hbegin
  cases hbegin with
  | @intro s₁ s₂ w₁ w₂ h outcome =>
    cases outcome with
    | error e => exact .intro h _
    | ok u =>
      dsimp only
      cases args.mode with
      | manual =>
        obtain ⟨rfl, rfl, rfl, hw⟩ := h
        have hopen : Mirrors _ _ p d { s₁ with mode := some .manual } w₁
            { s₁.moved p d with mode := some .manual } w₂ := ⟨rfl, rfl, rfl, hw⟩
        exact .intro hopen _
      | background =>
        obtain ⟨rfl, rfl, rfl, hw⟩ := h
        have hopen : Mirrors _ _ p d { s₁ with mode := some .background, active := true } w₁
            { s₁.moved p d with mode := some .background, active := true } w₂ :=
          ⟨rfl, rfl, rfl, hw⟩
        exact .intro hopen _
      | block =>
        obtain ⟨rfl, rfl, rfl, hw⟩ := h
        have hopen : Mirrors _ _ p d { s₁ with mode := some .block, active := true } w₁
            { s₁.moved p d with mode := some .block, active := true } w₂ := ⟨rfl, rfl, rfl, hw⟩
        exact (hopen.work hsettled fuel).stop

end Solver

end PrimalDual
