import PrimalDual.Proofs.Run.Frame
import PrimalDual.Proofs.Run.Start

/-!
# The steps of a run

The rule, the records, the reports and the checkpoints of a run come between the steps of its
algorithm, and none of them has any influence on these.  Whoever advances a run, and whatever ends
it, its state is the one that the algorithm reaches by itself in as many steps.

* `Algorithm.stepMany` — the algorithm by itself.
* `Course.Follows`, **`drive_follows`** — a run keeps to the steps of its algorithm.
* `Solver.Advanced` — the ways to advance a run, with the failures that come up.
* `Brought`, **`advanced_brought`** — all of them bring it to where ticks do.
* **`advanced_follows`** — so they keep to the steps.
-/

namespace PrimalDual

variable {α σ κ : Type}

namespace Algorithm

/-- At most `k` steps, up to the first that fails. -/
def stepMany (A : Algorithm α σ κ) : ℕ → σ → σ × Except Fault Unit
  | 0, u => (u, .ok ())
  | k + 1, u =>
    match (A.step u).outcome with
    | .ok () => stepMany A k (A.step u).state
    | .error e => ((A.step u).state, .error e)

/-- One more step after some that have not failed. -/
lemma stepMany_succ {A : Algorithm α σ κ} {k : ℕ} {u v : σ} (h : A.stepMany k u = (v, .ok ())) :
    A.stepMany (k + 1) u = ((A.step v).state, (A.step v).outcome) := by
  induction k generalizing u with
  | zero =>
    cases h
    rw [stepMany]
    rcases (A.step v).outcome with e | ⟨⟩ <;> rfl
  | succ k ih =>
    rw [stepMany] at h
    rw [stepMany]
    cases houtcome : (A.step u).outcome with
    | error e =>
      rw [houtcome] at h
      cases h
    | ok a =>
      rw [houtcome] at h
      exact ih h

end Algorithm

/-! ## A run keeps to the steps -/

/-- The course has come to where the steps of the algorithm lead from `u`.  None but the last of them
has failed, and if that one has, its failure is among those that have come up. -/
structure Course.Follows (A : Algorithm α σ κ) (u : σ) (c : Course α σ κ) (faults : List Fault) :
    Prop where
  state : c.state = (A.stepMany c.iteration u).1
  before : ∀ k < c.iteration, (A.stepMany k u).2 = .ok ()
  raised : ∀ e, (A.stepMany c.iteration u).2 = .error e → e ∈ faults

namespace Course.Follows

variable {A : Algorithm α σ κ} {u : σ} {c : Course α σ κ} {t t' : Scene α σ κ}
  {faults more : List Fault} {outcome : Except Fault Unit}

lemma start (h : c.state = u) (hc : c.iteration = 0) : c.Follows A u [] := by
  refine ⟨?_, ?_, ?_⟩
  · rw [hc, h]
    rfl
  · intro k hk
    rw [hc] at hk
    cases hk
  · intro e he
    rw [hc] at he
    cases he

lemma mono (h : c.Follows A u faults) (hmore : faults ⊆ more) : c.Follows A u more :=
  ⟨h.state, h.before, fun e he => hmore (h.raised e he)⟩

/-- While nothing has come up, every step has succeeded. -/
lemma steps (h : c.Follows A u []) : A.stepMany c.iteration u = (c.state, .ok ()) := by
  cases houtcome : (A.stepMany c.iteration u).2 with
  | error e => cases h.raised e houtcome
  | ok a => exact Prod.ext h.state.symm houtcome

lemma stays (h : t.course.Follows A u faults) (hstays : t.Stays t') :
    t'.course.Follows A u faults := by
  obtain ⟨hstate, hiteration, -⟩ := hstays
  refine ⟨?_, ?_, ?_⟩
  · rw [hstate, hiteration]
    exact h.state
  · rw [hiteration]
    exact h.before
  · rw [hiteration]
    exact h.raised

lemma moves (h : t.course.Follows A u []) (hmoves : t.Moves A outcome t')
    (hraised : ∀ e, outcome = .error e → e ∈ faults) : t'.course.Follows A u faults := by
  have hnext := Algorithm.stepMany_succ h.steps
  rw [← hmoves.iteration, hmoves.outcome] at hnext
  refine ⟨?_, ?_, ?_⟩
  · rw [hnext, hmoves.state]
  · intro k hk
    rw [hmoves.iteration] at hk
    rcases Nat.lt_succ_iff_lt_or_eq.mp hk with hlt | rfl
    · exact h.before k hlt
    · rw [h.steps]
  · intro e he
    rw [hnext] at he
    exact hraised e he

end Course.Follows

section

variable [Scalar α] [StoppingRule α κ]

namespace Scene

variable {A : Algorithm α σ κ} {S : Settings} {print : Bool} {k : ℕ} {t t' : Scene α σ κ} {u : σ}
  {st : Standing}

/-- **A run keeps to the steps of its algorithm.** -/
theorem drive_follows (h : t.course.Follows A u []) (hd : drive A S print k t = (t', st)) :
    t'.course.Follows A u st.failure.toList := by
  induction k generalizing t with
  | zero =>
    cases hd
    exact h
  | succ k ih =>
    rw [drive] at hd
    rcases htick : tick A S print t with ⟨goesOn, v⟩ | ⟨e, v⟩
    · rw [htick] at hd
      cases goesOn with
      | true => exact ih (h.moves (tick_going htick) fun e he => by cases he) hd
      | false =>
        cases hd
        exact h.stays (tick_satisfied htick)
    · rw [htick] at hd
      cases hd
      rcases tick_failed htick with hstays | hmoves
      · exact (h.stays hstays).mono (List.nil_subset _)
      · refine h.moves hmoves fun e' he => ?_
        cases he
        exact List.mem_singleton_self e

end Scene

namespace Solver

variable {s s' s₁ : Solver α σ κ} {w w' w₁ : World α} {args : FitArguments α κ} {u : σ}
  {c : Course α σ κ} {faults : List Fault}

/-! ## Whoever advances it -/

/-- A run that has been started and advanced, with the failures that have come up. -/
inductive Advanced (s : Solver α σ κ) (w : World α) (args : FitArguments α κ) :
    Solver α σ κ → List Fault → Prop
  | block {fuel : ℕ} {s' : Solver α σ κ} {w' : World α} {failure : Option Fault}
      (hmode : args.mode = .block) (hfit : s.fit fuel w args = (s', w', raised failure)) :
      Advanced s w args s' failure.toList
  | background {fuel k : ℕ} {s₁ s' : Solver α σ κ} {w₁ w' : World α}
      (hmode : args.mode = .background) (hfit : s.fit fuel w args = (s₁, w₁, .ok ()))
      (hwork : work k s₁ w₁ = (s', w')) : Advanced s w args s' s'.failure.toList
  | manual {fuel : ℕ} {s₁ s' : Solver α σ κ} {w₁ w' : World α} {pulls : List (Value α × ℕ)}
      {outs : List (Pulled α)} (hmode : args.mode = .manual)
      (hfit : s.fit fuel w args = (s₁, w₁, .ok ()))
      (hpull : pullAll pulls s₁ w₁ = (s', w', outs)) :
      Advanced s w args s' (outs.filterMap (·.failure))

/-- What may come up when the run that starts at `o` is advanced.  Either the run fails, or a pull is
refused. -/
inductive Arises (A : Algorithm α σ κ) (S : Settings) (print : Bool) (o : Scene α σ κ) :
    Fault → Prop
  | failed {k : ℕ} {t : Scene α σ κ} {e : Fault} (h : Scene.drive A S print k o = (t, .failed e)) :
      Arises A S print o e
  | closed : Arises A S print o .noRun
  | bound {bound : Value α} {j : ℕ} {e : Fault} (h : allowsMore bound j = .error e) :
      Arises A S print o e
  | table {k : ℕ} {t : Scene α σ κ} {e : Fault} (hgoing : Scene.drive A S print k o = (t, .going))
      (h : History.ofRows t.course.records.toList = .error e) : Arises A S print o e

/-- The run that starts at `o` has been advanced to `c`.  If it has failed there, its failure is among
those that have come up. -/
structure Brought (A : Algorithm α σ κ) (S : Settings) (print : Bool) (o : Scene α σ κ)
    (c : Course α σ κ) (faults : List Fault) : Prop where
  driven : ∃ k t st, Scene.drive A S print k o = (t, st) ∧ t.course = c ∧ st.failure.toList ⊆ faults
  raised : ∀ e ∈ faults, Arises A S print o e

section

variable {A : Algorithm α σ κ} {S : Settings} {print : Bool} {o t : Scene α σ κ} {k : ℕ}
  {st : Standing} {e : Fault}

lemma arises_of_failure (hd : Scene.drive A S print k o = (t, st)) (he : st.failure = some e) :
    Arises A S print o e := by
  cases st with
  | going | satisfied => cases he
  | failed e' =>
    cases he
    exact .failed hd

lemma Arises.after (hgoing : Scene.drive A S print k o = (t, .going)) (h : Arises A S print t e) :
    Arises A S print o e := by
  cases h with
  | failed h => exact .failed ((Scene.drive_add hgoing _).trans h)
  | closed => exact .closed
  | bound h => exact .bound h
  | table hmore h => exact .table ((Scene.drive_add hgoing _).trans hmore) h

namespace Brought

lemma of_drive (hd : Scene.drive A S print k o = (t, st)) :
    Brought A S print o t.course st.failure.toList :=
  ⟨⟨k, t, st, hd, rfl, List.Subset.refl _⟩,
    fun _ he => arises_of_failure hd (Option.mem_toList.mp he)⟩

/-- A run that has been brought somewhere, and further from there. -/
lemma after (hgoing : Scene.drive A S print k o = (t, .going)) (h : Brought A S print t c faults) :
    Brought A S print o c faults := by
  obtain ⟨m, v, st, hd, hc, hfaults⟩ := h.driven
  exact ⟨⟨k + m, v, st, (Scene.drive_add hgoing m).trans hd, hc, hfaults⟩,
    fun e he => (h.raised e he).after hgoing⟩

lemma cons (he : Arises A S print o e) (h : Brought A S print o c faults) :
    Brought A S print o c (e :: faults) := by
  obtain ⟨k, t, st, hd, hc, hfaults⟩ := h.driven
  exact ⟨⟨k, t, st, hd, hc, List.Subset.trans hfaults (List.subset_cons_self _ _)⟩,
    List.forall_mem_cons.mpr ⟨he, h.raised⟩⟩

/-- Wherever a run has been brought, it keeps to the steps. -/
lemma follows (h : Brought A S print o c faults) (ho : o.course.Follows A u []) :
    c.Follows A u faults := by
  obtain ⟨k, t, st, hd, rfl, hfaults⟩ := h.driven
  exact (Scene.drive_follows ho hd).mono hfaults

end Brought

end

/-- Pulls advance a run, in whatever portions they are taken and even if some are refused. -/
lemma pullAll_brought {pulls : List (Value α × ℕ)} {outs : List (Pulled α)}
    (hs : s.phase = .running c) (hmode : s.mode = some .manual)
    (hpull : pullAll pulls s w = (s', w', outs)) :
    ∃ c', s'.phase = .running c' ∧ Brought s.algorithm s.settings s.printing ⟨c, w⟩ c'
      (outs.filterMap (·.failure)) := by
  induction pulls generalizing s s' w w' c outs with
  | nil =>
    cases hpull
    exact ⟨c, hs, .of_drive (k := 0) rfl⟩
  | cons p pulls ih =>
    obtain ⟨bound, count⟩ := p
    have htaken : Taken s bound c w _ := pull_taken count hs hmode
    generalize hone : pull bound count s w = r at htaken
    cases htaken with
    | going hd =>
      rw [pullAll_cons pulls hone] at hpull
      cases hpull
      obtain ⟨c', hc', hbrought⟩ := ih (s := { s with phase := .running _ }) rfl hmode rfl
      exact ⟨c', hc', hbrought.after hd⟩
    | @ended k v t st hgoing hend hst =>
      obtain ⟨after, hafter, hpulls⟩ := pullAll_closed
        (s := { s with phase := .running t.course }.close) (w := t.world) pulls rfl
      rw [pullAll_cons pulls hone, hpulls] at hpull
      cases hpull
      refine ⟨t.course, rfl, ⟨k + 1, t, st, hend, rfl, fun e he => ?_⟩, fun e he => ?_⟩
      · exact List.mem_filterMap.mpr ⟨_, List.mem_cons_self, Option.mem_toList.mp he⟩
      · obtain ⟨o, ho, hfailure⟩ := List.mem_filterMap.mp he
        rcases List.mem_cons.mp ho with rfl | ho
        · exact arises_of_failure hend hfailure
        · rcases (hafter o ho).2 with hnone | hidle
          · cases hnone.symm.trans hfailure
          · cases hidle.symm.trans hfailure
            exact .closed
    | refused items hd hrefused =>
      rw [pullAll_cons pulls hone] at hpull
      cases hpull
      obtain ⟨c', hc', hbrought⟩ := ih (s := { s with phase := .running _ }) rfl hmode rfl
      refine ⟨c', hc', (hbrought.after hd).cons ?_⟩
      rcases hrefused with ⟨j, hbound⟩ | hrows
      · exact .bound hbound
      · exact .table hd hrows

/-- As long as its worker is active, a run takes one step for each tick. -/
lemma work_steps {fuel k : ℕ} {rule : κ} (hlog : (s.openLog w).2 = .ok ())
    (hstart : s.algorithm.start args.parameters = .ok u) (hrule : s.ruleFor args u = .ok rule)
    (hmode : args.mode = .background) (hfit : s.fit fuel w args = (s₁, w₁, .ok ()))
    (hwork : work k s₁ w₁ = (s', w')) (hactive : s'.active = true) :
    ∃ v, s'.state? = some v ∧ s.algorithm.stepMany k u = (v, .ok ()) := by
  obtain ⟨w₀, hbegin⟩ := begin_of_ok hlog hstart hrule
  have hfirst : (firstCourse args u rule w₀).Follows s.algorithm u [] := .start rfl rfl
  rw [fit_background hmode hbegin] at hfit
  cases hfit
  rcases hd : Scene.drive s.algorithm s.settings (s.prints args.mode) k
    ⟨firstCourse args u rule w₁, w₁⟩ with ⟨t, st⟩
  rw [work_eq hd rfl rfl rfl] at hwork
  cases hwork
  cases st with
  | satisfied | failed e => cases hactive
  | going =>
    have hsteps := (Scene.drive_follows (t := ⟨_, w₁⟩) hfirst hd).steps
    rw [Scene.iteration_of_going hd] at hsteps
    exact ⟨t.course.state, rfl, (Nat.zero_add k) ▸ hsteps⟩

/-- Whoever advances a run, and whatever comes up, it is brought to where ticks bring it. -/
theorem advanced_brought {rule : κ} {w₀ : World α}
    (hbegin : s.begin w args = (s.begun args.mode (firstCourse args u rule w₀), w₀, .ok ()))
    (h : s.Advanced w args s' faults) :
    ∃ c, s'.phase = .running c ∧ Brought s.algorithm s.settings (s.prints args.mode)
      ⟨firstCourse args u rule w₀, w₀⟩ c faults := by
  cases h with
  | @block fuel _ _ failure hmode hfit =>
    rcases hd : Scene.drive s.algorithm s.settings (s.prints args.mode) fuel
      ⟨firstCourse args u rule w₀, w₀⟩ with ⟨t, st⟩
    rw [fit_block hmode hbegin rfl rfl hd] at hfit
    obtain ⟨rfl, hrest⟩ := Prod.mk.inj hfit
    obtain rfl : st.failure = failure := raised_injective (Prod.mk.inj hrest).2
    exact ⟨t.course, rfl, .of_drive hd⟩
  | @background fuel k _ _ _ _ hmode hfit hwork =>
    rw [fit_background hmode hbegin] at hfit
    cases hfit
    rcases hd : Scene.drive s.algorithm s.settings (s.prints args.mode) k
      ⟨firstCourse args u rule w₀, w₀⟩ with ⟨t, st⟩
    rw [work_eq hd rfl rfl rfl] at hwork
    cases hwork
    exact ⟨t.course, rfl, .of_drive hd⟩
  | manual hmode hfit hpull =>
    rw [fit_manual hmode hbegin] at hfit
    cases hfit
    exact pullAll_brought (s := { s.begun args.mode _ with mode := some .manual }) rfl rfl hpull

/-- **Whoever advances a run**, it keeps to the steps of its algorithm. -/
theorem advanced_follows {rule : κ} (hlog : (s.openLog w).2 = .ok ())
    (hstart : s.algorithm.start args.parameters = .ok u) (hrule : s.ruleFor args u = .ok rule)
    (h : s.Advanced w args s' faults) :
    ∃ c, s'.phase = .running c ∧ c.Follows s.algorithm u faults := by
  obtain ⟨w₀, hbegin⟩ := begin_of_ok hlog hstart hrule
  obtain ⟨c, hc, hbrought⟩ := advanced_brought hbegin h
  exact ⟨c, hc, hbrought.follows (.start rfl rfl)⟩

end Solver

end

end PrimalDual
