import PrimalDual.Proofs.Run.Drive
import PrimalDual.Proofs.Run.Tick

/-!
# What a tick leaves alone

A tick evaluates, records, reports and saves, and takes its step last.  Whether any of this fails or
not, nothing before the step moves the algorithm, and records are only ever added.

* `beforeStep`, `work_split` — all that a tick does before its step.
* `ending_bind`, `ending_ite` — what chains and alternatives of actions leave behind.
* **`drive_keeps`** — what every tick keeps is kept by a run.
* `Stays`, `keeps_beforeStep` — nothing before the step moves the algorithm or takes back a record.
* `Moves`, `tick_going` — the step of a tick.
* **`drive_records`** — the records of a run only grow.
* **`tick_failed`** — the step of a tick that fails has either not been taken, or is what failed.
-/

namespace PrimalDual

variable {α σ κ : Type}

namespace Scene

lemma error_of_bind {β γ : Type} {x : Action α σ κ β} {f : β → Action α σ κ γ} {e : Fault}
    {t u : Scene α σ κ} (h : (x >>= f) t = .error e u) :
    x t = .error e u ∨ ∃ a v, x t = .ok a v ∧ f a v = .error e u := by
  change EStateM.bind x f t = .error e u at h
  rw [EStateM.bind] at h
  split at h
  · rename_i a v hx
    exact Or.inr ⟨a, v, hx, h⟩
  · rename_i e' v hx
    cases h
    exact Or.inl hx

section

variable [Scalar α] [StoppingRule α κ]

/-- What a tick does before its step: whether the step is taken. -/
def beforeStep (A : Algorithm α σ κ) (S : Settings) (print : Bool) (i : ℕ) :
    Action α σ κ Bool := do
  if S.rates.evaluates i then
    trackObjective A
    if ← evaluate A then
      finish A S print
      return false
    record A
  match S.rates.reports i with
  | .ok due => if due then report S print
  | .error e => throw e
  if S.rates.writesBack i then writeback A S
  return true

lemma work_split (A : Algorithm α σ κ) (S : Settings) (print : Bool) (i : ℕ) :
    work A S print i = (do
      if ← beforeStep A S print i then
        advance A
        return true
      else return false) := by
  rw [work, beforeStep]
  cases S.rates.evaluates i with
  | false =>
    rw [proceed]
    cases S.rates.reports i with
    | error e => rfl
    | ok due => cases due <;> cases S.rates.writesBack i <;> simp
  | true =>
    simp only [if_true, bind_assoc]
    congr 1
    funext _
    congr 1
    funext decision
    cases decision with
    | true => simp
    | false =>
      simp only [Bool.false_eq_true, if_false, bind_assoc]
      congr 1
      funext _
      rw [proceed]
      cases S.rates.reports i with
      | error e => rfl
      | ok due => cases due <;> cases S.rates.writesBack i <;> simp

end

/-! ## Whatever an action comes to -/

/-- The scene that an action leaves, whether it fails or not. -/
def ending {β : Type} : EStateM.Result Fault (Scene α σ κ) β → Scene α σ κ
  | .ok _ t => t
  | .error _ t => t

section

variable {β γ : Type} {x : Action α σ κ β} {f : β → Action α σ κ γ}
  {R : Scene α σ κ → Scene α σ κ → Prop}

/-- What an action and all that may follow it do to a scene is what their chain does, too. -/
lemma ending_bind (htrans : ∀ {t u v}, R t u → R u v → R t v) (hx : ∀ t, R t (ending (x t)))
    (hf : ∀ b t, R t (ending (f b t))) (t : Scene α σ κ) : R t (ending ((x >>= f) t)) := by
  show R t (ending (EStateM.bind x f t))
  rw [EStateM.bind]
  have hfirst := hx t
  split
  · rename_i b u h
    rw [h] at hfirst
    exact htrans hfirst (hf b u)
  · rename_i e u h
    rw [h] at hfirst
    exact hfirst

lemma ending_ite {y : Action α σ κ β} (b : Bool) (hx : ∀ t, R t (ending (x t)))
    (hy : ∀ t, R t (ending (y t))) (t : Scene α σ κ) :
    R t (ending ((if b then x else y : Action α σ κ β) t)) := by
  cases b with
  | false => exact hy t
  | true => exact hx t

end

/-- **What every tick keeps** is kept by a run, whatever it comes to. -/
theorem drive_keeps [Scalar α] [StoppingRule α κ] {A : Algorithm α σ κ} {S : Settings} {print : Bool}
    {k : ℕ} {o t : Scene α σ κ} {st : Standing} {P : Scene α σ κ → Prop} (ho : P o)
    (htick : ∀ m u, drive A S print m o = (u, .going) → P u → P (ending (tick A S print u)))
    (hd : drive A S print k o = (t, st)) : P t := by
  induction k generalizing t st with
  | zero =>
    cases hd
    exact ho
  | succ k ih =>
    rcases hk : drive A S print k o with ⟨u, st'⟩
    have hu := ih hk
    cases st' with
    | going =>
      have hnext := htick k u hk hu
      rw [drive_succ hk] at hd
      rcases hresult : tick A S print u with ⟨goesOn, v⟩ | ⟨e, v⟩
      · rw [hresult] at hd hnext
        cases goesOn <;> (cases hd; exact hnext)
      · rw [hresult] at hd hnext
        cases hd
        exact hnext
    | satisfied =>
      cases (drive_of_ended hk rfl 1).symm.trans hd
      exact hu
    | failed e =>
      cases (drive_of_ended hk rfl 1).symm.trans hd
      exact hu

/-! ## Nothing before the step moves the algorithm -/

/-- The algorithm has not moved, and no record is gone. -/
structure Stays (t u : Scene α σ κ) : Prop where
  state : u.course.state = t.course.state
  iteration : u.course.iteration = t.course.iteration
  records : t.course.records.toList <+: u.course.records.toList

lemma Stays.refl (t : Scene α σ κ) : Stays t t := ⟨rfl, rfl, List.prefix_rfl⟩

lemma Stays.trans {t u v : Scene α σ κ} (h : Stays t u) (h' : Stays u v) : Stays t v :=
  ⟨h'.state.trans h.state, h'.iteration.trans h.iteration, h.records.trans h'.records⟩

/-- An action that does not move the algorithm and takes back no record. -/
def Keeps {β : Type} (x : Action α σ κ β) : Prop := ∀ t, Stays t (ending (x t))

section

variable {β γ : Type} {x : Action α σ κ β} {f : β → Action α σ κ γ}

lemma Keeps.pure (b : β) : Keeps (pure b : Action α σ κ β) := fun t => Stays.refl t

lemma Keeps.bind (hx : Keeps x) (hf : ∀ b, Keeps (f b)) : Keeps (x >>= f) :=
  ending_bind Stays.trans hx hf

lemma Keeps.ite {y : Action α σ κ β} (b : Bool) (hx : Keeps x) (hy : Keeps y) :
    Keeps (if b then x else y) := ending_ite b hx hy

end

variable {A : Algorithm α σ κ} {S : Settings} {print : Bool} {i : ℕ}

lemma keeps_report : Keeps (report S print : Action α σ κ Unit) := by
  intro t
  rw [report]
  split
  · exact ⟨rfl, rfl, List.prefix_rfl⟩
  · exact Stays.refl t

lemma keeps_log (entry : LogEntry α) :
    Keeps (modify (log S print entry) : Action α σ κ Unit) := fun _ =>
  ⟨rfl, rfl, List.prefix_rfl⟩

lemma keeps_trackObjective : Keeps (trackObjective A : Action α σ κ Unit) := by
  intro t
  rw [trackObjective]
  split
  · exact Stays.refl t
  · dsimp only
    split
    · exact ⟨rfl, rfl, List.prefix_rfl⟩
    · exact Stays.refl t

variable [Scalar α]

lemma keeps_writeback : Keeps (writeback A S : Action α σ κ Unit) := by
  intro t
  rw [writeback]
  split <;> exact ⟨rfl, rfl, List.prefix_rfl⟩

variable [StoppingRule α κ]

lemma keeps_record : Keeps (record A : Action α σ κ Unit) := by
  intro t
  rw [record]
  split
  · refine ⟨rfl, rfl, ?_⟩
    show t.course.records.toList <+: (t.course.records.push _).toList
    rw [Array.toList_push]
    exact List.prefix_append _ _
  · exact Stays.refl t

omit [Scalar α] in
lemma keeps_evaluate : Keeps (evaluate A : Action α σ κ Bool) := by
  intro t
  have hstays : Stays t { t with course := (t.course.judge A t.world.now).1 } := by
    rw [judge_keeps]
    exact ⟨rfl, rfl, List.prefix_rfl⟩
  rw [evaluate]
  split
  · rename_i c decision h
    rw [h] at hstays
    exact hstays
  · rename_i c e h
    rw [h] at hstays
    exact hstays

lemma keeps_finish : Keeps (finish A S print : Action α σ κ Unit) :=
  keeps_record.bind fun _ => keeps_report.bind fun _ => (keeps_log _).bind fun _ =>
    Keeps.ite _ keeps_writeback (Keeps.pure ())

/-- What a tick does before its step keeps the algorithm where it is. -/
lemma keeps_beforeStep (A : Algorithm α σ κ) (S : Settings) (print : Bool) (i : ℕ) :
    Keeps (beforeStep A S print i) := by
  have hsave : Keeps (do
      if S.rates.writesBack i then writeback A S
      return true : Action α σ κ Bool) :=
    Keeps.ite _ (keeps_writeback.bind fun _ => Keeps.pure true) (Keeps.pure true)
  have hreport : Keeps (do
      match S.rates.reports i with
      | .ok due => if due then report S print
      | .error e => throw e
      if S.rates.writesBack i then writeback A S
      return true : Action α σ κ Bool) := by
    cases S.rates.reports i with
    | ok due => exact Keeps.ite due (keeps_report.bind fun _ => hsave) hsave
    | error e => exact fun t => Stays.refl t
  rw [beforeStep]
  refine Keeps.ite _ (keeps_trackObjective.bind fun _ => keeps_evaluate.bind fun decision => ?_)
    hreport
  exact Keeps.ite decision (keeps_finish.bind fun _ => Keeps.pure false)
    (keeps_record.bind fun _ => hreport)

variable {t u : Scene α σ κ}

/-- The algorithm has taken a step, which came to `outcome`, and no record is gone. -/
structure Moves (A : Algorithm α σ κ) (outcome : Except Fault Unit) (t u : Scene α σ κ) : Prop where
  outcome : (A.step t.course.state).outcome = outcome
  state : u.course.state = (A.step t.course.state).state
  iteration : u.course.iteration = t.course.iteration + 1
  records : t.course.records.toList <+: u.course.records.toList

/-- A tick that goes on has taken its step. -/
lemma tick_going (h : tick A S print t = .ok true u) : Moves A (.ok ()) t u := by
  have hwork := tick_ok h
  rw [work_split] at hwork
  obtain ⟨goesOn, v, hbefore, hstep⟩ := ok_of_bind hwork
  have hstays := keeps_beforeStep A S print t.course.iteration t
  rw [hbefore] at hstays
  cases goesOn with
  | false => cases hstep
  | true =>
    obtain ⟨_, v', hadvance, hpure⟩ := ok_of_bind hstep
    cases hpure
    obtain ⟨houtcome, rfl⟩ := advance_ok hadvance
    have hstate : v.course.state = t.course.state := hstays.state
    rw [hstate] at houtcome ⊢
    exact ⟨houtcome, rfl, congrArg (· + 1) hstays.iteration, hstays.records⟩

/-- The tick that ends a run takes no step. -/
lemma tick_satisfied (h : tick A S print t = .ok false u) : Stays t u := by
  have hwork := tick_ok h
  rw [work_split] at hwork
  obtain ⟨goesOn, v, hbefore, hstep⟩ := ok_of_bind hwork
  have hstays := keeps_beforeStep A S print t.course.iteration t
  rw [hbefore] at hstays
  cases goesOn with
  | false =>
    cases hstep
    exact hstays
  | true =>
    obtain ⟨_, v', hadvance, hpure⟩ := ok_of_bind hstep
    cases hpure

/-- **A tick that fails** has not taken its step, or the step is what failed. -/
theorem tick_failed {e : Fault} (h : tick A S print t = .error e u) :
    Stays t u ∨ Moves A (.error e) t u := by
  rw [tick] at h
  split at h
  · cases h
  · rename_i e' v hwork
    cases h
    rw [work_split] at hwork
    have hstays := keeps_beforeStep A S print t.course.iteration t
    rcases error_of_bind hwork with hbefore | ⟨goesOn, v', hbefore, hstep⟩
    · rw [hbefore] at hstays
      exact Or.inl ⟨hstays.state, hstays.iteration, hstays.records⟩
    · rw [hbefore] at hstays
      cases goesOn with
      | false => cases hstep
      | true =>
        rcases error_of_bind hstep with hadvance | ⟨_, _, -, hpure⟩
        · rw [advance] at hadvance
          split at hadvance
          · cases hadvance
          · rename_i e'' houtcome
            cases hadvance
            have hstate : v'.course.state = t.course.state := hstays.state
            rw [hstate] at houtcome
            exact Or.inr ⟨houtcome, congrArg (fun u => (A.step u).state) hstate,
              congrArg (· + 1) hstays.iteration, hstays.records⟩
        · cases hpure

/-- Every tick that lets a run go on is one iteration. -/
lemma iteration_of_going {k : ℕ} (h : drive A S print k t = (u, .going)) :
    u.course.iteration = t.course.iteration + k := by
  induction k generalizing u with
  | zero =>
    cases h
    rfl
  | succ k ih =>
    obtain ⟨v, hv⟩ := exists_going (m := 1) h
    rw [(tick_going (tick_of_going hv h)).iteration, ih hv, Nat.add_assoc]

/-- Whatever a tick comes to, no record is gone. -/
lemma tick_records (t : Scene α σ κ) :
    t.course.records.toList <+: (ending (tick A S print t)).course.records.toList := by
  rcases htick : tick A S print t with ⟨goesOn, u⟩ | ⟨e, u⟩
  · cases goesOn with
    | true => exact (tick_going htick).records
    | false => exact (tick_satisfied htick).records
  · rcases tick_failed htick with hstays | hmoves
    · exact hstays.records
    · exact hmoves.records

/-- **The records of a run only grow.** -/
theorem drive_records {k : ℕ} {st : Standing} (h : drive A S print k t = (u, st)) :
    t.course.records.toList <+: u.course.records.toList :=
  drive_keeps (P := fun v => t.course.records.toList <+: v.course.records.toList) List.prefix_rfl
    (fun _ v _ hgrown => hgrown.trans (tick_records v)) h

end Scene

end PrimalDual
