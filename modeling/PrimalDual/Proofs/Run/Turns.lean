import PrimalDual.Proofs.Run.Isolation

/-!
# The turns of a solver

A solver is called time and again, by its caller or by its worker.  Whether a run is open, and what has
become of it, is told here from the calls alone: from what they were, and from what came of them.

* `Solver.ticks`, `work_ticks`, `EndsWithin` — the ticks of workers and of pulls, and where a pull
  ends the run.
* `Turn`, `Solver.turns` — the calls of a solver with what each of them finds.
* `Since`, `since_concat` — something that lasts from one turn until another.
* `ManualOpen`, `BackgroundOpen`, `FailedWith` — the open run, and what has ended its worker.
* `Tracked`, **`callAll_tracked`** — the fields of a solver are what its turns tell.
-/

namespace PrimalDual

variable {α σ κ : Type}

namespace Solver

section

variable [Scalar α] [StoppingRule α κ] {s s' : Solver α σ κ} {w w' : World α} {bound : Value α}
  {args : FitArguments α κ} {fuel count done k : ℕ}

/-! ## Ticks -/

/-- At most `k` ticks of a solver. -/
def ticks : ℕ → Solver α σ κ → World α → Solver α σ κ × World α × Standing
  | 0, s, w => (s, w, .going)
  | k + 1, s, w =>
    match s.tick w with
    | (s, w, .ok true) => ticks k s w
    | (s, w, .ok false) => (s, w, .satisfied)
    | (s, w, .error e) => (s, w, .failed e)

/-- A tick changes nothing of a solver but its run. -/
lemma tick_keeps (s : Solver α σ κ) (w : World α) : ∃ phase, (s.tick w).1 = { s with phase } := by
  rw [tick]
  split
  · split <;> exact ⟨_, rfl⟩
  · exact ⟨s.phase, rfl⟩

/-- A worker takes ticks, and keeps what ends them. -/
lemma work_ticks (hactive : s.active = true) (hfailure : s.failure = none) :
    ∃ phase, work k s w = ({ s with
        phase, active := (ticks k s w).2.2.goesOn, failure := (ticks k s w).2.2.failure },
      (ticks k s w).2.1) := by
  induction k generalizing s w with
  | zero =>
    obtain ⟨A, S, phase, mode, active, failure, printing⟩ := s
    cases hactive
    cases hfailure
    exact ⟨phase, rfl⟩
  | succ k ih =>
    obtain ⟨phase, hphase⟩ := tick_keeps s w
    rw [work, hactive, Bool.not_true, if_neg Bool.false_ne_true, ticks]
    rcases htick : s.tick w with ⟨s', w', e | goesOn⟩
    · rw [htick] at hphase
      cases hphase
      exact ⟨phase, rfl⟩
    · rw [htick] at hphase
      cases hphase
      cases goesOn with
      | false => exact ⟨phase, by dsimp only; rw [hfailure]; rfl⟩
      | true => exact ih (s := { s with phase }) hactive hfailure

/-- A pull ends the run: before its bound and before enough items are taken, the rule does or a tick
fails, and what is handed over before can be shown. -/
def EndsWithin (bound : Value α) (count done : ℕ) (s : Solver α σ κ) (w : World α) : Prop :=
  ∃ k < count, (∀ j ≤ k, allowsMore bound (done + j) = .ok true) ∧
    (∀ j < k, ∃ shown, (ticks (j + 1) s w).1.stats = .ok shown) ∧
    (ticks k s w).2.2.goesOn = true ∧ (ticks (k + 1) s w).2.2.goesOn = false

lemma endsWithin_of_end (hmore : allowsMore bound done = .ok true)
    (hend : (ticks 1 s w).2.2.goesOn = false) : EndsWithin bound (count + 1) done s w := by
  refine ⟨0, Nat.succ_pos count, fun j hj => ?_, fun j hj => absurd hj (Nat.not_lt_zero j), rfl, hend⟩
  obtain rfl := Nat.le_zero.1 hj
  exact hmore

lemma not_endsWithin (hmore : allowsMore bound done ≠ .ok true) :
    ¬ EndsWithin bound count done s w := by
  rintro ⟨k, -, hmore', -⟩
  exact hmore (hmore' 0 (Nat.zero_le k))

/-- A tick that goes on, and whose outcome can be shown, comes before the rest of a pull. -/
lemma endsWithin_succ (htick : s.tick w = (s', w', .ok true)) (hmore : allowsMore bound done = .ok true) :
    EndsWithin bound (count + 1) done s w ↔
      (∃ shown, s'.stats = .ok shown) ∧ EndsWithin bound count (done + 1) s' w' := by
  have hticks (k : ℕ) : ticks (k + 1) s w = ticks k s' w' := by
    rw [ticks, htick]
  have hdone (j : ℕ) : done + (j + 1) = done + 1 + j := by omega
  constructor
  · rintro ⟨k, hk, hmore, hshown, hgoing, hend⟩
    cases k with
    | zero =>
      rw [hticks] at hend
      cases hend
    | succ k =>
      have hfirst := hshown 0 (Nat.succ_pos k)
      rw [hticks] at hfirst
      refine ⟨hfirst, k, Nat.lt_of_succ_lt_succ hk, fun j hj => ?_,
        fun j hj => ?_, hticks k ▸ hgoing, hticks (k + 1) ▸ hend⟩
      · exact hdone j ▸ hmore (j + 1) (Nat.succ_le_succ hj)
      · exact hticks (j + 1) ▸ hshown (j + 1) (Nat.succ_lt_succ hj)
  · rintro ⟨hfirst, k, hk, hrest, hshown, hgoing, hend⟩
    refine ⟨k + 1, Nat.succ_lt_succ hk, fun j hj => ?_, fun j hj => ?_, (hticks k).symm ▸ hgoing,
      (hticks (k + 1)).symm ▸ hend⟩
    · cases j with
      | zero => exact hmore
      | succ j => exact (hdone j).symm ▸ hrest j (Nat.le_of_succ_le_succ hj)
    · rw [hticks]
      cases j with
      | zero => exact hfirst
      | succ j => exact hshown j (Nat.lt_of_succ_lt_succ hj)

/-- A pull closes the run if it ends it, and changes nothing else but the run. -/
lemma pullSteps_ends (bound : Value α) (count done : ℕ) (s : Solver α σ κ) (w : World α) : ∃ phase,
    EndsWithin bound count done s w ∧ (pullSteps bound count done s w).1 = { s with phase }.close ∨
    ¬ EndsWithin bound count done s w ∧ (pullSteps bound count done s w).1 = { s with phase } := by
  induction count generalizing done s w with
  | zero =>
    refine ⟨s.phase, Or.inr ⟨?_, rfl⟩⟩
    rintro ⟨k, hk, -⟩
    exact Nat.not_lt_zero k hk
  | succ count ih =>
    obtain ⟨phase, hphase⟩ := tick_keeps s w
    rw [pullSteps]
    rcases hmore : allowsMore bound done with e | more
    · exact ⟨s.phase, Or.inr ⟨not_endsWithin (by simp [hmore]), rfl⟩⟩
    · cases more with
      | false => exact ⟨s.phase, Or.inr ⟨not_endsWithin (by simp [hmore]), rfl⟩⟩
      | true =>
        rcases htick : s.tick w with ⟨s', w', e | goesOn⟩
        · rw [htick] at hphase
          cases hphase
          exact ⟨phase, Or.inl ⟨endsWithin_of_end hmore (by rw [ticks, htick]; rfl), rfl⟩⟩
        · rw [htick] at hphase
          cases hphase
          cases goesOn with
          | false => exact ⟨phase, Or.inl ⟨endsWithin_of_end hmore (by rw [ticks, htick]; rfl), rfl⟩⟩
          | true =>
            dsimp only
            rw [endsWithin_succ htick hmore]
            rcases hshown : stats { s with phase } with e | shown
            · refine ⟨phase, Or.inr ⟨?_, rfl⟩⟩
              rintro ⟨⟨shown, hok⟩, -⟩
              cases hok
            · obtain ⟨phase', h | h⟩ := ih (done + 1) { s with phase } w'
              · exact ⟨phase', Or.inl ⟨⟨⟨shown, rfl⟩, h.1⟩, h.2⟩⟩
              · exact ⟨phase', Or.inr ⟨fun hends => h.1 hends.2, h.2⟩⟩

/-! ## What an open run allows -/

omit [Scalar α] [StoppingRule α κ] in
lemma busy_background (hmode : s.mode = some .background) : s.busy = .ok s.active := by
  rw [busy, checkMode, hmode]
  rfl

omit [Scalar α] [StoppingRule α κ] in
/-- Without a run in the background there is nothing to ask for or to stop. -/
lemma refuses_control (hblock : s.mode ≠ some .block) (hmode : s.mode ≠ some .background) :
    ∃ e, e.category = .value ∧ s.busy = .error e ∧ s.stop = (s, .error e) := by
  rw [busy, stop, checkMode]
  cases hopen : s.mode with
  | none => exact ⟨_, rfl, rfl, rfl⟩
  | some m =>
    cases m with
    | block => exact absurd hopen hblock
    | background => exact absurd hopen hmode
    | manual => exact ⟨_, rfl, rfl, rfl⟩

lemma pull_manual (hcount : 0 < count) (hmode : s.mode = some .manual) :
    pull bound count s w = pullSteps bound count 0 s w := by
  rw [pull, if_neg (Nat.ne_of_gt hcount), checkMode, hmode]
  rfl

/-- Without a manual run there is nothing to pull. -/
lemma refuses_pull (bound : Value α) (w : World α) (hcount : 0 < count)
    (hmode : s.mode ≠ some .manual) :
    ∃ e, e.category = .value ∧ pull bound count s w = (s, w, ⟨[], some e⟩) := by
  rw [pull, if_neg (Nat.ne_of_gt hcount), checkMode]
  cases hopen : s.mode with
  | none => exact ⟨_, rfl, rfl⟩
  | some m =>
    cases m with
    | manual => exact absurd hopen hmode
    | block | background => exact ⟨_, rfl, rfl⟩

/-! ## What calls do to the open run -/

/-- Setting up a run changes nothing else. -/
lemma prepare_keeps (s : Solver α σ κ) (w : World α) (args : FitArguments α κ) :
    ∃ phase, (s.prepare w args).1 = { s with phase } := by
  rw [prepare]
  split
  · exact ⟨s.phase, rfl⟩
  · dsimp only
    split <;> exact ⟨_, rfl⟩

/-- A run that begins closes what was open. -/
lemma begin_closes (args : FitArguments α κ) (h : (s.openLog w).2 = .ok ()) :
    ∃ phase printing, (s.begin w args).1 = { s.close with phase, printing } := by
  rw [begin]
  rcases hlog : s.openLog w with ⟨w₁, outcome⟩
  rw [hlog] at h
  cases h
  obtain ⟨phase, hphase⟩ := prepare_keeps
    { s.close with phase := .blank #[], printing := s.prints args.mode } w₁ args
  exact ⟨phase, s.prints args.mode, hphase⟩

/-- A fit that cannot open its log leaves the open run as it is. -/
lemma fit_of_log_error (fuel : ℕ) (args : FitArguments α κ) {e : Fault}
    (h : (s.openLog w).2 = .error e) :
    (s.fit fuel w args).1 = { s with phase := .blank s.records } ∧
      (s.fit fuel w args).2.2 = .error e := by
  rw [fit]
  rcases hlog : s.openLog w with ⟨w₁, outcome⟩
  rw [hlog] at h
  cases h
  exact ⟨rfl, rfl⟩

/-- The mode of the run that is open after a fit in a mode with an outcome. -/
def opened (m : Mode) : Except Fault Unit → Option Mode
  | .ok () => if m = .block then none else some m
  | .error _ => none

lemma opened_eq_some {m m' : Mode} {outcome : Except Fault Unit} :
    opened m' outcome = some m ↔ m ≠ .block ∧ m' = m ∧ outcome = .ok () := by
  cases outcome with
  | error e => simp [opened]
  | ok => cases m <;> cases m' <;> simp [opened]

/-- A fit that opens its log closes what was open, and opens a run in its mode, unless it fails or
the run is over when it returns. -/
lemma fit_opens (fuel : ℕ) (args : FitArguments α κ) (h : (s.openLog w).2 = .ok ()) :
    (s.fit fuel w args).1.mode = opened args.mode (s.fit fuel w args).2.2 ∧
      (s.fit fuel w args).1.failure = none ∧
      ((s.fit fuel w args).1.active = true ↔ (s.fit fuel w args).1.mode = some .background) := by
  obtain ⟨phase, printing, hclosed⟩ := begin_closes args h
  rw [fit_eq]
  rcases hbegin : s.begin w args with ⟨s₁, w₁, e | ⟨⟩⟩
  · rw [hbegin] at hclosed
    cases hclosed
    simp [close, opened]
  · rw [hbegin] at hclosed
    cases hclosed
    dsimp only
    cases args.mode with
    | manual | background => simp [close, opened]
    | block =>
      obtain ⟨phase', hwork⟩ := work_ticks (k := fuel) (w := w₁)
        (s := { s.close with phase, printing, mode := some .block, active := true }) rfl rfl
      dsimp only
      rw [hwork, stop_eq (Or.inl rfl)]
      generalize raised _ = outcome
      cases outcome <;> simp [close, opened]

end

end Solver

/-! ## Turns -/

/-- A call of a solver with what it finds. -/
structure Turn (α σ κ : Type) where
  solver : Solver α σ κ
  world : World α
  call : Call α κ

section

variable {β : Type} {begins ends : β → Prop} {ts : List β} {t : β}

/-- Something has begun, and nothing has ended it since. -/
def Since (begins ends : β → Prop) (ts : List β) : Prop :=
  ∃ before t after, ts = before ++ t :: after ∧ begins t ∧ ∀ u ∈ after, ¬ ends u

lemma not_since_nil : ¬ Since begins ends [] := by
  rintro ⟨before, t, after, h, -⟩
  exact List.append_ne_nil_of_right_ne_nil before (List.cons_ne_nil t after) h.symm

/-- What lasts after one more turn has just begun, or has lasted and not just been ended. -/
lemma since_concat : Since begins ends (ts ++ [t]) ↔ begins t ∨ Since begins ends ts ∧ ¬ ends t := by
  constructor
  · rintro ⟨before, u, after, h, hbegins, hends⟩
    rcases List.eq_nil_or_concat' after with rfl | ⟨after, v, rfl⟩
    · obtain ⟨-, htu⟩ := List.append_inj' h rfl
      cases htu
      exact Or.inl hbegins
    · rw [← List.cons_append, ← List.append_assoc] at h
      obtain ⟨hts, htv⟩ := List.append_inj' h rfl
      cases htv
      exact Or.inr ⟨⟨before, u, after, hts, hbegins, fun x hx =>
        hends x (List.mem_append_left _ hx)⟩, hends t (List.mem_append_right _ (List.mem_singleton_self t))⟩
  · rintro (hbegins | ⟨⟨before, u, after, rfl, hbegins, hends⟩, hend⟩)
    · exact ⟨ts, t, [], rfl, hbegins, fun u hu => absurd hu List.not_mem_nil⟩
    · refine ⟨before, u, after ++ [t], by simp, hbegins, fun x hx => ?_⟩
      rcases List.mem_append.mp hx with hx | hx
      · exact hends x hx
      · obtain rfl := List.mem_singleton.mp hx
        exact hend

end

section

variable [Scalar α] [StoppingRule α κ]

namespace Turn

/-- A fit in the mode `m` returns. -/
def Opens (m : Mode) (t : Turn α σ κ) : Prop :=
  match t.call with
  | .fit fuel args => args.mode = m ∧ (t.solver.fit fuel t.world args).2.2 = .ok ()
  | _ => False

omit [StoppingRule α κ] in
/-- A fit starts: its log can be opened. -/
def Starts (t : Turn α σ κ) : Prop :=
  match t.call with
  | .fit _ _ => (t.solver.openLog t.world).2 = .ok ()
  | _ => False

/-- In a pull, the rule ends the run or an iteration fails. -/
def EndsPull (t : Turn α σ κ) : Prop :=
  match t.call with
  | .pull bound count => Solver.EndsWithin bound count 0 t.solver t.world
  | _ => False

/-- A stop. -/
def IsStop (t : Turn α σ κ) : Prop :=
  match t.call with
  | .stop => True
  | _ => False

/-- While the run in the background advances, an iteration of it fails. -/
def Fails (e : Fault) (t : Turn α σ κ) : Prop :=
  match t.call with
  | .work fuel => t.solver.busy = .ok true ∧
      (Solver.ticks fuel t.solver t.world).2.2 = .failed e
  | _ => False

end Turn

/-- A manual run is open: a fit has returned in that mode, and since then its rule has not ended it,
no iteration has failed, and no other fit has started. -/
def ManualOpen (ts : List (Turn α σ κ)) : Prop :=
  Since (Turn.Opens .manual) (fun t => t.Starts ∨ t.EndsPull) ts

/-- A run in the background is open: a fit has returned in that mode, and since then it has not been
stopped, and no other fit has started. -/
def BackgroundOpen (ts : List (Turn α σ κ)) : Prop :=
  Since (Turn.Opens .background) (fun t => t.Starts ∨ t.IsStop) ts

/-- An iteration in the background has failed, and since then nobody has stopped the run, and no other
fit has started. -/
def FailedWith (e : Fault) (ts : List (Turn α σ κ)) : Prop :=
  Since (Turn.Fails e) (fun t => t.Starts ∨ t.IsStop) ts

namespace Solver

/-- The turns of some calls. -/
def turns (s : Solver α σ κ) (w : World α) : List (Call α κ) → List (Turn α σ κ)
  | [] => []
  | o :: later => ⟨s, w, o⟩ :: (s.call w o).1.turns (s.call w o).2.1 later

/-- The fields of a solver are what its turns tell. -/
structure Tracked (ts : List (Turn α σ κ)) (s : Solver α σ κ) : Prop where
  block : s.mode ≠ some .block
  manual : s.mode = some .manual ↔ ManualOpen ts
  background : s.mode = some .background ↔ BackgroundOpen ts
  active : s.active = true → s.mode = some .background ∧ s.failure = none
  failure : s.mode = some .background → ∀ e, s.failure = some e ↔ FailedWith e ts

variable {s s' : Solver α σ κ} {w w' : World α} {ts : List (Turn α σ κ)} {t : Turn α σ κ}
  {A : Algorithm α σ κ} {S : Settings}

lemma tracked_new : Tracked [] (ofAlgorithm A S : Solver α σ κ) where
  block := nofun
  manual := ⟨nofun, fun h => absurd h not_since_nil⟩
  background := ⟨nofun, fun h => absurd h not_since_nil⟩
  active := nofun
  failure := nofun

namespace Tracked

/-- A turn that opens nothing, and does not end what is open. -/
lemma keep (h : Tracked ts s) (hopens : ∀ m, ¬ t.Opens m)
    (hmanual : s.mode = some .manual → ¬ (t.Starts ∨ t.EndsPull))
    (hbackground : s.mode = some .background →
      ¬ (t.Starts ∨ t.IsStop) ∧ ∀ e, s'.failure = some e ↔ t.Fails e ∨ s.failure = some e)
    (hmode : s'.mode = s.mode) (hactive : s'.active = true → s.active = true ∧ s'.failure = none) :
    Tracked (ts ++ [t]) s' where
  block := hmode ▸ h.block
  manual := by
    rw [hmode, ManualOpen, since_concat, ← ManualOpen, ← h.manual]
    exact ⟨fun hm => Or.inr ⟨hm, hmanual hm⟩, fun hm => hm.elim (fun ho => absurd ho (hopens _)) And.left⟩
  background := by
    rw [hmode, BackgroundOpen, since_concat, ← BackgroundOpen, ← h.background]
    exact ⟨fun hm => Or.inr ⟨hm, (hbackground hm).1⟩,
      fun hm => hm.elim (fun ho => absurd ho (hopens _)) And.left⟩
  active ha := by
    obtain ⟨hactive, hnone⟩ := hactive ha
    exact ⟨hmode.trans (h.active hactive).1, hnone⟩
  failure hm e := by
    rw [hmode] at hm
    obtain ⟨hends, hfailure⟩ := hbackground hm
    rw [hfailure, FailedWith, since_concat, ← FailedWith, ← h.failure hm, and_iff_left hends]

/-- A turn that opens nothing, and ends what is open. -/
lemma close (h : Tracked ts s) (hopens : ∀ m, ¬ t.Opens m)
    (hmanual : s.mode = some .manual → t.Starts ∨ t.EndsPull)
    (hbackground : s.mode = some .background → t.Starts ∨ t.IsStop) (s' : Solver α σ κ) :
    Tracked (ts ++ [t]) s'.close where
  block := nofun
  manual := by
    rw [ManualOpen, since_concat, ← ManualOpen, ← h.manual]
    exact ⟨nofun, fun hm => hm.elim (fun ho => absurd ho (hopens _))
      fun hm => absurd (hmanual hm.1) hm.2⟩
  background := by
    rw [BackgroundOpen, since_concat, ← BackgroundOpen, ← h.background]
    exact ⟨nofun, fun hm => hm.elim (fun ho => absurd ho (hopens _))
      fun hm => absurd (hbackground hm.1) hm.2⟩
  active := nofun
  failure := nofun

lemma fit (h : Tracked ts s) (fuel : ℕ) (args : FitArguments α κ) (w : World α) :
    Tracked (ts ++ [⟨s, w, .fit fuel args⟩]) (s.fit fuel w args).1 := by
  rcases hlog : (s.openLog w).2 with e | ⟨⟩
  · obtain ⟨hs, houtcome⟩ := fit_of_log_error fuel args hlog
    have hstarts : ¬ (⟨s, w, .fit fuel args⟩ : Turn α σ κ).Starts := by
      show (s.openLog w).2 ≠ .ok ()
      rw [hlog]
      exact nofun
    rw [hs]
    refine h.keep (fun m hopens => ?_) (fun _ => not_or_intro hstarts id)
      (fun _ => ⟨not_or_intro hstarts id, fun e => (or_iff_right id).symm⟩) rfl
      fun hactive => ⟨hactive, (h.active hactive).2⟩
    cases houtcome.symm.trans hopens.2
  · obtain ⟨hmode, hfailure, hactive⟩ := fit_opens fuel args hlog
    have hstarts : (⟨s, w, .fit fuel args⟩ : Turn α σ κ).Starts := hlog
    have hopens (m : Mode) : (s.fit fuel w args).1.mode = some m ↔
        m ≠ .block ∧ (⟨s, w, .fit fuel args⟩ : Turn α σ κ).Opens m := by
      rw [hmode]
      exact opened_eq_some
    refine ⟨fun hblock => ((hopens _).1 hblock).1 rfl, ?_, ?_, fun ha => ⟨hactive.1 ha, hfailure⟩, ?_⟩
    · rw [hopens, ManualOpen, since_concat]
      simp [hstarts]
    · rw [hopens, BackgroundOpen, since_concat]
      simp [hstarts]
    · intro _ e
      rw [hfailure, FailedWith, since_concat]
      simp [hstarts, Turn.Fails]

lemma work (h : Tracked ts s) (fuel : ℕ) (w : World α) :
    Tracked (ts ++ [⟨s, w, .work fuel⟩]) (work fuel s w).1 := by
  have hopens (m : Mode) : ¬ (⟨s, w, .work fuel⟩ : Turn α σ κ).Opens m := id
  cases hactive : s.active with
  | false =>
    have hs : Solver.work fuel s w = (s, w) := by
      cases fuel with
      | zero => rfl
      | succ fuel => rw [Solver.work, hactive, Bool.not_false, if_pos rfl]
    rw [hs]
    refine h.keep hopens (fun _ => not_or_intro id id) (fun hmode => ⟨not_or_intro id id, fun e => ?_⟩)
      rfl fun ha => ⟨ha, (h.active ha).2⟩
    refine (or_iff_right fun hfails => ?_).symm
    have hbusy : s.busy = .ok false := hactive ▸ busy_background hmode
    cases hbusy.symm.trans hfails.1
  | true =>
    obtain ⟨hmode, hfailure⟩ := h.active hactive
    obtain ⟨phase, hwork⟩ := work_ticks (k := fuel) (w := w) hactive hfailure
    have hbusy : s.busy = .ok true := hactive ▸ busy_background hmode
    have hfails (e : Fault) : (ticks fuel s w).2.2.failure = some e ↔
        (⟨s, w, .work fuel⟩ : Turn α σ κ).Fails e := by
      show _ ↔ s.busy = .ok true ∧ (ticks fuel s w).2.2 = .failed e
      rw [and_iff_right hbusy]
      cases (ticks fuel s w).2.2 <;> simp [Standing.failure]
    rw [hwork]
    refine h.keep hopens (fun _ => not_or_intro id id) (fun _ => ⟨not_or_intro id id, fun e => ?_⟩)
      rfl fun ha => ⟨hactive, ?_⟩
    · rw [hfailure]
      exact (hfails e).trans (or_iff_left (Option.some_ne_none e).symm).symm
    · dsimp only at ha ⊢
      cases hstanding : (ticks fuel s w).2.2 with
      | going => rfl
      | satisfied | failed e =>
        rw [hstanding] at ha
        cases ha

lemma pull (h : Tracked ts s) (bound : Value α) (count : ℕ) (w : World α) :
    Tracked (ts ++ [⟨s, w, .pull bound count⟩]) (pull bound count s w).1 := by
  have hopens (m : Mode) : ¬ (⟨s, w, .pull bound count⟩ : Turn α σ κ).Opens m := id
  have hfails (e : Fault) : ¬ (⟨s, w, .pull bound count⟩ : Turn α σ κ).Fails e := id
  by_cases hcount : count = 0
  · subst hcount
    refine h.keep hopens (fun _ => not_or_intro id ?_)
      (fun _ => ⟨not_or_intro id id, fun e => (or_iff_right (hfails e)).symm⟩) rfl
      fun hactive => ⟨hactive, (h.active hactive).2⟩
    rintro ⟨k, hk, -⟩
    exact Nat.not_lt_zero k hk
  by_cases hmode : s.mode = some .manual
  · have hbackground : s.mode ≠ some .background := by
      rw [hmode]
      exact nofun
    rw [pull_manual (Nat.pos_of_ne_zero hcount) hmode]
    obtain ⟨phase, ⟨hends, hs⟩ | ⟨hends, hs⟩⟩ := pullSteps_ends bound count 0 s w
    · rw [hs]
      exact h.close hopens (fun _ => Or.inr hends) (fun hm => absurd hm hbackground) _
    · rw [hs]
      exact h.keep hopens (fun _ => not_or_intro id hends) (fun hm => absurd hm hbackground) rfl
        fun hactive => absurd (h.active hactive).1 hbackground
  · obtain ⟨e, -, hs⟩ := refuses_pull bound w (Nat.pos_of_ne_zero hcount) hmode
    rw [hs]
    exact h.keep hopens (fun hm => absurd hm hmode)
      (fun _ => ⟨not_or_intro id id, fun e => (or_iff_right (hfails e)).symm⟩) rfl
      fun hactive => ⟨hactive, (h.active hactive).2⟩

lemma stop (h : Tracked ts s) (w : World α) :
    Tracked (ts ++ [⟨s, w, .stop⟩]) s.stop.1 := by
  have hopens (m : Mode) : ¬ (⟨s, w, .stop⟩ : Turn α σ κ).Opens m := id
  by_cases hmode : s.mode = some .background
  · have hmanual : s.mode ≠ some .manual := by
      rw [hmode]
      exact nofun
    rw [stop_eq (Or.inr hmode)]
    exact h.close hopens (fun hm => absurd hm hmanual) (fun _ => Or.inr trivial) s
  · obtain ⟨e, -, -, hs⟩ := refuses_control h.block hmode
    rw [hs]
    exact h.keep hopens (fun _ => not_or_intro id id) (fun hm => absurd hm hmode) rfl
      fun hactive => ⟨hactive, (h.active hactive).2⟩

/-- Whatever is called, the fields stay what the turns tell. -/
lemma call (h : Tracked ts s) (w : World α) (o : Call α κ) :
    Tracked (ts ++ [⟨s, w, o⟩]) (s.call w o).1 := by
  cases o with
  | fit fuel args => exact h.fit fuel args w
  | work fuel => exact h.work fuel w
  | pull bound count => exact h.pull bound count w
  | stop => exact h.stop w
  | writeback | busy | stats | objective | solution =>
    exact h.keep (fun _ => id) (fun _ => not_or_intro id id)
      (fun _ => ⟨not_or_intro id id, fun e => (or_iff_right id).symm⟩) rfl
      fun hactive => ⟨hactive, (h.active hactive).2⟩

end Tracked

/-- **The fields of a solver** are what its turns tell, after any calls. -/
theorem callAll_tracked (h : Tracked ts s) (w : World α) (calls : List (Call α κ)) :
    Tracked (ts ++ s.turns w calls) (s.callAll w calls).1 := by
  induction calls generalizing ts s w with
  | nil =>
    rw [turns, List.append_nil]
    exact h
  | cons o later ih =>
    rw [turns, List.append_cons]
    exact ih (h.call w o) (s.call w o).2.1

end Solver

end

end PrimalDual
