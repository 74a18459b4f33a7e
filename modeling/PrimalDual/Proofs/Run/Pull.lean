import PrimalDual.Proofs.Run.Drive

/-!
# Pulling a run

A caller may pull a manual run in any number of portions, each up to a bound of its own, and may
leave any of them early.  However the pulls are portioned, the run takes the ticks that a worker
would take, the items are the logged variables after each of them, and only the pull in which the
run ends closes it and hands over what ended it.

* `Taken`, `pull_taken` — what one pull does.
* `Solver.pullAll`, `TakenAll` — pulls one after the other, and what comes of them.
* **`pullAll_taken`** — what pulls in any portions do.

A pull is refused where the run stands by a bound that is no number, and by records that make no
table.
-/

namespace PrimalDual

variable {α σ κ : Type} [Scalar α] [StoppingRule α κ]

namespace Solver

variable {s s' : Solver α σ κ} {w w' : World α} {c : Course α σ κ} {bound : Value α}

/-! ## One pull

A pull may stop at its bound, at the number of items that are taken, or because the run ends; only
the last one closes the run.
-/

/-- What comes of pulling an open run at `c`. -/
inductive Taken (s : Solver α σ κ) (bound : Value α) (c : Course α σ κ) (w : World α) :
    Solver α σ κ × World α × Pulled α → Prop
  | going {k : ℕ} {t : Scene α σ κ}
      (h : Scene.drive s.algorithm s.settings s.printing k ⟨c, w⟩ = (t, .going)) :
      Taken s bound c w ({ s with phase := .running t.course }, t.world,
        ⟨Scene.items s.algorithm s.settings s.printing k ⟨c, w⟩, none⟩)
  | ended {k : ℕ} {u t : Scene α σ κ} {st : Standing}
      (hgoing : Scene.drive s.algorithm s.settings s.printing k ⟨c, w⟩ = (u, .going))
      (h : Scene.drive s.algorithm s.settings s.printing (k + 1) ⟨c, w⟩ = (t, st))
      (hst : st.goesOn = false) :
      Taken s bound c w ({ s with phase := .running t.course }.close, t.world,
        ⟨Scene.items s.algorithm s.settings s.printing k ⟨c, w⟩, st.failure⟩)
  | refused {k : ℕ} {t : Scene α σ κ} {e : Fault} (items : List (Parameters α))
      (h : Scene.drive s.algorithm s.settings s.printing k ⟨c, w⟩ = (t, .going))
      (hrefused : (∃ j, allowsMore bound j = .error e) ∨
        History.ofRows t.course.records.toList = .error e) :
      Taken s bound c w ({ s with phase := .running t.course }, t.world, ⟨items, some e⟩)

/-- A tick that goes on comes before what is taken next. -/
lemma Taken.step {t : Scene α σ κ}
    (htick : Scene.tick s.algorithm s.settings s.printing ⟨c, w⟩ = .ok true t)
    {r : Solver α σ κ × World α × Pulled α}
    (h : Taken { s with phase := .running t.course } bound t.course t.world r) :
    Taken s bound c w (r.1, r.2.1, { r.2.2 with
      items := loggedValues s.settings (t.course.bindings s.algorithm) :: r.2.2.items }) := by
  have hdrive (k : ℕ) : Scene.drive s.algorithm s.settings s.printing (k + 1) ⟨c, w⟩
      = Scene.drive s.algorithm s.settings s.printing k t := by
    rw [Scene.drive, htick]
  cases h with
  | going h =>
    have hgoing : Taken s bound c w _ := Taken.going ((hdrive _).trans h)
    rw [Scene.items_succ htick] at hgoing
    exact hgoing
  | ended hgoing h hst =>
    have hover : Taken s bound c w _ :=
      Taken.ended ((hdrive _).trans hgoing) ((hdrive _).trans h) hst
    rw [Scene.items_succ htick] at hover
    exact hover
  | refused items h hrefused => exact Taken.refused _ ((hdrive _).trans h) hrefused

lemma pullSteps_taken (count done : ℕ) (hs : s.phase = .running c) :
    Taken s bound c w (pullSteps bound count done s w) := by
  have hself : { s with phase := .running c } = s := by
    rw [← hs]
  induction count generalizing s w c done with
  | zero =>
    have hgoing : Taken s bound c w _ := Taken.going (k := 0) rfl
    rw [hself] at hgoing
    exact hgoing
  | succ count ih =>
    rw [pullSteps]
    rcases hmore : allowsMore bound done with e | more
    · have hrefused : Taken s bound c w _ := Taken.refused (k := 0) [] rfl (Or.inl ⟨done, hmore⟩)
      rw [hself] at hrefused
      exact hrefused
    · cases more with
      | false =>
        have hgoing : Taken s bound c w _ := Taken.going (k := 0) rfl
        rw [hself] at hgoing
        exact hgoing
      | true =>
        simp only [tick_running hs]
        rcases htick : Scene.tick s.algorithm s.settings s.printing ⟨c, w⟩ with
          ⟨goesOn, t⟩ | ⟨e, t⟩
        · cases goesOn with
          | false =>
            have hend : Scene.drive s.algorithm s.settings s.printing (0 + 1) ⟨c, w⟩
                = (t, .satisfied) := by
              rw [Scene.drive, htick]
            exact Taken.ended (k := 0) rfl hend rfl
          | true =>
            simp only [stats, records]
            rcases hrows : History.ofRows t.course.records.toList with e | history
            · exact Taken.refused (k := 1) _ (Scene.drive_one htick) (Or.inr hrows)
            · exact Taken.step htick
                (ih (s := { s with phase := .running t.course }) (done + 1) rfl rfl)
        · have hend : Scene.drive s.algorithm s.settings s.printing (0 + 1) ⟨c, w⟩
              = (t, .failed e) := by
            rw [Scene.drive, htick]
          exact Taken.ended (k := 0) rfl hend rfl

/-- What a pull does to an open manual run. -/
lemma pull_taken (count : ℕ) (hs : s.phase = .running c) (hmode : s.mode = some .manual) :
    Taken s bound c w (pull bound count s w) := by
  have hcheck : s.checkMode [.manual] = .ok () := by
    rw [checkMode, hmode]
    rfl
  rw [pull]
  split
  · exact pullSteps_taken 0 0 hs
  · rw [hcheck]
    exact pullSteps_taken count 0 hs

/-! ## Pulls one after the other -/

/-- Pulls one after the other, each with its bound and the number of items taken from it. -/
def pullAll : List (Value α × ℕ) → Solver α σ κ → World α →
    Solver α σ κ × World α × List (Pulled α)
  | [], s, w => (s, w, [])
  | (bound, count) :: rest, s, w =>
    let (s, w, out) := pull bound count s w
    let (s, w, outs) := pullAll rest s w
    (s, w, out :: outs)

/-- All that was handed out, in order. -/
def handedOut (outs : List (Pulled α)) : List (Parameters α) := outs.flatMap (·.items)

/-- A pull that finds no open run: it may only say so. -/
def Pulled.Idle (o : Pulled α) : Prop := o.items = [] ∧ (o.failure = none ∨ o.failure = some .noRun)

/-- What comes of pulls of an open run at `c`. -/
inductive TakenAll (s : Solver α σ κ) (pulls : List (Value α × ℕ)) (c : Course α σ κ)
    (w : World α) : Solver α σ κ × World α × List (Pulled α) → Prop
  | going {k : ℕ} {t : Scene α σ κ} {outs : List (Pulled α)}
      (h : Scene.drive s.algorithm s.settings s.printing k ⟨c, w⟩ = (t, .going))
      (hitems : handedOut outs = Scene.items s.algorithm s.settings s.printing k ⟨c, w⟩)
      (houts : ∀ o ∈ outs, o.failure = none) :
      TakenAll s pulls c w ({ s with phase := .running t.course }, t.world, outs)
  /-- The run ends in the pull `last`; the ones after it find no open run. -/
  | ended {k : ℕ} {u t : Scene α σ κ} {st : Standing} {before after : List (Pulled α)}
      {last : Pulled α}
      (hgoing : Scene.drive s.algorithm s.settings s.printing k ⟨c, w⟩ = (u, .going))
      (h : Scene.drive s.algorithm s.settings s.printing (k + 1) ⟨c, w⟩ = (t, st))
      (hst : st.goesOn = false)
      (hitems : handedOut (before ++ [last])
        = Scene.items s.algorithm s.settings s.printing k ⟨c, w⟩)
      (hbefore : ∀ o ∈ before, o.failure = none) (hlast : last.failure = st.failure)
      (hafter : ∀ o ∈ after, o.Idle) :
      TakenAll s pulls c w
        ({ s with phase := .running t.course }.close, t.world, before ++ last :: after)
  | refused {k : ℕ} {t : Scene α σ κ} {e : Fault} {o : Pulled α} {bound : Value α} {count : ℕ}
      {r : Solver α σ κ × World α × List (Pulled α)}
      (h : Scene.drive s.algorithm s.settings s.printing k ⟨c, w⟩ = (t, .going))
      (ho : o ∈ r.2.2) (hfailure : o.failure = some e) (hpull : (bound, count) ∈ pulls)
      (hrefused : (∃ j, allowsMore bound j = .error e) ∨
        History.ofRows t.course.records.toList = .error e) :
      TakenAll s pulls c w r

lemma pullAll_cons {count : ℕ} {o : Pulled α} (pulls : List (Value α × ℕ))
    (h : pull bound count s w = (s', w', o)) :
    pullAll ((bound, count) :: pulls) s w = ((pullAll pulls s' w').1, (pullAll pulls s' w').2.1,
      o :: (pullAll pulls s' w').2.2) := by
  rw [pullAll, h]

lemma pull_closed (count : ℕ) (hmode : s.mode = none) :
    ∃ o : Pulled α, o.Idle ∧ pull bound count s w = (s, w, o) := by
  rw [pull]
  split
  · exact ⟨_, ⟨rfl, Or.inl rfl⟩, rfl⟩
  · rw [checkMode, hmode]
    exact ⟨_, ⟨rfl, Or.inr rfl⟩, rfl⟩

lemma pullAll_closed (pulls : List (Value α × ℕ)) (hmode : s.mode = none) :
    ∃ outs : List (Pulled α), (∀ o ∈ outs, o.Idle) ∧ pullAll pulls s w = (s, w, outs) := by
  induction pulls with
  | nil => exact ⟨[], fun o ho => absurd ho List.not_mem_nil, rfl⟩
  | cons p pulls ih =>
    obtain ⟨bound, count⟩ := p
    obtain ⟨o, ho, hpull⟩ := pull_closed count hmode
    obtain ⟨outs, houts, hpulls⟩ := ih
    refine ⟨o :: outs, List.forall_mem_cons.mpr ⟨ho, houts⟩, ?_⟩
    rw [pullAll_cons pulls hpull, hpulls]

omit [Scalar α] in
lemma handedOut_cons (o : Pulled α) (outs : List (Pulled α)) :
    handedOut (o :: outs) = o.items ++ handedOut outs := List.flatMap_cons

/-- A pull that leaves the run open comes before what the next ones do. -/
lemma TakenAll.after {k count : ℕ} {t : Scene α σ κ} {pulls : List (Value α × ℕ)}
    (h : Scene.drive s.algorithm s.settings s.printing k ⟨c, w⟩ = (t, .going))
    {r : Solver α σ κ × World α × List (Pulled α)}
    (hr : TakenAll { s with phase := .running t.course } pulls t.course t.world r) :
    TakenAll s ((bound, count) :: pulls) c w (r.1, r.2.1,
      ⟨Scene.items s.algorithm s.settings s.printing k ⟨c, w⟩, none⟩ :: r.2.2) := by
  have hdrive (m : ℕ) : Scene.drive s.algorithm s.settings s.printing (k + m) ⟨c, w⟩
      = Scene.drive s.algorithm s.settings s.printing m t := Scene.drive_add h m
  have hitems (m : ℕ) := Scene.items_add h m
  cases hr with
  | going hm houts hfail =>
    refine TakenAll.going ((hdrive _).trans hm) ?_ (List.forall_mem_cons.mpr ⟨rfl, hfail⟩)
    rw [handedOut_cons, houts, hitems]
  | @ended m u v st before post last hgoing hend hst houts hbefore hlast hafter =>
    rw [← List.cons_append]
    refine TakenAll.ended ((hdrive _).trans hgoing) ((hdrive _).trans hend) hst ?_
      (List.forall_mem_cons.mpr ⟨rfl, hbefore⟩) hlast hafter
    rw [List.cons_append, handedOut_cons, houts, hitems]
  | refused hm ho hfailure hpull hrefused =>
    exact TakenAll.refused ((hdrive _).trans hm) (List.mem_cons_of_mem _ ho) hfailure
      (List.mem_cons_of_mem _ hpull) hrefused

/-- **What pulls do**, in whatever portions an open manual run is pulled. -/
theorem pullAll_taken (pulls : List (Value α × ℕ)) (hs : s.phase = .running c)
    (hmode : s.mode = some .manual) : TakenAll s pulls c w (pullAll pulls s w) := by
  induction pulls generalizing s w c with
  | nil =>
    have hself : { s with phase := .running c } = s := by
      rw [← hs]
    have hgoing : TakenAll s [] c w ({ s with phase := .running c }, w, []) :=
      TakenAll.going (k := 0) rfl rfl fun o ho => absurd ho List.not_mem_nil
    rw [hself] at hgoing
    exact hgoing
  | cons p pulls ih =>
    obtain ⟨bound, count⟩ := p
    have htaken : Taken s bound c w _ := pull_taken count hs hmode
    generalize hpull : pull bound count s w = r at htaken
    cases htaken with
    | going h =>
      rw [pullAll_cons pulls hpull]
      exact TakenAll.after h (ih rfl hmode)
    | @ended k u t st hgoing h hst =>
      obtain ⟨outs, houts, hpulls⟩ := pullAll_closed
        (s := { s with phase := .running t.course }.close) (w := t.world) pulls rfl
      rw [pullAll_cons pulls hpull, hpulls]
      rw [← List.nil_append (_ :: outs)]
      exact TakenAll.ended hgoing h hst (List.append_nil _) (by simp) rfl houts
    | refused items h hrefused =>
      rw [pullAll_cons pulls hpull]
      exact TakenAll.refused h List.mem_cons_self rfl List.mem_cons_self hrefused

end Solver

end PrimalDual
