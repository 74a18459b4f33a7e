import PrimalDual.Proofs.Run.Frame

/-!
# Runs beside each other

Two runs are compared by what their ticks look at.  If everything that a tick is made of gives the
same result in both and leaves them comparable, so does the tick, and so does any number of ticks.

* `Matches`, `Alike` — actions with the same results in related scenes.
* `Respects`, **`Respects.drive`** — what a relation has to respect, and that runs respect it then.
* `Agrees`, **`drive_alike`** — a run that prints is, apart from that, one that does not.
-/

namespace PrimalDual

variable {α σ κ : Type}

namespace Scene

section

variable {R : Scene α σ κ → Scene α σ κ → Prop}

/-- The same result, in related scenes. -/
inductive Matches (R : Scene α σ κ → Scene α σ κ → Prop) {β : Type} :
    EStateM.Result Fault (Scene α σ κ) β → EStateM.Result Fault (Scene α σ κ) β → Prop
  | ok {t t' : Scene α σ κ} (b : β) (h : R t t') : Matches R (.ok b t) (.ok b t')
  | error {t t' : Scene α σ κ} (e : Fault) (h : R t t') : Matches R (.error e t) (.error e t')

/-- Actions that do the same in related scenes. -/
def Alike (R : Scene α σ κ → Scene α σ κ → Prop) {β : Type} (x y : Action α σ κ β) : Prop :=
  ∀ t t', R t t' → Matches R (x t) (y t')

variable {β γ : Type} {x y : Action α σ κ β} {f g : β → Action α σ κ γ}

lemma Alike.pure (b : β) : Alike R (pure b : Action α σ κ β) (pure b) := fun _ _ h => .ok b h

lemma Alike.bind (hx : Alike R x y) (hf : ∀ b, Alike R (f b) (g b)) :
    Alike R (x >>= f) (y >>= g) := by
  intro t t' h
  show Matches R (EStateM.bind x f t) (EStateM.bind y g t')
  rw [EStateM.bind, EStateM.bind]
  have hmatches := hx t t' h
  revert hmatches
  generalize x t = r
  generalize y t' = r'
  intro hmatches
  cases hmatches with
  | ok b h => exact hf b _ _ h
  | error e h => exact .error e h

lemma Alike.ite {x' y' : Action α σ κ β} (b : Bool) (h : Alike R x y) (h' : Alike R x' y') :
    Alike R (if b then x else x') (if b then y else y') := by
  cases b with
  | false => exact h'
  | true => exact h

end

section

variable [Scalar α] [StoppingRule α κ]

/-- What a tick does between its evaluation and its step. -/
def reportAndSave (A : Algorithm α σ κ) (S : Settings) (print : Bool) (i : ℕ) :
    Action α σ κ Bool := do
  match S.rates.reports i with
  | .ok due => if due then report S print
  | .error e => throw e
  if S.rates.writesBack i then writeback A S
  return true

/-- The relation is respected by all that the ticks of two runs are made of. -/
structure Respects (R : Scene α σ κ → Scene α σ κ → Prop) (A : Algorithm α σ κ) (S S' : Settings)
    (p q : Bool) : Prop where
  rates : S.rates = S'.rates
  iteration : ∀ t t', R t t' → t.course.iteration = t'.course.iteration
  records : ∀ t t', R t t' → t.course.records = t'.course.records
  log : ∀ t t' entry, R t t' → R (t.log S p entry) (t'.log S' q entry)
  trackObjective : Alike R (trackObjective A) (trackObjective A)
  evaluate : Alike R (evaluate A) (evaluate A)
  record : Alike R (record A) (record A)
  writeback : Alike R (writeback A S) (writeback A S')
  advance : Alike R (advance A) (advance A)

namespace Respects

variable {R : Scene α σ κ → Scene α σ κ → Prop} {A : Algorithm α σ κ} {S S' : Settings}
  {p q : Bool} {i : ℕ} {t t' : Scene α σ κ}

lemma report (h : Respects R A S S' p q) : Alike R (Scene.report S p) (Scene.report S' q) := by
  intro t t' ht
  rw [Scene.report, Scene.report, h.records t t' ht, h.iteration t t' ht]
  split
  · exact .ok () (h.log t t' _ ht)
  · exact .error _ ht

lemma finish (h : Respects R A S S' p q) : Alike R (Scene.finish A S p) (Scene.finish A S' q) := by
  rw [Scene.finish, Scene.finish, h.rates]
  exact h.record.bind fun _ => h.report.bind fun _ =>
    Alike.bind (fun t t' ht => .ok () (h.log t t' _ ht)) fun _ =>
      Alike.ite _ h.writeback (Alike.pure ())

lemma reportAndSave (h : Respects R A S S' p q) :
    Alike R (Scene.reportAndSave A S p i) (Scene.reportAndSave A S' q i) := by
  have hsave : Alike R (do
      if S'.rates.writesBack i then Scene.writeback A S
      return true : Action α σ κ Bool) (do
      if S'.rates.writesBack i then Scene.writeback A S'
      return true) :=
    Alike.ite _ (h.writeback.bind fun _ => Alike.pure true) (Alike.pure true)
  rw [Scene.reportAndSave, Scene.reportAndSave, h.rates]
  cases S'.rates.reports i with
  | ok due => exact Alike.ite due (h.report.bind fun _ => hsave) hsave
  | error e => exact fun _ _ ht => .error e ht

lemma beforeStep (h : Respects R A S S' p q) :
    Alike R (Scene.beforeStep A S p i) (Scene.beforeStep A S' q i) := by
  have hrest : Alike R (Scene.reportAndSave A S p i) (Scene.reportAndSave A S' q i) :=
    h.reportAndSave
  rw [Scene.beforeStep, Scene.beforeStep, h.rates]
  rw [Scene.reportAndSave, Scene.reportAndSave, h.rates] at hrest
  refine Alike.ite _ (h.trackObjective.bind fun _ => h.evaluate.bind fun decision => ?_) hrest
  exact Alike.ite decision (h.finish.bind fun _ => Alike.pure false)
    (h.record.bind fun _ => hrest)

/-- A tick respects the relation, even if it fails. -/
lemma tick (h : Respects R A S S' p q) : Alike R (Scene.tick A S p) (Scene.tick A S' q) := by
  intro t t' ht
  have hwork : Alike R (work A S p t'.course.iteration) (work A S' q t'.course.iteration) := by
    rw [work_split, work_split]
    exact h.beforeStep.bind fun goesOn =>
      Alike.ite goesOn (h.advance.bind fun _ => Alike.pure true) (Alike.pure false)
  rw [Scene.tick, Scene.tick, h.iteration t t' ht]
  have hmatches := hwork t t' ht
  revert hmatches
  generalize work A S p t'.course.iteration t = r
  generalize work A S' q t'.course.iteration t' = r'
  intro hmatches
  cases hmatches with
  | ok b hu => exact .ok b hu
  | error e hu =>
    rename_i u u'
    dsimp only
    rw [h.iteration u u' hu, h.rates]
    exact .error e (h.log u u' _ hu)

/-- **Any number of ticks** respects the relation. -/
theorem drive (h : Respects R A S S' p q) (ht : R t t') (k : ℕ) :
    R (Scene.drive A S p k t).1 (Scene.drive A S' q k t').1 ∧
      (Scene.drive A S p k t).2 = (Scene.drive A S' q k t').2 := by
  induction k generalizing t t' with
  | zero => exact ⟨ht, rfl⟩
  | succ k ih =>
    rw [Scene.drive, Scene.drive]
    have hmatches := h.tick t t' ht
    revert hmatches
    generalize Scene.tick A S p t = r
    generalize Scene.tick A S' q t' = r'
    intro hmatches
    cases hmatches with
    | ok goesOn hu =>
      cases goesOn with
      | true => exact ih hu
      | false => exact ⟨hu, rfl⟩
    | error e hu => exact ⟨hu, rfl⟩

end Respects

end

end Scene

/-! ## Printing has no influence

Two runs of the same course, in worlds that differ at most in what was printed, stay such runs even
if one of them prints and the other one does not.
-/

/-- The worlds differ at most in what was printed. -/
structure World.Agrees (w w' : World α) : Prop where
  disk : w.disk = w'.disk
  now : w.now = w'.now

namespace World

variable {S : Settings} {w w' : World α}

lemma Agrees.refl (w : World α) : w.Agrees w := ⟨rfl, rfl⟩

lemma Agrees.log {p q : Bool} (h : w.Agrees w') (file : Path) (entry : LogEntry α) :
    (w.log file p entry).Agrees (w'.log file q entry) := by
  constructor
  · rw [log_disk, log_disk, h.disk]
  · rw [log_now, log_now, h.now]

lemma Agrees.saveCheckpoint [Scalar α] (h : w.Agrees w') (records : Array (Row α))
    (logged : Parameters α) :
    (w.saveCheckpoint S records logged).1.Agrees (w'.saveCheckpoint S records logged).1 ∧
      (w.saveCheckpoint S records logged).2 = (w'.saveCheckpoint S records logged).2 := by
  rw [World.saveCheckpoint, World.saveCheckpoint, h.disk]
  cases History.ofRows records.toList with
  | error e => exact ⟨h, rfl⟩
  | ok history => exact ⟨⟨rfl, h.now⟩, rfl⟩

end World

namespace Scene

/-- The scenes differ at most in what was printed. -/
structure Agrees (t t' : Scene α σ κ) : Prop where
  course : t.course = t'.course
  world : t.world.Agrees t'.world

variable [Scalar α] [StoppingRule α κ] {A : Algorithm α σ κ} {S : Settings} {p q : Bool}
  {t t' : Scene α σ κ}

omit [StoppingRule α κ] in
lemma agrees_writeback : Alike Agrees (writeback A S : Action α σ κ Unit) (writeback A S) := by
  intro t t' h
  rw [writeback, writeback, h.course]
  obtain ⟨hworld, houtcome⟩ := h.world.saveCheckpoint (S := S) t'.course.records
    (loggedValues S (t'.course.bindings A))
  rcases hw : t.world.saveCheckpoint S t'.course.records
    (loggedValues S (t'.course.bindings A)) with ⟨w, outcome⟩
  rcases hw' : t'.world.saveCheckpoint S t'.course.records
    (loggedValues S (t'.course.bindings A)) with ⟨w', outcome'⟩
  rw [hw, hw'] at hworld houtcome
  cases houtcome
  cases outcome with
  | ok u => exact .ok () ⟨rfl, hworld⟩
  | error e => exact .error e ⟨rfl, hworld⟩

lemma agrees_respects : Respects Agrees A S S p q where
  rates := rfl
  iteration _ _ h := congrArg Course.iteration h.course
  records _ _ h := congrArg Course.records h.course
  log _ _ entry h := ⟨h.course, h.world.log _ entry⟩
  trackObjective := by
    intro t t' h
    rw [trackObjective, trackObjective, h.course]
    split
    · exact .ok () h
    · dsimp only
      split
      · exact .ok () ⟨rfl, h.world⟩
      · exact .error _ h
  evaluate := by
    intro t t' h
    rw [evaluate, evaluate, h.course, h.world.now]
    split
    · exact .ok _ ⟨rfl, h.world⟩
    · exact .error _ ⟨rfl, h.world⟩
  record := by
    intro t t' h
    rw [record, record, h.course]
    split
    · exact .ok () ⟨rfl, h.world⟩
    · exact .error _ h
  writeback := agrees_writeback
  advance := by
    intro t t' h
    rw [advance, advance, h.course, h.world.now]
    split
    · exact .ok () ⟨rfl, h.world.disk, rfl⟩
    · exact .error _ ⟨rfl, h.world.disk, rfl⟩

/-- **A run that prints** is, apart from that, one that does not. -/
theorem drive_alike (h : Agrees t t') (k : ℕ) :
    Agrees (drive A S p k t).1 (drive A S q k t').1 ∧
      (drive A S p k t).2 = (drive A S q k t').2 := agrees_respects.drive h k

/-- What a run comes to, followed in the other one. -/
lemma exists_drive_alike {u : Scene α σ κ} {st : Standing} {k : ℕ} (h : Agrees t t')
    (hd : drive A S p k t = (u, st)) : ∃ u', drive A S q k t' = (u', st) ∧ Agrees u u' := by
  obtain ⟨hagrees, hstanding⟩ := drive_alike (A := A) (S := S) (p := p) (q := q) h k
  rw [hd] at hagrees hstanding
  exact ⟨_, Prod.ext rfl hstanding.symm, hagrees⟩

lemma items_alike (h : Agrees t t') (k : ℕ) : items A S p k t = items A S q k t' := by
  refine List.map_congr_left fun i _ => ?_
  rw [(drive_alike h (i + 1)).1.course]

end Scene

end PrimalDual
