import PrimalDual.Proofs.Criterion.Renewal
import PrimalDual.Proofs.Run.Alike
import PrimalDual.Proofs.Run.Folder

/-!
# The same run at another place and time

A run may be repeated in another folder and at another time, with its clocks set accordingly.  It
goes through the same states, leaves the same records and logs the same entries, and it fails where
the first one fails.

* `Settings.inFolder`, `Course.shift` — another folder, and another time.
* `World.Mirrors`, `Scene.Mirrors` — a run beside its repetition.
* `judge_shift`, `row_shift` — an evaluation and its record do not depend on the time.
* **`mirrors_respects`** — the ticks of a run and its repetition do the same.
-/

namespace PrimalDual

variable {α σ : Type}

/-- The same settings with another folder. -/
def Settings.inFolder (S : Settings) (p : Path) : Settings := { S with workdir := p }

/-- The arrays of an algorithm are stored below the directory of the checkpoints. -/
def Algorithm.Settled {κ : Type} (A : Algorithm α σ κ) : Prop := ∀ u, ∀ v ∈ A.bindings u, Settles v.name

/-- It is enough that the variables have the same plain names in all states. -/
lemma Algorithm.settled_of_names {κ : Type} {A : Algorithm α σ κ} (names : List String)
    (hbindings : ∀ u, (A.bindings u).map (·.name) = names) (hplain : ∀ name ∈ names, Plain name) :
    A.Settled := by
  intro u v hv
  refine settles_of_plain (hplain v.name ?_)
  rw [← hbindings u]
  exact List.mem_map_of_mem hv

/-- The tracked value of the objective is stored there, too. -/
lemma Course.settles {κ : Type} {A : Algorithm α σ κ} (hA : A.Settled) (c : Course α σ κ) :
    ∀ v ∈ c.bindings A, Settles v.name := by
  have hobjective : Plain objectiveName := by
    decide
  intro v hv
  rw [bindings] at hv
  split at hv
  · rcases List.mem_append.mp hv with hv | hv
    · exact hA c.state v hv
    · rw [List.mem_singleton.mp hv]
      exact settles_of_plain hobjective
  · exact hA c.state v hv

/-! ## Worlds -/

/-- The folders are ready and their logs are the same, and one clock is `d` ahead of the other. -/
structure World.Mirrors (S S' : Settings) (d : Int) (w w' : World α) : Prop where
  clock : w'.now = w.now + d
  log : w'.disk.find? S'.logFile = w.disk.find? S.logFile
  ready : S.Ready w.disk
  ready' : S'.Ready w'.disk

namespace World.Mirrors

variable {S S' : Settings} {d : Int} {w w' : World α}

lemma logged (h : w.Mirrors S S' d w') (p q : Bool) (entry : LogEntry α) :
    (w.log S.logFile p entry).Mirrors S S' d (w'.log S'.logFile q entry) where
  clock := by rw [log_now, log_now, h.clock]
  log := by
    rw [log_disk, log_disk, h.log]
    split
    · rw [Disk.find?_put_self _ _ _ S.logFile_ne_root, Disk.find?_put_self _ _ _ S'.logFile_ne_root]
    · exact h.log
  ready := h.ready.log p entry
  ready' := h.ready'.log q entry

lemma passed (h : w.Mirrors S S' d w') (elapsed : Int) :
    World.Mirrors S S' d { w with now := w.now + elapsed } { w' with now := w'.now + elapsed } :=
  ⟨by rw [h.clock]; exact Int.add_right_comm _ _ _, h.log, h.ready, h.ready'⟩

lemma saved [Scalar α] {vars : List (Variable α)} {p : Path}
    (h : w.Mirrors S (S.inFolder p) d w') (hvars : ∀ v ∈ vars, Settles v.name)
    (records : Array (Row α)) :
    (w.saveCheckpoint S records (loggedValues S vars)).1.Mirrors S (S.inFolder p) d
        (w'.saveCheckpoint (S.inFolder p) records (loggedValues S vars)).1 ∧
      (w.saveCheckpoint S records (loggedValues S vars)).2
        = (w'.saveCheckpoint (S.inFolder p) records (loggedValues S vars)).2 := by
  obtain ⟨hready, hlog⟩ := h.ready.saveCheckpoint hvars records
  obtain ⟨hready', hlog'⟩ := h.ready'.saveCheckpoint hvars records
  refine ⟨⟨?_, ?_, hready, hready'⟩, saveCheckpoint_outcome h.ready h.ready'⟩
  · rw [saveCheckpoint_now, saveCheckpoint_now, h.clock]
  · exact hlog'.trans (h.log.trans hlog.symm)

end World.Mirrors

/-! ## Courses -/

section

variable [Scalar α] {A : Algorithm α σ (Criterion α)} {c : Course α σ (Criterion α)} {d now : Int}

/-- The course with its clocks set later by `d`. -/
def Course.shift (d : Int) (c : Course α σ (Criterion α)) : Course α σ (Criterion α) :=
  { c with rule := c.rule.shift d }

/-- An evaluation does not depend on the time. -/
lemma Course.judge_shift : (c.shift d).judge A (now + d)
    = ((c.judge A now).1.shift d, (c.judge A now).2) := by
  have hstop : StoppingRule.stop (c.shift d).rule ((c.shift d).observe A (now + d))
      = ((StoppingRule.stop c.rule (c.observe A now)).1.shift d,
        (StoppingRule.stop c.rule (c.observe A now)).2) :=
    Criterion.stop_shift d (c.observe A now) c.rule
  rw [judge, judge]
  dsimp only
  rw [hstop]
  rcases StoppingRule.stop c.rule (c.observe A now) with ⟨rule, e | decision⟩
  · rfl
  · have htracker : (c.shift d).tracker = c.tracker := rfl
    dsimp only
    rw [htracker]
    cases c.tracker with
    | none => rfl
    | some memo =>
      have hseen : (((c.shift d).observe A (now + d)).slot objectiveName).bind
          (Criterion.memoOf objectiveName ((c.shift d).observe A (now + d)))
          = ((c.observe A now).slot objectiveName).bind
            (Criterion.memoOf objectiveName (c.observe A now)) := rfl
      dsimp only
      rw [hseen]
      split <;> rfl

lemma Course.info_shift : (c.shift d).info A = c.info A := by
  have hinfo (m : Memory α) : StoppingRule.info (c.shift d).rule m = StoppingRule.info c.rule m :=
    Criterion.info_shift d m c.rule
  rw [info, info, hinfo]
  rfl

/-- Nor does its record. -/
lemma Course.row_shift : (c.shift d).row A = c.row A := by
  rw [row, row, info_shift]
  rfl

/-! ## Ticks -/

/-- A run beside its repetition in the folder `p`, `d` later. -/
structure Scene.Mirrors (S : Settings) (p : Path) (d : Int) (t t' : Scene α σ (Criterion α)) :
    Prop where
  course : t'.course = t.course.shift d
  world : t.world.Mirrors S (S.inFolder p) d t'.world

namespace Scene

variable {S : Settings} {p : Path} {print : Bool}

lemma mirrors_writeback (hA : A.Settled) :
    Alike (Mirrors S p d) (writeback A S) (writeback A (S.inFolder p)) := by
  rintro ⟨c, w⟩ ⟨c', w'⟩ ⟨rfl, hw⟩
  obtain ⟨hworld, houtcome⟩ := hw.saved (c.settles hA) c.records
  have hlogged : loggedValues (S.inFolder p) ((c.shift d).bindings A)
      = loggedValues S (c.bindings A) := rfl
  have hrecords : (c.shift d).records = c.records := rfl
  rw [writeback, writeback]
  dsimp only
  rw [hlogged, hrecords]
  rcases hsaved : w.saveCheckpoint S c.records (loggedValues S (c.bindings A)) with ⟨w₁, outcome⟩
  rcases hsaved' : w'.saveCheckpoint (S.inFolder p) c.records (loggedValues S (c.bindings A)) with
    ⟨w₂, outcome'⟩
  rw [hsaved, hsaved'] at hworld houtcome
  cases houtcome
  cases outcome with
  | ok u => exact .ok () ⟨rfl, hworld⟩
  | error e => exact .error e ⟨rfl, hworld⟩

/-- **The ticks of a run and its repetition** do the same. -/
lemma mirrors_respects (hA : A.Settled) :
    Respects (Mirrors S p d) A S (S.inFolder p) print print where
  rates := rfl
  iteration := by
    rintro ⟨c, w⟩ ⟨c', w'⟩ ⟨rfl, -⟩
    rfl
  records := by
    rintro ⟨c, w⟩ ⟨c', w'⟩ ⟨rfl, -⟩
    rfl
  log t t' entry h := ⟨h.course, h.world.logged _ _ entry⟩
  trackObjective := by
    rintro ⟨c, w⟩ ⟨c', w'⟩ ⟨rfl, hw⟩
    rw [trackObjective, trackObjective]
    have htracker : (c.shift d).tracker = c.tracker := rfl
    have hstate : (c.shift d).state = c.state := rfl
    dsimp only
    rw [htracker, hstate]
    split
    · exact .ok () ⟨rfl, hw⟩
    · split
      · exact .ok () ⟨rfl, hw⟩
      · exact .error _ ⟨rfl, hw⟩
  evaluate := by
    rintro ⟨c, w⟩ ⟨c', w'⟩ ⟨rfl, hw⟩
    rw [evaluate, evaluate]
    dsimp only
    rw [hw.clock, Course.judge_shift]
    rcases c.judge A w.now with ⟨c', e | decision⟩
    · exact .error e ⟨rfl, hw⟩
    · exact .ok decision ⟨rfl, hw⟩
  record := by
    rintro ⟨c, w⟩ ⟨c', w'⟩ ⟨rfl, hw⟩
    rw [record, record]
    dsimp only
    rw [Course.row_shift]
    split
    · exact .ok () ⟨rfl, hw⟩
    · exact .error _ ⟨rfl, hw⟩
  writeback := mirrors_writeback hA
  advance := by
    rintro ⟨c, w⟩ ⟨c', w'⟩ ⟨rfl, hw⟩
    have hstate : (c.shift d).state = c.state := rfl
    rw [advance, advance]
    dsimp only
    rw [hstate]
    split
    · exact .ok () ⟨rfl, hw.passed _⟩
    · exact .error _ ⟨rfl, hw.passed _⟩

end Scene

end

end PrimalDual
