import Mathlib.Data.Nat.Notation
import Mathlib.Tactic.Lemma
import PrimalDual.Run.Solver

/-!
# Driving a run

A worker and a caller that pulls steps advance a run in loops of their own, with their own counters
and their own ways to end.  Both take the same ticks.  This file states what some number of ticks
does to a run, and that a worker does just that and keeps what ended the run for later.

* `Scene.drive`, `Standing` — some number of ticks, and how the run stands afterwards.
* `Scene.items` — the logged variables after each tick.
* **`work_eq`** — what a worker does.
-/

namespace PrimalDual

variable {α σ κ : Type}

/-- How a run stands. -/
inductive Standing where
  | going
  /-- The rule has ended it. -/
  | satisfied
  | failed (e : Fault)

namespace Standing

/-- What ended the run early. -/
def failure : Standing → Option Fault
  | failed e => some e
  | _ => none

/-- Whether the run goes on. -/
def goesOn : Standing → Bool
  | going => true
  | _ => false

end Standing

section

variable [Scalar α] [StoppingRule α κ]

/-- At most `k` ticks of a run. -/
def Scene.drive (A : Algorithm α σ κ) (S : Settings) (print : Bool) :
    ℕ → Scene α σ κ → Scene α σ κ × Standing
  | 0, t => (t, .going)
  | k + 1, t =>
    match Scene.tick A S print t with
    | .ok true t => drive A S print k t
    | .ok false t => (t, .satisfied)
    | .error e t => (t, .failed e)

namespace Scene

variable {A : Algorithm α σ κ} {S : Settings} {print : Bool} {k : ℕ} {t t' : Scene α σ κ}
  {st : Standing}

/-- A run that has ended stays as it is. -/
lemma drive_of_ended (h : drive A S print k t = (t', st)) (hst : st.goesOn = false) (m : ℕ) :
    drive A S print (k + m) t = (t', st) := by
  induction k generalizing t with
  | zero =>
    rw [drive, Prod.mk.injEq] at h
    rw [← h.2] at hst
    cases hst
  | succ k ih =>
    rw [Nat.succ_add, drive]
    rw [drive] at h
    split at h
    · exact ih h
    · exact h
    · exact h

/-- A run that goes on is continued from where it is. -/
lemma drive_add (h : drive A S print k t = (t', .going)) (m : ℕ) :
    drive A S print (k + m) t = drive A S print m t' := by
  induction k generalizing t with
  | zero =>
    rw [drive, Prod.mk.injEq] at h
    rw [Nat.zero_add, h.1]
  | succ k ih =>
    rw [Nat.succ_add, drive]
    rw [drive] at h
    split at h
    · exact ih h
    · cases h
    · cases h

/-- Whatever a run comes to, there is a last number of ticks after which it still goes on. -/
lemma exists_last_going (h : drive A S print k t = (t', st)) (hst : st.goesOn = false) :
    ∃ n < k, ∃ u, drive A S print n t = (u, .going) ∧ drive A S print (n + 1) t = (t', st) := by
  induction k generalizing t with
  | zero =>
    rw [drive, Prod.mk.injEq] at h
    rw [← h.2] at hst
    cases hst
  | succ k ih =>
    rcases htick : tick A S print t with ⟨goesOn, u⟩ | ⟨e, u⟩
    · cases goesOn with
      | true =>
        rw [drive, htick] at h
        obtain ⟨n, hn, v, hgoing, hend⟩ := ih h
        refine ⟨n + 1, Nat.succ_lt_succ hn, v, ?_, ?_⟩
        · rw [drive, htick]
          exact hgoing
        · rw [drive, htick]
          exact hend
      | false =>
        refine ⟨0, Nat.succ_pos k, t, rfl, ?_⟩
        rw [drive, htick] at h ⊢
        exact h
    · refine ⟨0, Nat.succ_pos k, t, rfl, ?_⟩
      rw [drive, htick] at h ⊢
      exact h

/-- One more tick of a run that goes on. -/
lemma drive_succ {u : Scene α σ κ} (h : drive A S print k t = (u, .going)) :
    drive A S print (k + 1) t = match tick A S print u with
      | .ok true v => (v, .going)
      | .ok false v => (v, .satisfied)
      | .error e v => (v, .failed e) := by
  rw [drive_add h, drive]
  rcases tick A S print u with ⟨goesOn, v⟩ | ⟨e, v⟩
  · cases goesOn <;> rfl
  · rfl

/-- A run that goes on has gone on all the time. -/
lemma exists_going {m : ℕ} (h : drive A S print (k + m) t = (t', .going)) :
    ∃ u, drive A S print k t = (u, .going) := by
  rcases hk : drive A S print k t with ⟨u, st⟩
  cases st with
  | going => exact ⟨u, rfl⟩
  | satisfied =>
    rw [drive_of_ended hk rfl] at h
    cases h
  | failed e =>
    rw [drive_of_ended hk rfl] at h
    cases h

/-- The tick that lets a run go on. -/
lemma tick_of_going {u : Scene α σ κ} (hgoing : drive A S print k t = (u, .going))
    (h : drive A S print (k + 1) t = (t', .going)) : tick A S print u = .ok true t' := by
  rw [drive_succ hgoing] at h
  split at h
  · cases h
    assumption
  · cases h
  · cases h

/-- The tick in which the rule ends a run. -/
lemma tick_of_satisfied {u : Scene α σ κ} (hgoing : drive A S print k t = (u, .going))
    (h : drive A S print (k + 1) t = (t', .satisfied)) : tick A S print u = .ok false t' := by
  rw [drive_succ hgoing] at h
  split at h
  · cases h
  · cases h
    assumption
  · cases h

/-- The tick in which a run fails. -/
lemma tick_of_failed {u : Scene α σ κ} {e : Fault} (hgoing : drive A S print k t = (u, .going))
    (h : drive A S print (k + 1) t = (t', .failed e)) : tick A S print u = .error e t' := by
  rw [drive_succ hgoing] at h
  split at h
  · cases h
  · cases h
  · cases h
    assumption

/-- There is one last number of ticks after which a run still goes on. -/
lemma last_going_unique {m : ℕ} {u u' : Scene α σ κ} {st' : Standing}
    (hk : drive A S print k t = (u, .going)) (hk' : drive A S print (k + 1) t = (t', st))
    (hst : st.goesOn = false) {v : Scene α σ κ} (hm : drive A S print m t = (v, .going))
    (hm' : drive A S print (m + 1) t = (u', st')) (hst' : st'.goesOn = false) : m = k := by
  rcases Nat.lt_trichotomy m k with hlt | heq | hlt
  · obtain ⟨n, rfl⟩ := Nat.exists_eq_add_of_le (Nat.succ_le_of_lt hlt)
    obtain ⟨x, hx⟩ := exists_going hk
    cases hm'.symm.trans hx
    cases hst'
  · exact heq
  · obtain ⟨n, rfl⟩ := Nat.exists_eq_add_of_le (Nat.succ_le_of_lt hlt)
    obtain ⟨x, hx⟩ := exists_going hm
    cases hk'.symm.trans hx
    cases hst

end Scene

/-- The logged variables after each of the first `k` ticks. -/
def Scene.items (A : Algorithm α σ κ) (S : Settings) (print : Bool) (k : ℕ) (t : Scene α σ κ) :
    List (Parameters α) :=
  (List.range k).map fun i => loggedValues S ((Scene.drive A S print (i + 1) t).1.course.bindings A)

namespace Scene

variable {A : Algorithm α σ κ} {S : Settings} {print : Bool} {k : ℕ} {t t' : Scene α σ κ}

/-- The items of a run that is continued. -/
lemma items_add (h : drive A S print k t = (t', .going)) (m : ℕ) :
    items A S print (k + m) t = items A S print k t ++ items A S print m t' := by
  rw [items, List.range_add, List.map_append, List.map_map]
  congr 1
  refine List.map_congr_left fun i _ => ?_
  show loggedValues S ((drive A S print (k + i + 1) t).1.course.bindings A) = _
  rw [Nat.add_assoc, drive_add h]

lemma drive_one (h : tick A S print t = .ok true t') : drive A S print 1 t = (t', .going) := by
  rw [drive, h]
  rfl

lemma items_succ (h : tick A S print t = .ok true t') :
    items A S print (k + 1) t
      = loggedValues S (t'.course.bindings A) :: items A S print k t' := by
  rw [Nat.add_comm, items_add (drive_one h), items, List.range_one, List.map_singleton,
    List.singleton_append, drive_one h]

end Scene

namespace Solver

variable {s s' : Solver α σ κ} {w w' : World α} {c : Course α σ κ}

/-! ## The worker -/

/-- A tick of the solver is a tick of its run. -/
lemma tick_running (hs : s.phase = .running c) : s.tick w =
    match Scene.tick s.algorithm s.settings s.printing ⟨c, w⟩ with
    | .ok goesOn t => ({ s with phase := .running t.course }, t.world, .ok goesOn)
    | .error e t => ({ s with phase := .running t.course }, t.world, .error e) := by
  rcases htick : Scene.tick s.algorithm s.settings s.printing ⟨c, w⟩ with ⟨goesOn, t⟩ | ⟨e, t⟩
  · simp only [tick, hs, htick]
  · simp only [tick, hs, htick]

/-- **What a worker does** within some number of ticks. -/
theorem work_eq {k : ℕ} {t : Scene α σ κ} {st : Standing}
    (h : Scene.drive s.algorithm s.settings s.printing k ⟨c, w⟩ = (t, st))
    (hs : s.phase = .running c) (hactive : s.active = true) (hfailure : s.failure = none) :
    work k s w = ({ s with
      phase := .running t.course
      active := st.goesOn
      failure := st.failure }, t.world) := by
  induction k generalizing s w c with
  | zero =>
    cases h
    cases s
    simp only at hs hactive hfailure
    subst hs hactive hfailure
    rfl
  | succ k ih =>
    rw [work, hactive, Bool.not_true, if_neg Bool.false_ne_true, tick_running hs]
    rw [Scene.drive] at h
    rcases htick : Scene.tick s.algorithm s.settings s.printing ⟨c, w⟩ with ⟨goesOn, v⟩ | ⟨e, v⟩
    · rw [htick] at h
      cases goesOn with
      | true => exact ih h rfl hactive hfailure
      | false =>
        cases h
        rw [hfailure]
        rfl
    · rw [htick] at h
      cases h
      rfl

end Solver

end

end PrimalDual
