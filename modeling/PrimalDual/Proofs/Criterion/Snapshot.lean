import PrimalDual.Proofs.Criterion.Composition
import PrimalDual.Proofs.Criterion.Reuse
import PrimalDual.Proofs.Exact.Real

/-!
# What a criterion remembers of changing arrays

The arrays of a caller change in place between evaluations.  A criterion should not notice: what it
reports, and what it compares with, are the values at the time of an evaluation.  This is the case for
everything that a criterion computes.  A recorder, though, keeps an array in memory as it is, so that a
later change shows in what it reports.

This is made precise by a second caller, who hands over copies.

* `Observation.snapshot`, `Request.copied` — an observation, and a request, with copies of all arrays.
* `stop_snapshot`, `info_detach` — an evaluation of copies, and statistics without cells.
* `Act`, `requests`, `Undisturbed` — what a caller does, and that no array that is being referred to is
  changed by it.
* `undisturbed_of_unshared` — criteria that are not handed any such array.
* **`reports_last_evaluation`** — the answers are those to a caller who hands over copies.
* `recorder_shows_change` — a recorder whose array is changed.
-/

namespace PrimalDual

variable {α : Type}

/-! ## Copies -/

namespace Observation

/-- The observation with a copy of each array in place of its cell. -/
def snapshot (o : Observation α) : Observation α where
  memory := .empty
  bindings := o.bindings.map fun entry => (entry.1, .value (o.resolve entry.2))
  now := o.now

variable {o : Observation α}

lemma slot_snapshot (o : Observation α) (name : String) :
    o.snapshot.slot name = (o.slot name).map fun s => .value (o.resolve s) := by
  have hcomp : (fun entry : String × Slot α => entry.1 == name)
      ∘ (fun entry : String × Slot α => (entry.1, Slot.value (o.resolve entry.2)))
      = fun entry => entry.1 == name := rfl
  rw [slot, slot, snapshot, List.find?_map, hcomp]
  cases o.bindings.find? fun entry => entry.1 == name with
  | none => rfl
  | some entry => rfl

/-- Values are the same in the copies. -/
lemma get_snapshot (o : Observation α) (name : String) : o.snapshot.get name = o.get name := by
  rw [get, get, slot_snapshot]
  cases o.slot name with
  | error e => rfl
  | ok s => rfl

end Observation

namespace Criterion

variable {c : Criterion α} {m m' : Memory α} {o : Observation α}

/-- A recorder that is handed a copy keeps what is in the cell. -/
lemma memoOf_snapshot (var : String) (o : Observation α) :
    (o.snapshot.slot var).bind (memoOf var o.snapshot)
      = ((o.slot var).bind (memoOf var o)).map fun memo => .value (memoValue o.memory memo) := by
  rw [Observation.slot_snapshot]
  rcases hslot : o.slot var with e | s
  · rfl
  cases s with
  | value v =>
    show memoOf var o.snapshot (.value v) = (memoOf var o (.value v)).map _
    cases v with
    | array a =>
      rw [memoOf, memoOf]
      split <;> rfl
    | number n => cases n <;> rfl
    | _ => rfl
  | array i =>
    show memoOf var o.snapshot (.value (.array (o.memory.read i))) = (memoOf var o (.array i)).map _
    rw [memoOf, memoOf]
    split
    · rfl
    · cases hbackend : (o.memory.read i).backend with
      | chunked => rfl
      | memory =>
        show Except.ok (Memo.value _) = Except.ok (Memo.value (o.memory.read i))
        rw [NdArray.onBackend, ← hbackend]

/-! ## Cells that are referred to -/

/-- The cells that the criterion refers to. -/
def refers : Criterion α → List Address
  | memorize _ (.cell i) => [i]
  | both left right | either left right => left.refers ++ right.refers
  | _ => []

/-- The variables that the criterion records. -/
def recorded : Criterion α → List String
  | memorize var _ => [var]
  | both left right | either left right => left.recorded ++ right.recorded
  | _ => []

/-- Copies are the same as long as the cells are. -/
lemma detach_congr (h : ∀ i ∈ c.refers, m'.read i = m.read i) : c.detach m' = c.detach m := by
  induction c with
  | memorize var memo =>
    cases memo with
    | cell i => rw [detach, detach, memoValue, memoValue, h i (List.mem_singleton_self i)]
    | value a => rfl
  | both left right hleft hright =>
    rw [detach, detach, hleft fun i hi => h i (List.mem_append_left _ hi),
      hright fun i hi => h i (List.mem_append_right _ hi)]
  | either left right hleft hright =>
    rw [detach, detach, hleft fun i hi => h i (List.mem_append_left _ hi),
      hright fun i hi => h i (List.mem_append_right _ hi)]
  | _ => rfl

lemma detach_of_refers (h : c.refers = []) : c.detach m = c := by
  induction c with
  | memorize var memo =>
    cases memo with
    | cell i => cases h
    | value a => rfl
  | both left right hleft hright =>
    obtain ⟨hl, hr⟩ := List.append_eq_nil_iff.1 h
    rw [detach, hleft hl, hright hr]
  | either left right hleft hright =>
    obtain ⟨hl, hr⟩ := List.append_eq_nil_iff.1 h
    rw [detach, hleft hl, hright hr]
  | _ => rfl

/-! ## Evaluations of copies -/

variable [Scalar α]

/-- **An evaluation of copies** comes to the same decision, and leaves the criterion with copies of its
own. -/
theorem stop_snapshot (o : Observation α) (c : Criterion α) :
    (c.detach o.memory).stop o.snapshot = ((c.stop o).1.detach o.memory, (c.stop o).2) := by
  induction c with
  | maxIter limit count => rfl
  | manual => rfl
  | unspecified => rfl
  | maxDuration limit start elapsed => rfl
  | memorize var memo =>
    rw [detach, stop, stop, memoOf_snapshot]
    cases (o.slot var).bind (memoOf var o) with
    | error e => rfl
    | ok memo => rfl
  | size r norms =>
    show (size r norms).stop o.snapshot = _
    rw [stop, stop, evaluateSize, evaluateSize, Observation.get_snapshot]
    split <;> rfl
  | change kind r norms previous =>
    show (change kind r norms previous).stop o.snapshot = _
    cases previous with
    | none =>
      rw [stop, stop, Observation.get_snapshot]
      split
      · rfl
      · split <;> rfl
    | some previous =>
      rw [stop, stop, Observation.get_snapshot]
      split
      · rfl
      · split <;> rfl
  | both left right hleft hright =>
    rw [detach, stop, stop, hleft, hright]
    rcases left.stop o with ⟨left', e | a⟩ <;> rfl
  | either left right hleft hright =>
    rw [detach, stop, stop, hleft, hright]
    rcases left.stop o with ⟨left', e | a⟩ <;> rfl

/-- The statistics are those of the copies, which do not depend on any cell. -/
lemma info_detach (m m' : Memory α) (c : Criterion α) : (c.detach m).info m' = c.info m := by
  induction c with
  | both left right hleft hright | either left right hleft hright =>
    rw [detach, info, info, hleft, hright]
  | _ => rfl

lemma refers_clear (now : ℤ) (c : Criterion α) : (c.clear now).refers = [] := by
  induction c with
  | both left right hleft hright => rw [clear, refers, hleft, hright, List.append_nil]
  | either left right hleft hright => rw [clear, refers, hleft, hright, List.append_nil]
  | _ => rfl

lemma recorded_clear (now : ℤ) (c : Criterion α) : (c.clear now).recorded = c.recorded := by
  induction c with
  | both left right hleft hright | either left right hleft hright =>
    rw [clear, recorded, recorded, hleft, hright]
  | _ => rfl

/-- A criterion goes on recording the same variables. -/
lemma recorded_stop (o : Observation α) (c : Criterion α) : (c.stop o).1.recorded = c.recorded := by
  rw [← recorded_clear 0, clear_stop, recorded_clear]

end Criterion

/-! ## A caller that changes its arrays -/

/-- The request of a caller that hands over copies. -/
def Request.copied : Request α → Request α
  | stop o => stop o.snapshot
  | info _ => info .empty
  | clear now => clear now

/-- What a caller does. -/
inductive Act (α : Type) where
  /-- Has the criterion evaluated. -/
  | stop (bindings : Variables α) (now : ℤ)
  /-- Asks for the statistics. -/
  | info
  /-- Starts the criterion afresh. -/
  | clear (now : ℤ)
  /-- Changes an array in place. -/
  | write (at_ : Address) (a : NdArray α)

/-- What the criterion is asked in the course of some acts. -/
def requests (m : Memory α) : List (Act α) → List (Request α)
  | [] => []
  | .stop bindings now :: later => .stop ⟨m, bindings, now⟩ :: requests m later
  | .info :: later => .info m :: requests m later
  | .clear now :: later => .clear now :: requests m later
  | .write i a :: later => requests (m.write i a) later

/-- None of the recorded variables is an array in memory that changes in place. -/
def Observation.Unshared (o : Observation α) (vars : List String) : Prop :=
  ∀ var ∈ vars, ∀ i, o.slot var = .ok (.array i) → (o.memory.read i).backend = .chunked

namespace Criterion

variable [Scalar α] {c : Criterion α} {m : Memory α} {o : Observation α} {acts : List (Act α)}

/-- No array is changed while the criterion refers to it. -/
def Undisturbed (c : Criterion α) (m : Memory α) : List (Act α) → Prop
  | [] => True
  | .stop bindings now :: later => (c.stop ⟨m, bindings, now⟩).1.Undisturbed m later
  | .info :: later => c.Undisturbed m later
  | .clear now :: later => (c.clear now).Undisturbed m later
  | .write i a :: later => i ∉ c.refers ∧ c.Undisturbed (m.write i a) later

lemma respondAll_cons (c : Criterion α) (r : Request α) (later : List (Request α)) :
    (c.respondAll (r :: later)).2 = (c.respond r).2 :: ((c.respond r).1.respondAll later).2 := rfl

/-- **As long as it is undisturbed**, a criterion answers like one that is handed copies. -/
theorem respondAll_copied (h : c.Undisturbed m acts) :
    (c.respondAll (requests m acts)).2
      = ((c.detach m).respondAll ((requests m acts).map Request.copied)).2 := by
  induction acts generalizing c m with
  | nil => rfl
  | cons act later ih =>
    cases act with
    | stop bindings now =>
      have hcopies := stop_snapshot ⟨m, bindings, now⟩ c
      have hlater := ih (c := (c.stop ⟨m, bindings, now⟩).1) h
      rw [requests, List.map_cons, respondAll_cons, respondAll_cons, Request.copied, respond, respond,
        hcopies]
      exact congrArg (List.cons _) hlater
    | info =>
      rw [requests, List.map_cons, respondAll_cons, respondAll_cons, Request.copied, respond, respond,
        info_detach]
      exact congrArg (List.cons _) (ih h)
    | clear now =>
      have hlater := ih (c := c.clear now) h
      rw [detach_of_refers (refers_clear now c)] at hlater
      rw [requests, List.map_cons, respondAll_cons, respondAll_cons, Request.copied, respond, respond,
        clear_detach]
      exact congrArg (List.cons _) hlater
    | write i a =>
      have hkeeps : c.detach (m.write i a) = c.detach m := detach_congr fun j hj =>
        Memory.read_write_other m i j a fun hij => h.1 (hij ▸ hj)
      rw [requests, ← hkeeps]
      exact ih h.2

omit [Scalar α] in
/-- Only an array in memory is kept as it is. -/
lemma memoOf_value {var : String} {s : Slot α} {memo : Memo α}
    (hs : ∀ i, s = .array i → (o.memory.read i).backend = .chunked)
    (h : memoOf var o s = .ok memo) : ∃ a, memo = .value a := by
  cases s with
  | array i =>
    rw [memoOf] at h
    split at h
    · cases h
    · rw [hs i rfl] at h
      cases h
      exact ⟨_, rfl⟩
  | value v =>
    cases v with
    | array a =>
      rw [memoOf] at h
      split at h
      · cases h
      · cases h
        exact ⟨_, rfl⟩
    | number n =>
      cases n with
      | _ =>
        cases h
        exact ⟨_, rfl⟩
    | _ => cases h

/-- A recorder that is handed no array in memory refers to none. -/
lemma refers_stop (ho : o.Unshared c.recorded) (h : c.refers = []) : (c.stop o).1.refers = [] := by
  induction c with
  | memorize var memo =>
    rw [stop]
    split
    · rename_i memo' hmemo
      rcases hslot : o.slot var with e | s
      · rw [hslot] at hmemo
        cases hmemo
      · rw [hslot] at hmemo
        obtain ⟨a, rfl⟩ := memoOf_value (fun i hi => ho var (List.mem_singleton_self var) i
          (hslot.trans (congrArg Except.ok hi))) hmemo
        rfl
    · exact h
  | size r norms =>
    rw [stop]
    split <;> rfl
  | change kind r norms previous =>
    cases previous with
    | none | some =>
      rw [stop]
      split
      · rfl
      · split <;> rfl
  | both left right hleft hright | either left right hleft hright =>
    obtain ⟨hl, hr⟩ := List.append_eq_nil_iff.1 h
    have hleft := hleft (fun var hvar => ho var (List.mem_append_left _ hvar)) hl
    have hright := hright (fun var hvar => ho var (List.mem_append_right _ hvar)) hr
    rw [stop]
    rcases hstop : left.stop o with ⟨left', e | a⟩
    · rw [hstop] at hleft
      exact List.append_eq_nil_iff.2 ⟨hleft, hr⟩
    · rw [hstop] at hleft
      exact List.append_eq_nil_iff.2 ⟨hleft, hright⟩
  | _ => rfl

/-- A criterion that is handed no array in memory to record stays undisturbed. -/
lemma undisturbed_of_unshared (h : c.refers = [])
    (hacts : ∀ o, Request.stop o ∈ requests m acts → o.Unshared c.recorded) :
    c.Undisturbed m acts := by
  induction acts generalizing c m with
  | nil => trivial
  | cons act later ih =>
    cases act with
    | stop bindings now =>
      refine ih (refers_stop (hacts _ List.mem_cons_self) h) fun o ho => ?_
      rw [recorded_stop]
      exact hacts o (List.mem_cons_of_mem _ ho)
    | info => exact ih h fun o ho => hacts o (List.mem_cons_of_mem _ ho)
    | clear now =>
      refine ih (refers_clear now c) fun o ho => ?_
      rw [recorded_clear]
      exact hacts o (List.mem_cons_of_mem _ ho)
    | write i a => exact ⟨by rw [h]; exact List.not_mem_nil, ih h hacts⟩

/-- **What a criterion reports are the values at its last evaluation.**  Whatever a caller does in
between, in whatever order, all answers are those to a caller that hands over copies of its arrays and
leaves them alone, as long as no array changes that a recorder refers to.  No criterion refers to an
array in memory unless it records the variable that holds it: not if the criterion records nothing, and
not if what it records are numbers and chunked arrays. -/
theorem reports_last_evaluation (hc : c.refers = [])
    (h : c.Undisturbed m acts ∨
      ∀ o, Request.stop o ∈ requests m acts → o.Unshared c.recorded) :
    (c.respondAll (requests m acts)).2
      = (c.respondAll ((requests m acts).map Request.copied)).2 := by
  have hundisturbed : c.Undisturbed m acts := h.elim id (undisturbed_of_unshared hc)
  rw [respondAll_copied hundisturbed, detach_of_refers hc]

/-! ## A variable that is doubled in place -/

/-- An array of one number. -/
def lone (α : Type) [Scalar α] (n : ℤ) : NdArray α := .tabulateWhole .memory [1] .int64 fun _ => n

/-- The variables `x` and `y`, in a cell each. -/
def twoVariables (α : Type) : Variables α := [("x", .array 0), ("y", .array 1)]

/-- The change of `x`, and a record of `y`. -/
def changeAndRecord : Criterion Float := both (ofChange .absolute smallStep) (ofVariable "y")

/-- Between two evaluations and after the last, `x` is changed. -/
def doublings : List (Act Float) :=
  [.stop (twoVariables _) 0, .write 0 (lone _ 2), .info, .stop (twoVariables _) 1,
    .write 0 (lone _ 4), .info]

theorem changeAndRecord_reports :
    changeAndRecord.Undisturbed ⟨#[lone _ 1, lone _ 1]⟩ doublings ∧
    (changeAndRecord.respondAll (requests ⟨#[lone _ 1, lone _ 1]⟩ doublings)).2
      = (changeAndRecord.respondAll
          ((requests ⟨#[lone _ 1, lone _ 1]⟩ doublings).map Request.copied)).2 := by
  have hundisturbed : changeAndRecord.Undisturbed ⟨#[lone _ 1, lone _ 1]⟩ doublings :=
    ⟨show 0 ∉ [1] by decide, show 0 ∉ [1] by decide, trivial⟩
  exact ⟨hundisturbed, reports_last_evaluation rfl (Or.inl hundisturbed)⟩

/-- A recorder is evaluated, its variable is changed in place, and it is asked for its statistics. -/
def changedRecord (α : Type) [Scalar α] : List (Request α) :=
  requests ⟨#[lone α 1]⟩ [.stop [("x", .array 0)] 0, .write 0 (lone α 2), .info]

/-- It reports what has become of the variable, and not what it was when it was evaluated. -/
theorem recorder_shows_change :
    ((ofVariable "x").respondAll (changedRecord Exact)).2
      = [.decision (.ok false), .statistics (.ok [("Memorize[x]", .real (Scalar.ofInt 2))])] ∧
    ((ofVariable "x").respondAll ((changedRecord Exact).map Request.copied)).2
      = [.decision (.ok false), .statistics (.ok [("Memorize[x]", .real (Scalar.ofInt 1))])] ∧
    (Scalar.ofInt 2 : Exact) ≠ Scalar.ofInt 1 := by
  refine ⟨rfl, rfl, fun h => ?_⟩
  rw [Exact.ofInt_eq, Exact.ofInt_eq, Exact.finite.injEq] at h
  norm_num at h

end Criterion

end PrimalDual
