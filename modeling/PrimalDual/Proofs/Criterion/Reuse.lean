import PrimalDual.Proofs.Criterion.Renewal
import PrimalDual.Proofs.Outcome
import PrimalDual.Scalar.Binary64

/-!
# Criteria that are used again

A criterion that has driven a run is cleared and drives the next one.  Whatever it was asked before,
with or without success, it then answers what a new one answers.

* `Plan`, `Plan.make` — a tree of criteria by the arguments of its leaves, and how it is made.
* `Request`, `Criterion.respondAll` — what a criterion is asked, and what it answers.
* `make_clear` — a plan makes the same criterion at any time, up to the time itself.
* `respondAll_used`, `respondAll_shift` — requests use a criterion, and ask for time differences only.
* **`cleared_as_new`** — a criterion that is cleared answers like a new one.
-/

namespace PrimalDual

variable {α : Type} [Scalar α]

/-! ## Plans -/

/-- The arguments of a criterion on the norm of a variable, as they are given. -/
structure NormArguments (α : Type) where
  threshold : Value α
  var : String
  rank : Value α
  feature : Value α → Except Fault (Value α)
  order : Value α
  satisfyAll : Value α

/-- A tree of criteria that is yet to be made. -/
inductive Plan (α : Type) where
  | maxIter (limit : Value α)
  | manual
  | maxDuration (limit : Duration)
  | memorize (var : String)
  | size (arguments : NormArguments α)
  | change (kind : ChangeKind) (arguments : NormArguments α)
  | both (left right : Plan α)
  | either (left right : Plan α)

/-- The rule that the arguments make, if they are accepted. -/
def NormArguments.rule (a : NormArguments α) : Except Fault (NormRule α) :=
  NormRule.read a.threshold a.var a.rank a.feature a.order a.satisfyAll

namespace Plan

/-- The criterion that is made at a time. -/
def make (now : Int) : Plan α → Except Fault (Criterion α)
  | maxIter limit => Criterion.ofLimit limit
  | manual => .ok .manual
  | maxDuration limit => Criterion.ofDuration limit now
  | memorize var => .ok (Criterion.ofVariable var)
  | size arguments => arguments.rule.map Criterion.ofNorm
  | change kind arguments => arguments.rule.map (Criterion.ofChange kind)
  | both left right => do
    let left ← left.make now
    let right ← right.make now
    pure (.both left right)
  | either left right => do
    let left ← left.make now
    let right ← right.make now
    pure (.either left right)

/-- At another time, a plan makes the criterion with its clocks started at that time. -/
lemma make_clear {p : Plan α} {c : Criterion α} {earlier : Int} (h : p.make earlier = .ok c)
    (now : Int) : p.make now = .ok (c.clear now) := by
  induction p generalizing c with
  | maxIter limit =>
    rw [make, Criterion.ofLimit] at h ⊢
    split at h
    · split at h
      · cases h
        rename_i hpositive
        exact if_pos hpositive
      · cases h
    · cases h
  | manual | memorize var =>
    cases h
    rfl
  | maxDuration limit =>
    rw [make, Criterion.ofDuration] at h ⊢
    split at h
    · cases h
      rename_i hpositive
      exact if_pos hpositive
    · cases h
  | size arguments | change kind arguments =>
    rw [make] at h ⊢
    cases hrule : arguments.rule with
    | error e =>
      rw [hrule] at h
      cases h
    | ok rule =>
      rw [hrule] at h
      cases h
      rfl
  | both left right hleft hright | either left right hleft hright =>
    rw [make] at h ⊢
    obtain ⟨l, hl, h⟩ := ok_of_bind h
    obtain ⟨r, hr, h⟩ := ok_of_bind h
    cases h
    rw [hleft hl, hright hr]
    rfl

end Plan

/-! ## Requests -/

/-- What a criterion is asked to do. -/
inductive Request (α : Type) where
  | stop (o : Observation α)
  | info (m : Memory α)
  | clear (now : Int)

/-- The request at a later time. -/
def Request.later (d : Int) : Request α → Request α
  | stop o => stop { o with now := o.now + d }
  | info m => info m
  | clear now => clear (now + d)

/-- What a criterion answers. -/
inductive Answer (α : Type) where
  | decision (outcome : Except Fault Bool)
  | statistics (entries : Except Fault (List (String × Number α)))
  | cleared

namespace Criterion

variable {c c' : Criterion α}

/-- Does what a request asks for. -/
def respond (c : Criterion α) : Request α → Criterion α × Answer α
  | .stop o => ((c.stop o).1, .decision (c.stop o).2)
  | .info m => (c, .statistics (c.info m))
  | .clear now => (c.clear now, .cleared)

/-- Does what one request after the other asks for. -/
def respondAll (c : Criterion α) : List (Request α) → Criterion α × List (Answer α)
  | [] => (c, [])
  | r :: later =>
    (((c.respond r).1.respondAll later).1, (c.respond r).2 :: ((c.respond r).1.respondAll later).2)

/-- Requests use a criterion, and do nothing else with it. -/
lemma respondAll_used {requests : List (Request α)} (h : c.Used c') :
    c.Used (c'.respondAll requests).1 := by
  induction requests generalizing c' with
  | nil => exact h
  | cons r later ih =>
    cases r with
    | stop o => exact ih (h.stop o)
    | info m => exact ih h
    | clear now => exact ih (h.clear now)

/-- A fresh start does not ask when the clocks were started before. -/
lemma clear_of_shift (d now : Int) (c : Criterion α) : (c.shift d).clear now = c.clear now := by
  induction c with
  | both left right hleft hright | either left right hleft hright =>
    rw [shift, clear, clear, hleft, hright]
  | _ => rfl

/-- Clocks and requests that are all later by the same time make no difference. -/
lemma respondAll_shift (d : Int) (requests : List (Request α)) (c : Criterion α) :
    ((c.shift d).respondAll (requests.map (·.later d))).2 = (c.respondAll requests).2 := by
  induction requests generalizing c with
  | nil => rfl
  | cons r later ih =>
    rw [List.map_cons, respondAll, respondAll]
    cases r with
    | stop o => rw [Request.later, respond, respond, stop_shift, ih]
    | info m => rw [Request.later, respond, respond, info_shift, ih]
    | clear now =>
      rw [Request.later, respond, respond, clear_of_shift, clear_shift, ih]

/-- **A criterion that is cleared** is as good as new: whatever it was asked before, all that it
answers from then on is what a new criterion of the same arguments answers, as long as the same time
has passed since it was made. -/
theorem cleared_as_new {p : Plan α} {made : Int} (h : p.make made = .ok c)
    (before later : List (Request α)) (now start : Int) :
    ∃ fresh, p.make start = .ok fresh ∧
      (((c.respondAll before).1.clear now).respondAll later).2
        = (fresh.respondAll (later.map (·.later (start - now)))).2 := by
  have hclear : (c.respondAll before).1.clear now = c.clear now :=
    (respondAll_used .new).clear_eq now
  have hstart : c.clear start = (c.clear now).shift (start - now) := by
    rw [← clear_shift, Int.add_comm, Int.sub_add_cancel]
  refine ⟨c.clear start, Plan.make_clear h start, ?_⟩
  rw [hclear, hstart, respondAll_shift]

/-- A change, two evaluations at least, and a second at most. -/
def patience : Plan Float :=
  .either (.both (.maxIter (.number (.int 2)))
      (.change .relative ⟨.number (.int 1), "x", .number (.int 1), .ok, .number (.int 2), .null⟩))
    (.maxDuration 1000000)

theorem patience_as_new :
    ∃ c, patience.make 0 = .ok c ∧ ∀ before later : List (Request Float),
      ∃ fresh, patience.make 70 = .ok fresh ∧
        (((c.respondAll before).1.clear 50).respondAll later).2
          = (fresh.respondAll (later.map (·.later 20))).2 := by
  have hmade : patience.make 0 = .ok _ := rfl
  exact ⟨_, hmade, fun before later => cleared_as_new hmade before later 50 70⟩

end Criterion

end PrimalDual
