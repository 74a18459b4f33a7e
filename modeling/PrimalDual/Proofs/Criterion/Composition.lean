import Mathlib.Data.Nat.Notation
import Mathlib.Tactic.Lemma
import PrimalDual.Criterion.Basic
import PrimalDual.Scalar.Binary64

/-!
# Trees of criteria

Criteria that are combined make up a tree.  A combination evaluates both of its sides, whatever one of
them decides, so every leaf of a tree sees each observation once, and remembers what it would remember
if it were on its own.

* `Criterion.leaves`, `Criterion.mapLeaves`, `Criterion.formula` — the leaves of a tree, and the
  formula that a tree is.
* `Criterion.asked` — the leaves that one evaluation of a tree evaluates.
* `Criterion.after`, `Criterion.decides` — evaluations one after the other.
* `Combines`, `Combines.after`, `Combines.decides` — a combination evaluates both of its sides.
* `both_sides`, `either_sides` — a decision has come from both sides.
* **`tree_evaluates_leaves`** — a tree decides by its formula, and each leaf is as if alone.

Leaves at two places of a tree are two criteria, even if they are equal.
-/

namespace PrimalDual

namespace Criterion

variable {α : Type}

/-! ## Trees -/

/-- Whether a criterion is no combination. -/
def IsLeaf : Criterion α → Prop
  | both _ _ | either _ _ => False
  | _ => True

/-- The leaves of a tree, from left to right. -/
def leaves : Criterion α → List (Criterion α)
  | both left right | either left right => left.leaves ++ right.leaves
  | c => [c]

/-- The tree with `f l` in place of each leaf `l`. -/
def mapLeaves (f : Criterion α → Criterion α) : Criterion α → Criterion α
  | both left right => both (left.mapLeaves f) (right.mapLeaves f)
  | either left right => either (left.mapLeaves f) (right.mapLeaves f)
  | c => f c

/-- The value of the formula that a tree is, if a leaf `l` has the value `p l`. -/
def formula (p : Criterion α → Bool) : Criterion α → Bool
  | both left right => left.formula p && right.formula p
  | either left right => left.formula p || right.formula p
  | c => p c

variable [Scalar α]

/-! ## One evaluation -/

/-- The leaves that an evaluation evaluates, in order: those on the right only if the left side does
not fail. -/
def asked (o : Observation α) : Criterion α → List (Criterion α)
  | both left right | either left right =>
    match (left.stop o).2 with
    | .ok _ => left.asked o ++ right.asked o
    | .error _ => left.asked o
  | c => [c]

/-- An evaluation that comes to a decision has evaluated every leaf, once. -/
lemma asked_of_decided {o : Observation α} {c : Criterion α} {decision : Bool}
    (h : (c.stop o).2 = .ok decision) : c.asked o = c.leaves := by
  induction c generalizing decision with
  | both left right hleft hright | either left right hleft hright =>
    rw [stop] at h
    rw [asked, leaves]
    rcases hstop : left.stop o with ⟨left', e | a⟩
    · rw [hstop] at h
      cases h
    · rw [hstop] at h hleft
      dsimp only at h
      rcases hdecided : (right.stop o).2 with e | b
      · rw [hdecided] at h
        cases h
      · rw [hleft rfl, hright hdecided]
  | _ => rfl

/-- What becomes of a leaf is a leaf. -/
lemma leaves_stop_leaf (o : Observation α) {c : Criterion α} (h : c.IsLeaf) :
    (c.stop o).1.leaves = [(c.stop o).1] := by
  cases c with
  | maxIter | manual | unspecified | maxDuration => rfl
  | memorize var memo | size rule norms =>
    rw [stop]
    split <;> rfl
  | change kind rule norms previous =>
    cases previous with
    | none | some =>
      rw [stop]
      split
      · rfl
      · split <;> rfl
  | both | either => exact h.elim

/-- An evaluation changes the leaves that it evaluates, and no others. -/
lemma leaves_stop (o : Observation α) (c : Criterion α) :
    ∃ rest, c.leaves = c.asked o ++ rest ∧
      (c.stop o).1.leaves = (c.asked o).map (fun l => (l.stop o).1) ++ rest := by
  induction c with
  | both left right hleft hright | either left right hleft hright =>
    obtain ⟨restL, hleaves, hleft⟩ := hleft
    obtain ⟨restR, hrest, hright⟩ := hright
    rw [stop, asked, leaves]
    rcases hstop : left.stop o with ⟨left', e | a⟩
    · rw [hstop] at hleft
      refine ⟨restL ++ right.leaves, by rw [hleaves, List.append_assoc], ?_⟩
      dsimp only at hleft ⊢
      rw [leaves, hleft, List.append_assoc]
    · have hall : left.asked o = left.leaves := asked_of_decided (congrArg Prod.snd hstop)
      have hnone : restL = [] := by
        rw [hall] at hleaves
        exact List.self_eq_append_right.1 hleaves
      rw [hstop] at hleft
      refine ⟨restR, by rw [hall, List.append_assoc, ← hrest], ?_⟩
      dsimp only at hleft ⊢
      rw [leaves, hleft, hright, hnone, List.append_nil, List.map_append, List.append_assoc]
  | maxIter | manual | unspecified | maxDuration | memorize | size | change =>
    exact ⟨[], rfl, leaves_stop_leaf o trivial⟩

/-- An evaluation that comes to a decision changes every leaf, as if it were alone. -/
lemma leaves_of_decided {o : Observation α} {c : Criterion α} {decision : Bool}
    (h : (c.stop o).2 = .ok decision) :
    (c.stop o).1.leaves = c.leaves.map fun l => (l.stop o).1 := by
  obtain ⟨rest, hleaves, hstop⟩ := leaves_stop o c
  rw [asked_of_decided h] at hleaves hstop
  rw [hstop, List.self_eq_append_right.mp hleaves, List.append_nil]

/-! ## Evaluations one after the other -/

/-- The criterion after its first `k` evaluations. -/
def after (o : ℕ → Observation α) (c : Criterion α) : ℕ → Criterion α
  | 0 => c
  | k + 1 => ((c.after o k).stop (o k)).1

/-- What evaluation `k` comes to; the first one has the number zero. -/
def decides (o : ℕ → Observation α) (c : Criterion α) (k : ℕ) : Except Fault Bool :=
  ((c.after o k).stop (o k)).2

/-- Whether evaluation `k` says to stop. -/
def fires (o : ℕ → Observation α) (c : Criterion α) (k : ℕ) : Bool :=
  match c.decides o k with
  | .ok decision => decision
  | .error _ => false

variable {o : ℕ → Observation α} {c left right : Criterion α} {k : ℕ}

lemma fires_of_decides {decision : Bool} (h : c.decides o k = .ok decision) :
    c.fires o k = decision := by
  rw [fires, h]

/-! ## Combinations -/

namespace Combines

variable {node : Criterion α → Criterion α → Criterion α} {op : Bool → Bool → Bool}

/-- The sides of a combination are evaluated as if each of them were alone. -/
lemma after (h : Combines node op) (hleft : ∀ i < k, ∃ a, left.decides o i = .ok a) :
    (node left right).after o k = node (left.after o k) (right.after o k) := by
  induction k with
  | zero => rfl
  | succ k ih =>
    obtain ⟨a, ha⟩ := hleft k (Nat.lt_succ_self k)
    rw [Criterion.after, ih fun i hi => hleft i (Nat.lt_succ_of_lt hi), h _ _ _ a ha]
    rfl

/-- What a combination decides is up to the decisions of both sides. -/
lemma decides {a b : Bool} (h : Combines node op) (hbefore : ∀ i < k, ∃ a, left.decides o i = .ok a)
    (hleft : left.decides o k = .ok a) (hright : right.decides o k = .ok b) :
    (node left right).decides o k = .ok (op a b) := by
  rw [Criterion.decides] at hright
  rw [Criterion.decides, h.after hbefore, h _ _ _ a hleft, hright]
  rfl

/-- What is known of both sides is known of their combination. -/
lemma tree (h : Combines node op) {f : Criterion α → ℕ → Bool}
    (hleft : left.after o k = left.mapLeaves (·.after o k) ∧
      ∀ i < k, left.decides o i = .ok (f left i))
    (hright : right.after o k = right.mapLeaves (·.after o k) ∧
      ∀ i < k, right.decides o i = .ok (f right i)) :
    (node left right).after o k
        = node (left.mapLeaves (·.after o k)) (right.mapLeaves (·.after o k)) ∧
      ∀ i < k, (node left right).decides o i = .ok (op (f left i) (f right i)) := by
  have hdecided : ∀ i < k, ∃ a, left.decides o i = .ok a := fun i hi => ⟨_, hleft.2 i hi⟩
  refine ⟨?_, fun i hi => ?_⟩
  · rw [h.after hdecided, hleft.1, hright.1]
  · exact h.decides (fun j hj => hdecided j (Nat.lt_trans hj hi)) (hleft.2 i hi) (hright.2 i hi)

end Combines

/-! ### Both sides of a decision -/

/-- A combination that comes to a decision has got one from each of its sides. -/
lemma Combines.sides {node : Criterion α → Criterion α → Criterion α} {op : Bool → Bool → Bool}
    {o : Observation α} {decision : Bool} (h : Combines node op)
    (hfails : ∀ e, (left.stop o).2 = .error e → ((node left right).stop o).2 = .error e)
    (hdecision : ((node left right).stop o).2 = .ok decision) :
    ∃ a b, (left.stop o).2 = .ok a ∧ (right.stop o).2 = .ok b ∧ decision = op a b ∧
      ((node left right).stop o).1 = node (left.stop o).1 (right.stop o).1 := by
  cases hleft : (left.stop o).2 with
  | error e =>
    rw [hfails e hleft] at hdecision
    cases hdecision
  | ok a =>
    rw [h left right o a hleft] at hdecision ⊢
    cases hright : (right.stop o).2 with
    | error e =>
      rw [hright] at hdecision
      cases hdecision
    | ok b =>
      rw [hright] at hdecision
      cases hdecision
      exact ⟨a, b, rfl, rfl, rfl, rfl⟩

lemma both_sides {o : Observation α} {decision : Bool}
    (h : ((both left right).stop o).2 = .ok decision) :
    ∃ a b, (left.stop o).2 = .ok a ∧ (right.stop o).2 = .ok b ∧ decision = (a && b) ∧
      ((both left right).stop o).1 = both (left.stop o).1 (right.stop o).1 := by
  refine both_combines.sides (fun e he => ?_) h
  rw [stop]
  rcases hstop : left.stop o with ⟨left', outcome⟩
  rw [hstop] at he
  cases he
  rfl

lemma either_sides {o : Observation α} {decision : Bool}
    (h : ((either left right).stop o).2 = .ok decision) :
    ∃ a b, (left.stop o).2 = .ok a ∧ (right.stop o).2 = .ok b ∧ decision = (a || b) ∧
      ((either left right).stop o).1 = either (left.stop o).1 (right.stop o).1 := by
  refine either_combines.sides (fun e he => ?_) h
  rw [stop]
  rcases hstop : left.stop o with ⟨left', outcome⟩
  rw [hstop] at he
  cases he
  rfl

/-! ## A number of evaluations -/

lemma after_maxIter (n : Int) : (maxIter n 0).after o k = maxIter n k := by
  induction k with
  | zero => rfl
  | succ k ih =>
    rw [after, ih]
    rfl

lemma decides_maxIter (n : Int) : (maxIter n 0).decides o k = .ok (decide (n ≤ k)) := by
  rw [decides, after_maxIter, stop]
  simp only [Int.lt_add_one_iff]

/-- The criterion of a number of evaluations has not counted any yet. -/
lemma ofLimit_eq {v : Value α} {n : Int} (hv : v.toWhole = .ok n) (h : ofLimit v = .ok c) :
    c = maxIter n 0 := by
  rw [ofLimit, hv] at h
  dsimp only at h
  split at h
  · exact (Except.ok.inj h).symm
  · cases h

/-! ## The tree -/

/-- The leaves of a tree are as they would be on their own, and it decides by its formula. -/
lemma tree_decides (h : ∀ l ∈ c.leaves, ∀ i < k, ∃ decision, l.decides o i = .ok decision) :
    c.after o k = c.mapLeaves (·.after o k) ∧
      ∀ i < k, c.decides o i = .ok (c.formula (·.fires o i)) := by
  induction c with
  | both left right hleft hright =>
    exact both_combines.tree (f := fun c i => c.formula (·.fires o i))
      (hleft fun l hl => h l (List.mem_append_left _ hl))
      (hright fun l hl => h l (List.mem_append_right _ hl))
  | either left right hleft hright =>
    exact either_combines.tree (f := fun c i => c.formula (·.fires o i))
      (hleft fun l hl => h l (List.mem_append_left _ hl))
      (hright fun l hl => h l (List.mem_append_right _ hl))
  | _ =>
    refine ⟨rfl, fun i hi => ?_⟩
    obtain ⟨decision, hdecision⟩ := h _ (List.mem_singleton_self _) i hi
    rw [hdecision]
    exact congrArg Except.ok (fires_of_decides hdecision).symm

/-- **A tree of criteria** evaluates every leaf once with each observation, whatever the other leaves
decide: after any number of evaluations its leaves are what they would be on their own, and it decides
what its formula says of their own decisions.  In particular a tree that has to agree with a number
`n` of evaluations never stops within these, and does as it would on its own from then on. -/
theorem tree_evaluates_leaves
    (h : ∀ l ∈ c.leaves, ∀ i < k, ∃ decision, l.decides o i = .ok decision) :
    (∀ i < k, (c.after o i).asked (o i) = (c.after o i).leaves) ∧
    (∀ i ≤ k, c.after o i = c.mapLeaves (·.after o i)) ∧
    (∀ i < k, c.decides o i = .ok (c.formula (·.fires o i))) ∧
    ∀ (v : Value α) (n : Int) (limit : Criterion α), v.toWhole = .ok n → ofLimit v = .ok limit →
      ∀ i < k, (both limit c).decides o i = .ok (decide (n ≤ i) && c.fires o i) := by
  have hdecides := (tree_decides h).2
  refine ⟨fun i hi => asked_of_decided (hdecides i hi), fun i hi => ?_, hdecides, ?_⟩
  · exact (tree_decides fun l hl j hj => h l hl j (Nat.lt_of_lt_of_le hj hi)).1
  · intro v n limit hv hlimit i hi
    obtain rfl := ofLimit_eq hv hlimit
    refine both_combines.decides (fun j _ => ⟨_, decides_maxIter n⟩) (decides_maxIter n) ?_
    rw [fires_of_decides (hdecides i hi)]
    exact hdecides i hi

/-- An evaluation that finds the number `k` in the only variable. -/
def sight (k : ℕ) : Observation Float :=
  ⟨⟨#[.tabulate .memory [1] .double fun _ => Scalar.ofInt k]⟩, [("x", .array 0)], 0⟩

/-- A small change of the variable. -/
def smallStep : NormRule Float := ⟨.real (Scalar.ratio 1 2), "x", 1, .ok, .int 2, true⟩

/-- Stops at a small change, not at once, and keeps a record. -/
def watch : Criterion Float :=
  either (both (maxIter 1 0) (ofChange .absolute smallStep)) (ofVariable "x")

theorem watch_evaluates_leaves :
    (∀ i < 3, (watch.after sight i).asked (sight i) = (watch.after sight i).leaves) ∧
    (∀ i ≤ 3, watch.after sight i = watch.mapLeaves (·.after sight i)) ∧
    (∀ i < 3, watch.decides sight i = .ok (watch.formula (·.fires sight i))) ∧
    ∀ i < 3, (both (maxIter 2 0) watch).decides sight i
      = .ok (decide ((2 : Int) ≤ i) && watch.fires sight i) := by
  have hleaves : ∀ l ∈ watch.leaves, ∀ i < 3, ∃ decision, l.decides sight i = .ok decision := by
    intro l hl i hi
    have hone : l = maxIter 1 0 ∨ l = ofChange .absolute smallStep ∨ l = ofVariable "x" := by
      simpa only [List.mem_cons, List.not_mem_nil, or_false] using
        (show l ∈ [maxIter 1 0, ofChange .absolute smallStep, ofVariable "x"] from hl)
    rcases hone with rfl | rfl | rfl <;> match i, hi with
      | 0, _ | 1, _ | 2, _ => exact ⟨_, rfl⟩
  obtain ⟨hasked, hafter, hdecides, hlimit⟩ := tree_evaluates_leaves hleaves
  exact ⟨hasked, hafter, hdecides, hlimit (.number (.int 2)) 2 (maxIter 2 0) rfl rfl⟩

end Criterion

end PrimalDual
