import Mathlib.Data.ENat.Lattice
import PrimalDual.Proofs.Criterion.Composition
import PrimalDual.Proofs.Criterion.Renewal

/-!
# How long a criterion lets go on

A number of evaluations is the only criterion that is sure to stop.  A disjunction stops with the side
that lets go on for less, a conjunction with the one that lets go on for more, and any other criterion
may go on for ever.

* `Criterion.bound` — the number of evaluations that a criterion lets pass at most.
* `Criterion.remaining` — what is left of it.
* **`stop_remaining`** — an evaluation uses up one of them, and stops when there was none left.
* **`decides_of_remaining`** — so does any number of evaluations.
-/

namespace PrimalDual

namespace Criterion

variable {α : Type}

/-- The number of evaluations that the criterion lets pass at most. -/
noncomputable def bound : Criterion α → ℕ∞
  | maxIter limit _ => limit.toNat
  | both left right => max left.bound right.bound
  | either left right => min left.bound right.bound
  | _ => ⊤

/-- The number of evaluations that the criterion lets pass from now on. -/
noncomputable def remaining : Criterion α → ℕ∞
  | maxIter limit count => (limit - count).toNat
  | both left right => max left.remaining right.remaining
  | either left right => min left.remaining right.remaining
  | _ => ⊤

variable [Scalar α] {c c' : Criterion α} {o : Observation α} {decision : Bool} {k n : ℕ}

/-- A criterion that is started afresh has its whole bound left. -/
lemma remaining_clear (now : ℤ) (c : Criterion α) : (c.clear now).remaining = c.bound := by
  induction c with
  | maxIter limit count => simp [clear, remaining, bound]
  | both left right hleft hright => rw [clear, remaining, bound, hleft, hright]
  | either left right hleft hright => rw [clear, remaining, bound, hleft, hright]
  | _ => rfl

/-- Whatever a criterion has been used for, its bound stays. -/
lemma Used.bound_eq (h : Used c c') : c'.bound = c.bound := by
  rw [← remaining_clear 0, h.clear_eq, remaining_clear]

/-- **An evaluation uses up one of the evaluations that remain.**  If none remains, it stops, and none
remains then. -/
theorem stop_remaining (hstop : (c.stop o).2 = .ok decision) (hk : c.remaining ≤ k) :
    (c.stop o).1.remaining ≤ (k - 1 : ℕ) ∧ (k = 0 → decision = true) := by
  induction c generalizing decision with
  | maxIter limit count =>
    rw [remaining, Nat.cast_le] at hk
    rw [stop, remaining, Nat.cast_le]
    cases hstop
    refine ⟨by omega, fun hzero => ?_⟩
    rw [decide_eq_true_eq]
    omega
  | both left right hleft hright =>
    obtain ⟨a, b, ha, hb, rfl, hnode⟩ := both_sides hstop
    rw [remaining, max_le_iff] at hk
    obtain ⟨hl, hfires⟩ := hleft ha hk.1
    obtain ⟨hr, hfires'⟩ := hright hb hk.2
    rw [hnode, remaining]
    refine ⟨max_le hl hr, fun hzero => ?_⟩
    rw [hfires hzero, hfires' hzero, Bool.and_self]
  | either left right hleft hright =>
    obtain ⟨a, b, ha, hb, rfl, hnode⟩ := either_sides hstop
    rw [remaining, min_le_iff] at hk
    rw [hnode, remaining, min_le_iff]
    rcases hk with hk | hk
    · obtain ⟨hl, hfires⟩ := hleft ha hk
      exact ⟨Or.inl hl, fun hzero => by rw [hfires hzero, Bool.true_or]⟩
    · obtain ⟨hr, hfires⟩ := hright hb hk
      exact ⟨Or.inr hr, fun hzero => by rw [hfires hzero, Bool.or_true]⟩
  | _ => exact absurd (top_le_iff.1 hk) (ENat.natCast_ne_top k)

/-- What remains after some evaluations. -/
lemma after_remaining {o : ℕ → Observation α} (hn : c.remaining ≤ n)
    (h : ∀ i < k, ∃ d, c.decides o i = .ok d) : (c.after o k).remaining ≤ (n - k : ℕ) := by
  induction k with
  | zero => exact hn
  | succ k ih =>
    obtain ⟨d, hd⟩ := h k (Nat.lt_succ_self k)
    rw [after, Nat.sub_succ']
    exact (stop_remaining hd (ih fun i hi => h i (Nat.lt_succ_of_lt hi))).1

/-- **Once the evaluations that remained are used up**, every further one stops. -/
theorem decides_of_remaining {o : ℕ → Observation α} (hn : c.remaining ≤ n) (hk : n ≤ k)
    (h : ∀ i ≤ k, ∃ d, c.decides o i = .ok d) : c.decides o k = .ok true := by
  obtain ⟨d, hd⟩ := h k (Nat.le_refl k)
  have hnone := after_remaining (o := o) hn fun i hi => h i (Nat.le_of_lt hi)
  rw [hd, (stop_remaining hd hnone).2 (Nat.sub_eq_zero_of_le hk)]

end Criterion

end PrimalDual
