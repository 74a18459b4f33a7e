import PrimalDual.Functional.Proximable
import PrimalDual.Proofs.Convex.Functional
import PrimalDual.Proofs.NdArray.Point

/-!
# Truth values along a stack

Comparisons yield truth values, one for each element; conjunctions collect those of a point.  The
indicators of the library are built from them.

* `NdArray.Truth` — an array of truth values along a stack.
* `compare_left`, `compare_right` — comparisons with an operand.
* `NdArray.Reports` — one number for each point, which may be infinite.
-/

namespace PrimalDual

open Exact NdArray

variable {lead : Shape} {b c : Backend} {n r : ℕ} {F : ℕ → ℕ → Exact} {S T : ℕ → ℕ → Bool}

namespace NdArray

/-- Truth values along a stack: `T r j` for element `j` of point `r`. -/
structure Truth (a : NdArray Exact) (lead : Shape) (n : ℕ) (T : ℕ → ℕ → Bool) : Prop where
  shape_eq : a.shape = lead ++ [n]
  kind_eq : a.kind = .whole .bool
  entry : ∀ r < lead.size, ∀ j < n, a.wholeAt (r * n + j) = if T r j then 1 else 0

lemma wholeAt_tabulateWhole (b : Backend) (s : Shape) (k : WholeKind) (f : ℕ → ℤ) {i : ℕ}
    (h : i < s.size) : (tabulateWhole b s k f : NdArray Exact).wholeAt i = f i := by
  simp [wholeAt, tabulateWhole, h]

lemma tabulateWhole_truth {f : ℕ → ℤ}
    (hf : ∀ r < lead.size, ∀ j < n, f (r * n + j) = if T r j then 1 else 0) :
    (tabulateWhole b (lead ++ [n]) .bool f : NdArray Exact).Truth lead n T where
  shape_eq := rfl
  kind_eq := rfl
  entry r hr j hj :=
    (wholeAt_tabulateWhole _ _ _ _ (Shape.place_lt hr hj)).trans (hf r hr j hj)

end NdArray

/-! ## Comparisons -/

section

variable {a d : NdArray Exact} {o : Operand Exact} (rel : Relation)

lemma compareArrays_right (ha : a.Stack b lead n F) (hd : (Operand.array d).Fits (lead ++ [n])) :
    Yields (compareArrays rel a d)
      (·.Truth lead n fun r j => rel.onReal (F r j) ((Operand.array d).entry lead n r j)) := by
  have hs : Shape.broadcast? a.shape d.shape = some (lead ++ [n]) := by
    rw [ha.shape_eq]
    exact hd
  simp only [compareArrays, hs, ha.real, Bool.true_or, if_true]
  refine Yields.ok (tabulateWhole_truth fun r hr j hj => ?_)
  rw [ha.shape_eq, Shape.project_self _ _ (Shape.place_lt hr hj), ha.entry r hr j hj]
  rfl

lemma compareArrays_left (ha : a.Stack b lead n F) (hd : (Operand.array d).Fits (lead ++ [n])) :
    Yields (compareArrays rel d a)
      (·.Truth lead n fun r j => rel.onReal ((Operand.array d).entry lead n r j) (F r j)) := by
  have hs : Shape.broadcast? d.shape a.shape = some (lead ++ [n]) := by
    rw [ha.shape_eq, Shape.broadcast?_comm]
    exact hd
  simp only [compareArrays, hs, ha.real, Bool.or_true, if_true]
  refine Yields.ok (tabulateWhole_truth fun r hr j hj => ?_)
  rw [ha.shape_eq, Shape.project_self _ _ (Shape.place_lt hr hj), ha.entry r hr j hj]
  rfl

/-- The comparison of a stack with an operand. -/
lemma compare_right (ha : a.Stack b lead n F) (ho : o.Fits (lead ++ [n])) :
    Yields (compare rel (.array a) o)
      (·.Truth lead n fun r j => rel.onReal (F r j) (o.entry lead n r j)) := by
  cases o with
  | array d => exact compareArrays_right rel ha ho
  | number x =>
    obtain ⟨p, hp⟩ := exists_precision ha.real
    simp only [compare, hp, Number.comparisonKind, spread_real, bind, Except.bind]
    have h := compareArrays_right rel ha (Operand.fits_spread p x.value (lead ++ [n]))
    simp only [Operand.entry_spread] at h
    exact h

/-- The comparison of an operand with a stack. -/
lemma compare_left (ha : a.Stack b lead n F) (ho : o.Fits (lead ++ [n])) :
    Yields (compare rel o (.array a))
      (·.Truth lead n fun r j => rel.onReal (o.entry lead n r j) (F r j)) := by
  cases o with
  | array d => exact compareArrays_left rel ha ho
  | number x =>
    obtain ⟨p, hp⟩ := exists_precision ha.real
    simp only [compare, hp, Number.comparisonKind, spread_real, bind, Except.bind]
    have h := compareArrays_left rel ha (Operand.fits_spread p x.value (lead ++ [n]))
    simp only [Operand.entry_spread] at h
    exact h

end

/-! ## Conjunctions -/

namespace NdArray.Truth

variable {a d : NdArray Exact}

/-- Truth values multiply to those that hold where both do. -/
lemma both (ha : a.Truth lead n S) (hd : d.Truth lead n T) :
    Yields (Penalty.both a d) (·.Truth lead n fun r j => S r j && T r j) := by
  have hk : a.kind.join d.kind = .whole .bool := by
    rw [ha.kind_eq, hd.kind_eq]
    rfl
  have hs : Shape.broadcast? a.shape d.shape = some (lead ++ [n]) := by
    rw [ha.shape_eq, hd.shape_eq]
    exact Shape.broadcast?_self _
  rw [Penalty.both, arith, hk]
  show Yields (zipWhole .bool (· * ·) a d) _
  simp only [zipWhole, hs]
  refine Yields.ok (tabulateWhole_truth fun r hr j hj => ?_)
  have hplace := Shape.place_lt hr hj
  rw [ha.shape_eq, hd.shape_eq, Shape.project_self _ _ hplace, ha.entry r hr j hj,
    hd.entry r hr j hj]
  cases S r j <;> cases T r j <;> rfl

/-- The conjunction of the truth values of each point. -/
lemma allLast (ha : a.Truth lead n T) :
    a.allLast.Truth lead 1 fun r _ => (List.range n).all (T r) := by
  rw [NdArray.allLast, mapTailWhole, ha.shape_eq, Shape.replaceTail_stack, Shape.tail_stack,
    Shape.size_singleton, Shape.size_singleton]
  refine tabulateWhole_truth fun r hr j hj => ?_
  have hblock : (blockInts n fun i => a.wholeAt ((r * 1 + j) / 1 * n + i)).all (· ≠ 0)
      = (List.range n).all (T r) := by
    obtain rfl : j = 0 := Nat.lt_one_iff.mp hj
    rw [blockInts, List.all_map, Nat.div_one, Nat.mul_one, Nat.add_zero]
    rw [Bool.eq_iff_iff, List.all_eq_true, List.all_eq_true]
    refine forall₂_congr fun i hi => ?_
    show decide (a.wholeAt (r * n + i) ≠ 0) = true ↔ T r i = true
    rw [ha.entry r hr i (List.mem_range.mp hi)]
    cases T r i <;> decide
  rw [hblock]

end NdArray.Truth

/-! ## One number for each point -/

namespace NdArray

/-- The array has one number for each point; the one of point `r` is `e`, which may be infinite. -/
def Reports (a : NdArray Exact) (lead : Shape) (r : ℕ) (e : Exact) : Prop :=
  r < lead.size ∧ ∃ b F, a.Stack b lead 1 F ∧ F r 0 = e

variable {a d : NdArray Exact} {x y : Exact}

lemma Holds.reports {v : ℝ} (h : a.Holds b lead 1 r fun _ => v) : a.Reports lead r (finite v) :=
  ⟨h.lt, b, _, h.stack, h.row 0⟩

namespace Reports

lemma realAt_eq (h : a.Reports lead r x) : a.realAt r = x := by
  obtain ⟨hr, b, F, hstack, rfl⟩ := h
  have hentry := hstack.entry r hr 0 Nat.one_pos
  rwa [Nat.mul_one, Nat.add_zero] at hentry

lemma add (ha : a.Reports lead r x) (hd : d.Reports lead r y) :
    Yields (arith .add (.array a) (.array d)) (·.Reports lead r (x + y)) := by
  obtain ⟨hr, b, F, ha, rfl⟩ := ha
  obtain ⟨-, c, G, hd, rfl⟩ := hd
  refine (arith_stack .add ha (Operand.fits_of_stack hd)).mono fun z hz => ⟨hr, _, _, hz, ?_⟩
  rw [Operand.entry_of_stack hd hr Nat.one_pos]
  rfl

lemma scale (n : Number Exact) (ha : a.Reports lead r x) :
    Yields (arith .mul (.number n) (.array a)) (·.Reports lead r (n.value * x)) := by
  obtain ⟨hr, b, F, ha, rfl⟩ := ha
  exact (arith_number_stack .mul n ha).mono fun z hz => ⟨hr, _, _, hz, rfl⟩

end Reports

/-- An indicator is zero where the truth value holds and infinite elsewhere. -/
lemma Truth.indicator {k : Kind} (hk : k.isReal = true) (hr : r < lead.size)
    (ha : a.Truth lead 1 T) :
    (Penalty.indicator k a).Reports lead r (if T r 0 then finite 0 else infinite false) := by
  cases k with
  | whole w => cases hk
  | real p =>
    rw [Penalty.indicator, ha.shape_eq]
    refine ⟨hr, _, _, (tabulate_stack .double _).convert p, ?_⟩
    show (if a.wholeAt (r * 1 + 0) = 0 then Scalar.inf else Scalar.zero) = _
    rw [ha.entry r hr 0 Nat.one_pos, zero_eq]
    cases T r 0 <;> rfl

end NdArray

end PrimalDual
