import PrimalDual.NdArray.Arith
import PrimalDual.NdArray.Reduce
import PrimalDual.Proofs.NdArray.Covering
import PrimalDual.Proofs.Outcome

/-!
# Shapes of results

The shape of a result is known from the shapes of the operands alone, whatever their elements are.
Elementwise operations have the common shape of their operands, and functions of the trailing axes keep
the leading ones.  In particular, two operands that agree in their leading axes have a result that
agrees with both.

* `Shape.lead_broadcast?` — leading axes that two operands share.
* `zipReal_shape`, `zipWhole_shape`, `combineIn_shape`, `compareArrays_shape` — two arrays.
* `spread_shape`, `arith_number_shape`, `compare_number_shape` — a number and an array.
* `reshape?_shape`, `square_shape`, `power_shape`, `sumTail_shape`, `maxTail_shape` — one array.
-/

namespace PrimalDual

variable {α : Type}

/-! ## Leading axes -/

namespace Shape

variable {s t u l : Shape} {r : ℕ}

/-- Seen from the last axis, the leading axes are what is left without the first ones. -/
lemma reverse_lead (s : Shape) (r : ℕ) : (s.lead r).reverse = s.reverse.drop r := by
  rw [lead, List.drop_reverse]

/-- Axes that two shapes share beyond the first `r` are those of their common shape, too. -/
lemma drop_broadcastRev? {s t u l : List ℕ} (h : broadcastRev? s t = some u) (hs : s.drop r = l)
    (ht : t.drop r = l) : u.drop r = l := by
  induction r generalizing s t u with
  | zero =>
    rw [List.drop_zero] at hs ht ⊢
    subst hs ht
    rw [broadcastRev?_self] at h
    exact (Option.some.inj h).symm
  | succ r ih =>
    cases s with
    | nil =>
      cases h
      exact ht
    | cons m s =>
      cases t with
      | nil =>
        cases h
        exact hs
      | cons n t =>
        obtain ⟨k, v, rfl, -, -, -, hv⟩ := broadcastRev?_cons_iff.mp h
        exact ih hv hs ht

/-- **Leading axes that two operands share** are those of their result. -/
theorem lead_broadcast? (h : broadcast? s t = some u) (hs : s.lead r = l) (ht : t.lead r = l) :
    u.lead r = l := by
  obtain ⟨v, hv, rfl⟩ := Option.map_eq_some_iff.mp h
  have hdrop : v.drop r = l.reverse := by
    refine drop_broadcastRev? hv ?_ ?_
    · rw [← reverse_lead, hs]
    · rw [← reverse_lead, ht]
  rw [← List.reverse_inj, reverse_lead, List.reverse_reverse, hdrop]

end Shape

variable [Scalar α]

/-! ## Two arrays -/

lemma zipReal_shape {p : Precision} {f : α → α → α} {a c y : NdArray α}
    (h : zipReal p f a c = .ok y) : Shape.broadcast? a.shape c.shape = some y.shape := by
  rw [zipReal] at h
  split at h
  · rename_i t ht
    cases h
    exact ht
  · cases h

omit [Scalar α] in
lemma zipWhole_shape {w : WholeKind} {f : ℤ → ℤ → ℤ} {a c y : NdArray α}
    (h : zipWhole w f a c = .ok y) : Shape.broadcast? a.shape c.shape = some y.shape := by
  rw [zipWhole] at h
  split at h
  · rename_i t ht
    cases h
    exact ht
  · cases h

lemma combineIn_shape {op : Operation} {k : Kind} {a c y : NdArray α}
    (h : combineIn op k a c = .ok y) : Shape.broadcast? a.shape c.shape = some y.shape := by
  cases k with
  | real p => exact zipReal_shape h
  | whole w =>
    rw [combineIn] at h
    split at h
    · exact zipReal_shape h
    · split at h
      · exact zipWhole_shape h
      · cases h

lemma compareArrays_shape {rel : Relation} {a c y : NdArray α}
    (h : compareArrays rel a c = .ok y) : Shape.broadcast? a.shape c.shape = some y.shape := by
  rw [compareArrays] at h
  split at h
  · rename_i t ht
    cases h
    exact ht
  · cases h

/-! ## A number and an array -/

lemma spread_shape {k : Kind} {n : Number α} {b : NdArray α} (h : n.spread k = .ok b) :
    b.shape = [] := by
  cases k with
  | real p =>
    obtain ⟨x, -, hx⟩ := ok_of_bind h
    cases hx
    rfl
  | whole w =>
    cases h
    rfl

/-- A number leaves the shape of an array as it is. -/
lemma arith_number_shape {op : Operation} {c : Number α} {a y : NdArray α}
    (h : arith op (.number c) (.array a) = .ok y) : y.shape = a.shape := by
  obtain ⟨k, -, h⟩ := ok_of_bind h
  obtain ⟨b, hb, h⟩ := ok_of_bind h
  have hy := combineIn_shape h
  rw [spread_shape hb, Shape.broadcast?_comm, Shape.broadcast?_nil, Option.some.injEq] at hy
  exact hy.symm

lemma compare_number_shape {rel : Relation} {c : Number α} {a y : NdArray α}
    (h : compare rel (.number c) (.array a) = .ok y) : y.shape = a.shape := by
  obtain ⟨b, hb, h⟩ := ok_of_bind h
  have hy := compareArrays_shape h
  rw [spread_shape hb, Shape.broadcast?_comm, Shape.broadcast?_nil, Option.some.injEq] at hy
  exact hy.symm

/-! ## One array -/

namespace NdArray

variable {a y : NdArray α} {r : ℕ}

omit [Scalar α] in
lemma reshape?_shape {s : Shape} (h : a.reshape? s = some y) : y.shape = s := by
  rw [reshape?] at h
  split at h
  · cases h
    rfl
  · cases h

lemma square_shape (a : NdArray α) : a.square.shape = a.shape := by
  rw [square]
  split <;> rfl

/-- A power is taken of every element, by whichever function it is computed. -/
lemma power_shape {e : Number α} (h : a.power e = .ok y) : y.shape = a.shape := by
  rw [power] at h
  split_ifs at h
  · cases h
    exact square_shape a
  · cases h
    rfl
  · cases h
    rfl
  · cases h
    rfl
  · cases h
    rfl
  · obtain ⟨x, -, h⟩ := ok_of_bind h
    cases h
    rfl

lemma sumTail_shape (r : ℕ) (a : NdArray α) :
    (a.sumTail r).shape = a.shape.replaceTail r (List.replicate r 1) := by
  rw [sumTail]
  split <;> rfl

lemma maxTail_shape (h : a.maxTail r = .ok y) :
    y.shape = a.shape.replaceTail r (List.replicate r 1) := by
  rw [maxTail] at h
  split at h
  · cases h
  · cases h
    rfl

end NdArray

end PrimalDual
