import PrimalDual.Proofs.NdArray.Covering
import PrimalDual.Proofs.NdArray.Entries
import PrimalDual.Proofs.Operator.Kinds

/-!
# What meets what in an operation

An operation that goes through has spread its operands over the shape of its result.  So the elements
of the result are found from what they meet in the operands, without a condition on the shapes.

* `Operand.Meets`, `Meets.trans`, `Meets.unique` — what the elements of a shape meet in an operand.
* **`arith_meets`**, `extremum_meets` — arithmetic, and the larger or smaller of two operands.
* **`compare_meets`**, `compare_left_yields`, `compare_right_yields` — comparisons.
-/

namespace PrimalDual

open Exact NdArray

variable {s t : Shape} {F G : ℕ → Exact} {p : Precision} {a c x y : NdArray Exact}
  {o u : Operand Exact} {n : Number Exact} {k : Kind}

/-! ## What meets what -/

namespace NdArray

lemma meets_of_covers (h : s.Covers a.shape) : a.Meets s fun k => a.realAt (s.project a.shape k) :=
  ⟨h, fun _ _ => rfl⟩

/-- Spreading in two steps. -/
lemma Meets.trans (h : a.Meets t F) (hst : s.Covers t) : a.Meets s fun k => F (s.project t k) where
  fits := hst.trans h.fits
  entry k hk := by
    rw [← Shape.project_project hst h.fits hk]
    exact h.entry _ (Shape.project_lt hst hk)

lemma Meets.unique (h : a.Meets s F) (h' : a.Meets s G) {k : ℕ} (hk : k < s.size) : F k = G k :=
  (h.entry k hk).symm.trans (h'.entry k hk)

end NdArray

/-- The operand can be spread over shape `s`, and the elements of that shape meet `F 0, F 1, …`. -/
def Operand.Meets (s : Shape) (F : ℕ → Exact) : Operand Exact → Prop
  | array a => a.Meets s F
  | number n => ∀ k < s.size, n.value = F k

namespace Operand

/-- The operand can be spread over shape `s`. -/
def Over (s : Shape) : Operand Exact → Prop
  | array a => s.Covers a.shape
  | number _ => True

lemma Meets.over (h : o.Meets s F) : o.Over s := by
  cases o with
  | array a => exact h.fits
  | number n => trivial

lemma Meets.trans (h : o.Meets t F) (hst : s.Covers t) : o.Meets s fun k => F (s.project t k) := by
  cases o with
  | array a => exact NdArray.Meets.trans h hst
  | number n => exact fun k hk => h _ (Shape.project_lt hst hk)

lemma Meets.unique (h : o.Meets s F) (h' : o.Meets s G) {k : ℕ} (hk : k < s.size) : F k = G k := by
  cases o with
  | array a => exact NdArray.Meets.unique h h' hk
  | number n => exact (h k hk).symm.trans (h' k hk)

/-- A number meets what the array meets that it is spread to. -/
lemma meets_of_spread (hk : k.isReal = true ∨ ∃ i, n.whole? = some i) (hd : n.spread k = .ok a)
    (h : a.Meets s F) : (number n).Meets s F :=
  fun _ hk' => ((spread_meets s n k hk).of_eq_ok hd).2.2.unique h hk'

end Operand

/-- Two arrays that are combined are spread over the shape of the result. -/
lemma zipReal_meets {f : Exact → Exact → Exact} (h : zipReal p f a c = .ok y) :
    y.kind.isReal = true ∧ ∃ F G, a.Meets y.shape F ∧ c.Meets y.shape G ∧
      y.Reads y.shape fun k => f (F k) (G k) := by
  obtain ⟨hs, -, hreal⟩ := zipReal_ok h
  obtain ⟨ha, hc⟩ := Shape.covers_of_broadcast? hs
  have hreads := (zipReal_reads p f hs (meets_of_covers ha) (meets_of_covers hc)).of_eq_ok h
  exact ⟨hreal, _, _, meets_of_covers ha, meets_of_covers hc, hreads.2⟩

/-- The operand is a number or consists of floating-point numbers. -/
def Operand.IsReal : Operand Exact → Prop
  | array a => a.kind.isReal = true
  | number _ => True

/-- **Operands that are combined** are spread over the shape of the result. -/
theorem arith_meets {op : Operation} (ho : o.IsReal) (hu : u.IsReal) (h : arith op o u = .ok y) :
    y.kind.isReal = true ∧ ∃ F G, o.Meets y.shape F ∧ u.Meets y.shape G ∧
      y.Reads y.shape fun k => op.onReal (F k) (G k) := by
  cases o with
  | array a =>
    cases u with
    | array c =>
      obtain ⟨p, hp⟩ := arith_arrays_eq op (a := a) (b := c) (Or.inl ho)
      rw [hp] at h
      exact zipReal_meets h
    | number n =>
      obtain ⟨p, hp⟩ := exists_precision ho
      simp only [arith, hp, Number.kindBeside, spread_real, bind, Except.bind, combineIn_real] at h
      obtain ⟨hreal, F, G, hF, hG, hreads⟩ := zipReal_meets h
      exact ⟨hreal, F, G, hF, Operand.meets_of_spread (Or.inl rfl) (spread_real n p) hG, hreads⟩
  | number n =>
    cases u with
    | array c =>
      obtain ⟨p, hp⟩ := exists_precision hu
      simp only [arith, hp, Number.kindBeside, spread_real, bind, Except.bind, combineIn_real] at h
      obtain ⟨hreal, F, G, hF, hG, hreads⟩ := zipReal_meets h
      exact ⟨hreal, F, G, Operand.meets_of_spread (Or.inl rfl) (spread_real n p) hF, hG, hreads⟩
    | number m => cases h

/-- The larger or the smaller of an array and an operand. -/
lemma extremum_meets {larger : Bool} (hx : x.kind.isReal = true)
    (h : extremum larger (.array x) o = .ok y) :
    y.kind.isReal = true ∧ ∃ F G, x.Meets y.shape F ∧ o.Meets y.shape G ∧
      y.Reads y.shape fun k =>
        (if larger then Scalar.maximum else Scalar.minimum) (F k) (G k) := by
  obtain ⟨p, hp⟩ := exists_precision hx
  cases o with
  | array c =>
    obtain ⟨q, hq⟩ := Kind.join_of_isReal (j := x.kind) (k := c.kind) (Or.inl hx)
    simp only [extremum, hq, pure, Except.pure, bind, Except.bind] at h
    exact zipReal_meets h
  | number n =>
    simp only [extremum, hp, Number.kindBeside, spread_real, pure, Except.pure, bind,
      Except.bind] at h
    obtain ⟨hreal, F, G, hF, hG, hreads⟩ := zipReal_meets h
    exact ⟨hreal, F, G, hF, Operand.meets_of_spread (Or.inl rfl) (spread_real n p) hG, hreads⟩

/-- Two arrays that are compared are spread over the shape of the result, the least one for both. -/
lemma compareArrays_meets {rel : Relation} (h : compareArrays rel a c = .ok y) :
    (∀ t : Shape, t.Covers a.shape → t.Covers c.shape → t.Covers y.shape) ∧
      ∃ F G, a.Meets y.shape F ∧ c.Meets y.shape G ∧
        y.Marks y.shape fun k => rel.onReal (F k) (G k) := by
  obtain ⟨s, hs⟩ : ∃ s, Shape.broadcast? a.shape c.shape = some s := by
    cases hs : Shape.broadcast? a.shape c.shape with
    | none =>
      simp only [compareArrays, hs] at h
      cases h
    | some s => exact ⟨s, rfl⟩
  obtain ⟨ha, hc⟩ := Shape.covers_of_broadcast? hs
  have hmarks :=
    (compareArrays_marks rel hs (meets_of_covers ha) (meets_of_covers hc)).of_eq_ok h
  obtain rfl := hmarks.shape_eq
  refine ⟨fun t hta htc => ?_, _, _, meets_of_covers ha, meets_of_covers hc, hmarks⟩
  obtain ⟨v, hv, htv⟩ := Shape.broadcast?_of_covers hta htc
  rw [hs, Option.some.injEq] at hv
  rwa [hv]

/-- Two operands that are compared. -/
lemma compare_meets {rel : Relation} (h : compare rel o u = .ok y) :
    (∀ t : Shape, o.Over t → u.Over t → t.Covers y.shape) ∧
      ∃ F G, o.Meets y.shape F ∧ u.Meets y.shape G ∧
        y.Marks y.shape fun k => rel.onReal (F k) (G k) := by
  have hspread : ∀ (x : Number Exact) (k : Kind) (d : NdArray Exact),
      x.spread (x.comparisonKind k) = .ok d → (∀ t : Shape, t.Covers d.shape) ∧
        ∀ s F, d.Meets s F → (Operand.number x).Meets s F := by
    intro x k d hd
    have hkind := comparisonKind_spreads x k
    exact ⟨fun t => ((spread_meets t x _ hkind).of_eq_ok hd).2.2.fits,
      fun s F => Operand.meets_of_spread hkind hd⟩
  cases o with
  | array a =>
    cases u with
    | array c => exact compareArrays_meets h
    | number x =>
      obtain ⟨d, hd, h⟩ := ok_of_bind h
      obtain ⟨hleast, F, G, hF, hG, hmarks⟩ := compareArrays_meets h
      obtain ⟨hcovers, hmeets⟩ := hspread x _ d hd
      exact ⟨fun t ha _ => hleast t ha (hcovers t), F, G, hF, hmeets _ G hG, hmarks⟩
  | number x =>
    cases u with
    | array c =>
      obtain ⟨d, hd, h⟩ := ok_of_bind h
      obtain ⟨hleast, F, G, hF, hG, hmarks⟩ := compareArrays_meets h
      obtain ⟨hcovers, hmeets⟩ := hspread x _ d hd
      exact ⟨fun t _ hc => hleast t (hcovers t) hc, F, G, hmeets _ F hF, hG, hmarks⟩
    | number y => cases h

/-- An operand that can be spread over an array can be compared with it. -/
lemma compare_left_yields (rel : Relation) (hx : x.Reads s F) (ho : o.Meets s G) :
    Yields (compare rel o (.array x)) (·.Marks s fun k => rel.onReal (G k) (F k)) := by
  cases o with
  | array c =>
    refine compareArrays_marks rel ?_ ho hx.meets
    rw [hx.shape_eq, Shape.broadcast?_comm]
    exact ho.fits
  | number n =>
    refine (number_compare_marks rel hx n).mono fun y hy => ⟨hy.shape_eq, hy.kind_eq, fun k hk => ?_⟩
    rw [hy.entry k hk, ho k hk]

lemma compare_right_yields (rel : Relation) (hx : x.Reads s F) (ho : o.Meets s G) :
    Yields (compare rel (.array x) o) (·.Marks s fun k => rel.onReal (F k) (G k)) := by
  cases o with
  | array c =>
    refine compareArrays_marks rel ?_ hx.meets ho
    rw [hx.shape_eq]
    exact ho.fits
  | number n =>
    refine (compare_number_marks rel hx n).mono fun y hy => ⟨hy.shape_eq, hy.kind_eq, fun k hk => ?_⟩
    rw [hy.entry k hk, ho k hk]

end PrimalDual
