import PrimalDual.Proofs.Functional.RealData
import PrimalDual.Proofs.Splitting.Iterate

/-!
# Problems whose sizes match

Whether the parts of a problem can be put together is a matter of their sizes alone.  The elements of
the arrays, infinite ones and those that are not numbers among them, make no difference, and of the
steps only the dual one does, which must not vanish.

* `NdArray.Stacked` — floating-point points of a given size, whatever their elements are.
* `LinearRule.Takes`, `Smooth.Takes` — the sizes that an operator and a smooth functional take.
* `LinearOperator.map_stacked`, `LinearOperator.adjointMap_stacked`, `Smooth.gradient_stacked`,
  `Proximable.prox_stacked`, `Proximable.conjugateProx_stacked` — each part keeps to the sizes.
* `IterationState.SizesMatch` — the sizes of the parts match.
* **`SizesMatch.proximalPoints`** — then both proximal points of an iteration can be had.
-/

namespace PrimalDual

open Exact NdArray

variable {b c : Backend} {lead : Shape} {m n : ℕ} {a x y z : NdArray Exact} {o : Operand Exact}

/-! ## Stacks of points -/

namespace NdArray

/-- The array is a stack of floating-point points of size `n`. -/
def Stacked (a : NdArray Exact) (b : Backend) (lead : Shape) (n : ℕ) : Prop :=
  ∃ F, a.Stack b lead n F

lemma stacked_of_shape (hshape : a.shape = lead ++ [n]) (hreal : a.kind.isReal = true) :
    a.Stacked a.backend lead n :=
  ⟨fun r j => a.realAt (r * n + j), rfl, hshape, hreal, fun _ _ _ _ => rfl⟩

lemma Stack.stacked {F : ℕ → ℕ → Exact} (h : a.Stack b lead n F) : a.Stacked b lead n := ⟨F, h⟩

namespace Stacked

lemma fits (h : a.Stacked b lead n) : (Operand.array a).Fits (lead ++ [n]) := by
  obtain ⟨F, hF⟩ := h
  exact Operand.fits_of_stack hF

lemma backend_eq (h : a.Stacked b lead n) : a.backend = b := by
  obtain ⟨F, hF⟩ := h
  exact hF.backend_eq

lemma shape_eq (h : a.Stacked b lead n) : a.shape = lead ++ [n] := by
  obtain ⟨F, hF⟩ := h
  exact hF.shape_eq

lemma real (h : a.Stacked b lead n) : a.kind.isReal = true := by
  obtain ⟨F, hF⟩ := h
  exact hF.real

lemma zerosLike (h : a.Stacked b lead n) : a.zerosLike.Stacked b lead n := by
  obtain ⟨F, hF⟩ := h
  exact (zerosLike_stack hF).stacked

lemma mapTail (h : a.Stacked b lead n) (p : Precision) (g : (ℕ → Exact) → ℕ → Exact) :
    (a.mapTail 1 [m] p g).Stacked b lead m := by
  have hshape : (a.mapTail 1 [m] p g).shape = lead ++ [m] := by
    show a.shape.replaceTail 1 [m] = _
    rw [h.shape_eq, Shape.replaceTail_stack]
  have hstacked := stacked_of_shape hshape rfl
  rwa [show (a.mapTail 1 [m] p g).backend = b from h.backend_eq] at hstacked

lemma onBackend (h : a.Stacked b lead n) (c : Backend) : (a.onBackend c).Stacked c lead n := by
  obtain ⟨F, hF⟩ := h
  exact (hF.onBackend c).stacked

lemma arith (op : Operation) (h : a.Stacked b lead n) (ho : o.Fits (lead ++ [n])) :
    Yields (arith op (.array a) o) (·.Stacked (b.join o.backend) lead n) := by
  obtain ⟨F, hF⟩ := h
  exact (arith_stack op hF ho).mono fun y hy => hy.stacked

lemma arithNumber (op : Operation) (t : Number Exact) (h : a.Stacked b lead n) :
    Yields (PrimalDual.arith op (.number t) (.array a)) (·.Stacked b lead n) := by
  obtain ⟨F, hF⟩ := h
  exact (arith_number_stack op t hF).mono fun y hy => hy.stacked

lemma update (op : Operation) (h : a.Stacked b lead n) (ho : o.Fits (lead ++ [n]))
    (hb : b.join o.backend = b) : Yields (a.update op o) (·.Stacked b lead n) := by
  obtain ⟨F, hF⟩ := h
  exact (update_stack op hF ho hb).mono fun y hy => hy.stacked

lemma updateNumber (op : Operation) (t : Number Exact) (h : a.Stacked b lead n) :
    Yields (a.update op (.number t)) (·.Stacked b lead n) :=
  h.update op trivial (Backend.join_memory b)

lemma extremum (larger : Bool) (h : a.Stacked b lead n) (ho : o.Fits (lead ++ [n])) :
    Yields (extremum larger (.array a) o) (·.Stacked (b.join o.backend) lead n) := by
  obtain ⟨F, hF⟩ := h
  exact (extremum_stack larger hF ho).mono fun y hy => hy.stacked

/-- An operand spread over the points, on the other side of an operation. -/
lemma arithLeft (op : Operation) (h : a.Stacked b lead n) (ho : o.Fits (lead ++ [n])) :
    Yields (PrimalDual.arith op o (.array a)) (·.Stacked (o.backend.join b) lead n) := by
  cases o with
  | number t =>
    rw [show (Operand.number t).backend.join b = b from Backend.memory_join b]
    exact h.arithNumber op t
  | array d =>
    obtain ⟨p, hp⟩ := arith_arrays_eq op (a := d) (b := a) (Or.inr h.real)
    have hs : Shape.broadcast? d.shape a.shape = some (lead ++ [n]) := by
      rw [Shape.broadcast?_comm, h.shape_eq]
      exact ho
    rw [hp]
    refine (zipReal_yields p op.onReal hs).mono fun y hy => ?_
    obtain ⟨hshape, hbackend, hreal⟩ := hy
    have hstacked := stacked_of_shape hshape hreal
    rwa [hbackend, h.backend_eq] at hstacked

end Stacked

end NdArray

/-! ## Operators -/

namespace LinearRule

/-- The operator takes points of size `n` to points of size `m`. -/
def Takes : LinearRule Exact → ℕ → ℕ → Prop
  | identity, m, n | homothety _, m, n => m = n
  | difference, m, n => n = m + 1 ∧ 0 < m
  | dense a, m, n => a.shape = [m, n]
  | sparse s, m, n => s.Within ∧ s.rows = m ∧ s.columns = n ∧ 0 < m ∧ 0 < n
  | unspecified, _, _ => False

end LinearRule

namespace LinearOperator

variable {K : LinearOperator Exact}

lemma product_stacked {d : NdArray Exact} (hd : d.shape = [m, n]) (hx : x.Stacked b lead n) :
    Yields (product d x) (·.Stacked (d.backend.join b) lead m) := by
  have hrows : d.rows = m := by simp [NdArray.rows, hd]
  have hcols : d.columns = n := by simp [NdArray.columns, hd]
  have hlast : x.shape.getLast? = some n := by simp [hx.shape_eq]
  obtain ⟨p, hp⟩ := Kind.join_of_isReal (j := d.kind) (k := x.kind) (Or.inr hx.real)
  simp only [product, hlast, hcols, ne_eq, not_true_eq_false, if_false, productIn, hp, hrows,
    hx.backend_eq]
  exact Yields.ok ((hx.mapTail p _).onBackend _)

lemma sparse_product_stacked {d : SparseMatrix Exact} (hd : d.Within) (hrows : d.rows = m)
    (hcols : d.columns = n) (hn : 0 < n) (hx : x.Stacked b lead n) :
    Yields (d.product x) (·.Stacked .memory lead m) := by
  have hlast : x.shape.getLast? = some n := by simp [hx.shape_eq]
  have hguard : (n = 0 || n ≠ d.columns) = false := by simp [hn.ne', hcols]
  obtain ⟨p, hp⟩ := Kind.join_of_isReal (j := d.values.kind) (k := x.kind) (Or.inr hx.real)
  simp only [SparseMatrix.product_eq hd, hlast, hguard, Bool.false_eq_true, if_false,
    SparseMatrix.productIn, hp, hrows]
  exact Yields.ok ((hx.mapTail p _).onBackend _)

lemma differences_stacked (hx : x.Stacked b lead (n + 1)) :
    Yields (differences x) (·.Stacked b lead n) := by
  have hlast : x.shape.getLast? = some (n + 1) := by simp [hx.shape_eq]
  obtain ⟨p, hp⟩ := exists_precision hx.real
  simp only [differences, hlast, hp]
  exact Yields.ok (hx.mapTail p _)

lemma differencesAdjoint_stacked (hn : 0 < n) (hy : y.Stacked b lead n) :
    Yields (differencesAdjoint y) (·.Stacked b lead (n + 1)) := by
  have hlast : y.shape.getLast? = some n := by simp [hy.shape_eq]
  obtain ⟨p, hp⟩ := exists_precision hy.real
  obtain ⟨k, rfl⟩ := Nat.exists_eq_succ_of_ne_zero hn.ne'
  simp only [differencesAdjoint, hlast, hp]
  exact Yields.ok (hy.mapTail p _)

/-- An operator takes points of the one size to points of the other. -/
lemma map_stacked (hK : K.rule.Takes m n) (hx : x.Stacked b lead n) :
    Yields (K.map x) (·.Stacked (K.rule.landing b) lead m) := by
  rw [map]
  cases hrule : K.rule with
  | identity =>
    rw [hrule] at hK
    obtain rfl : m = n := hK
    exact Yields.ok hx
  | homothety c =>
    rw [hrule] at hK
    obtain rfl : m = n := hK
    exact hx.updateNumber .mul (.real c)
  | difference =>
    rw [hrule] at hK
    obtain ⟨rfl, -⟩ := hK
    exact differences_stacked hx
  | dense d =>
    rw [hrule] at hK
    exact product_stacked hK hx
  | sparse d =>
    rw [hrule] at hK
    obtain ⟨hwithin, hrows, hcols, -, hn⟩ := hK
    exact sparse_product_stacked hwithin hrows hcols hn hx
  | unspecified =>
    rw [hrule] at hK
    exact hK.elim

/-- Its adjoint takes them back. -/
lemma adjointMap_stacked (hK : K.rule.Takes m n) (hy : y.Stacked b lead m) :
    Yields (K.adjointMap y) (·.Stacked (K.rule.landing b) lead n) := by
  rw [adjointMap]
  cases hrule : K.rule with
  | identity =>
    rw [hrule] at hK
    obtain rfl : m = n := hK
    exact Yields.ok hy
  | homothety c =>
    rw [hrule] at hK
    obtain rfl : m = n := hK
    exact hy.updateNumber .mul (.real c)
  | difference =>
    rw [hrule] at hK
    obtain ⟨rfl, hm⟩ := hK
    exact differencesAdjoint_stacked hm hy
  | dense d =>
    rw [hrule] at hK
    have hback : d.transpose.backend = d.backend := transpose_backend d
    rw [LinearRule.landing, ← hback]
    exact product_stacked (transpose_shape hK) hy
  | sparse d =>
    rw [hrule] at hK
    obtain ⟨hwithin, hrows, hcols, hm, -⟩ := hK
    exact sparse_product_stacked hwithin.transpose hcols hrows hm hy
  | unspecified =>
    rw [hrule] at hK
    exact hK.elim

end LinearOperator

/-! ## Smooth functionals -/

namespace Smooth

/-- The functional takes points of size `n` along the axes `lead`: its forward operator does, and data
or a factor can be spread over them. -/
def Takes (f : Smooth Exact) (lead : Shape) (n : ℕ) : Prop :=
  match f.rule with
  | .zero => True
  | .leastSquares A data => ∃ m, A.rule.Takes m n ∧
      (data = .null ∨ ∃ o, data.toOperand = .ok o ∧ o.Fits (lead ++ [m]))
  | .quadratic factor => ∃ o, factor.toOperand = .ok o ∧ o.Fits (lead ++ [n])
  | .unspecified => False

lemma residual_stacked {A : LinearOperator Exact} {data : Value Exact} (hA : A.rule.Takes m n)
    (hdata : data = .null ∨ ∃ o, data.toOperand = .ok o ∧ o.Fits (lead ++ [m]))
    (hx : x.Stacked b lead n) : Yields (residual A data x) fun r => ∃ c, r.Stacked c lead m := by
  refine (LinearOperator.map_stacked hA hx).bind fun r hr => ?_
  rcases hdata with rfl | ⟨o, ho, hfits⟩
  · exact Yields.ok ⟨_, hr⟩
  · have hnull : data.isNull = false := by
      cases data with
      | null => cases ho
      | _ => rfl
    rw [hnull, if_neg Bool.false_ne_true, ho]
    exact (hr.arith .sub hfits).mono fun y hy => ⟨_, hy⟩

/-- The gradient has the size of the points. -/
lemma gradient_stacked {f : Smooth Exact} (hf : f.Takes lead n) (hx : x.Stacked b lead n) :
    Yields (f.gradient x) fun g => ∃ c, g.Stacked c lead n := by
  rw [gradient]
  rw [Takes] at hf
  cases hrule : f.rule with
  | zero => exact Yields.ok ⟨b, hx.zerosLike⟩
  | leastSquares A data =>
    rw [hrule] at hf
    obtain ⟨m, hA, hdata⟩ := hf
    refine (residual_stacked hA hdata hx).bind fun r hr => ?_
    obtain ⟨c, hr⟩ := hr
    exact (LinearOperator.adjointMap_stacked hA hr).mono fun g hg => ⟨_, hg⟩
  | quadratic factor =>
    rw [hrule] at hf
    obtain ⟨o, ho, hfits⟩ := hf
    simp only [ho, bind, Except.bind]
    exact (hx.arithLeft .mul hfits).mono fun g hg => ⟨_, hg⟩
  | unspecified =>
    rw [hrule] at hf
    exact hf.elim

end Smooth

/-! ## Terms -/

namespace Penalty

lemma shrink_stacked (t : Number Exact) (hx : x.Stacked b lead n) :
    Yields (shrink x (.number t)) (·.Stacked b lead n) := by
  obtain ⟨F, hF⟩ := hx
  refine (NdArray.Stacked.arith .sub (o := .number t) (mapReal_stack hF Scalar.abs).stacked
    trivial).bind fun e he => ?_
  rw [Operand.backend, Backend.join_memory] at he
  refine (he.arithNumber .maxNum (.int 0)).bind fun u hu => ?_
  refine (signs_stack hF).bind fun s hs => ?_
  refine hu.update .mul hs.stacked.fits ?_
  rw [Operand.backend, hs.backend_eq, Backend.join_self]

lemma shorten_stacked (t : Number Exact) (hx : x.Stacked b lead n) :
    Yields (shorten x (.number t)) (·.Stacked b lead n) := by
  obtain ⟨F, hF⟩ := hx
  have hlengths : (lengths x).Stacked b lead 1 :=
    (mapReal_stack (sumTail_stack (square_stack hF)) Scalar.sqrt).stacked
  refine (hlengths.arith .maxNum (o := .number t) trivial).bind fun l hl => ?_
  rw [Operand.backend, Backend.join_memory] at hl
  refine (hl.arithNumber .div t).bind fun d hd => ?_
  refine (hd.arithNumber .sub (.int 1)).bind fun f hf => ?_
  obtain ⟨G, hG⟩ := hf
  refine hF.stacked.update .mul (Operand.fits_of_column hG) ?_
  rw [Operand.backend, hG.backend_eq, Backend.join_self]

lemma clamp_stacked {l u : Operand Exact} (hl : l.Fits (lead ++ [n])) (hu : u.Fits (lead ++ [n]))
    (hx : x.Stacked b lead n) :
    Yields (clip (some l) (some u) x) (·.Stacked ((b.join l.backend).join u.backend) lead n) := by
  rw [clip_both hx.real]
  exact (hx.extremum true hl).bind fun r hr => hr.extremum false hu

/-- A proximal point has the size of the point, whatever the step is. -/
lemma prox_stacked {h : Penalty Exact} (hh : h.Fits lead n) (t : Number Exact)
    (hx : x.Stacked b lead n) :
    Yields (h.prox x (.number t)) (·.Stacked (h.landing b) lead n) := by
  cases h with
  | absolute => exact shrink_stacked t hx
  | euclidean => exact shorten_stacked t hx
  | orthant =>
    show Yields (clip (some (.number (.int 0))) none x) _
    rw [clip_lower hx.real]
    refine (hx.extremum true (o := .number (.int 0)) trivial).mono fun y hy => ?_
    rwa [Operand.backend, Backend.join_memory] at hy
  | box lower upper =>
    obtain ⟨l, u, hl, hu, hlfits, hufits⟩ := hh
    rw [landing, Value.operandBackend_eq hl, Value.operandBackend_eq hu]
    show Yields (do
      let l ← lower.toOperand
      let u ← upper.toOperand
      clip (some l) (some u) x) _
    rw [hl, hu]
    exact clamp_stacked hlfits hufits hx
  | zero => exact Yields.ok hx
  | unspecified => exact hh.elim

end Penalty

namespace Proximable

/-- Numbers are multiplied to a number. -/
lemma arith_mul_number (k t : Number Exact) :
    ∃ r, Value.arith .mul (.number k) (.number t) = .ok (.number r) := by
  obtain ⟨r, hr, -⟩ := Number.mul_value k t
  refine ⟨r, ?_⟩
  rw [Value.arith, hr]
  rfl

/-- A proximal point has the size of the point, whatever the step and the factors are. -/
lemma prox_stacked : ∀ {t : Proximable Exact}, t.elementary.Fits lead n → ∀ s : Number Exact,
    x.Stacked b lead n → Yields (t.prox x (.number s)) (·.Stacked (t.landing b) lead n)
  | plain _ _ _, ht, s, hx => Penalty.prox_stacked ht s hx
  | scaled c t _, ht, s, hx => by
      obtain ⟨r, hr⟩ := arith_mul_number (.real c) s
      rw [prox, hr]
      exact prox_stacked (t := t) ht r hx

/-- Moreau's identity divides by the step. -/
lemma moreau_stacked {t : Proximable Exact} (ht : t.elementary.Fits lead n) {s k : Number Exact}
    (hs : (Number.int 1).div s = .ok k) (hz : z.Stacked b lead n) :
    Yields (t.moreau z (.number s)) (·.Stacked (t.landing b) lead n) := by
  have hstep : Value.arith .div (.number (.int 1)) (.number s) = .ok (.number k) := by
    rw [Value.arith, hs]
    rfl
  refine (hz.arith .div (o := .number s) trivial).bind fun inner hinner => ?_
  rw [Operand.backend, Backend.join_memory] at hinner
  simp only [hstep, bind, Except.bind]
  refine (prox_stacked ht k hinner).bind fun p hp => ?_
  refine (hp.updateNumber .mul s.neg).bind fun q hq => ?_
  refine hq.update .add hz.fits ?_
  rw [Operand.backend, hz.backend_eq, landing_join]

/-- A proximal point of the conjugate has the size of the point if one can divide by the step. -/
lemma conjugateProx_stacked {t : Proximable Exact} (ht : t.elementary.Fits lead n)
    {s k : Number Exact} (hs : (Number.int 1).div s = .ok k) (hz : z.Stacked b lead n) :
    Yields (t.conjugateProx z (.number s)) (·.Stacked (t.landing b) lead n) := by
  cases t with
  | plain h dim K =>
    cases h with
    | absolute =>
      have hone (j : ℤ) : (Operand.number (.int j) : Operand Exact).Fits (lead ++ [n]) := trivial
      refine (Penalty.clamp_stacked (hone (-1)) (hone 1) hz).mono fun q hq => ?_
      rwa [Operand.backend, Operand.backend, Backend.join_memory, Backend.join_memory] at hq
    | zero => exact Yields.ok hz.zerosLike
    | euclidean => exact moreau_stacked ht hs hz
    | orthant => exact moreau_stacked ht hs hz
    | box lower upper => exact moreau_stacked ht hs hz
    | unspecified => exact ht.elim
  | scaled c t K => exact moreau_stacked ht hs hz

end Proximable

/-! ## An iteration -/

namespace IterationState

variable {s : IterationState Exact}

/-- The sizes of the parts match for points of size `n` and dual points of size `m`, stacked along the
axes `lead`. -/
structure SizesMatch (s : IterationState Exact) (lead : Shape) (m n : ℕ) : Prop where
  operator : s.operator.rule.Takes m n
  smooth : s.smooth.Takes lead n
  primal : s.primalTerm.elementary.Fits lead n
  dual : s.dualTerm.elementary.Fits lead m
  point : ∃ b, s.x.Stacked b lead n
  dualPoint : ∃ b, s.z.Stacked b lead m

namespace SizesMatch

lemma primalPoint (h : s.SizesMatch lead m n) {t : Number Exact} (ht : s.tau = .number t) :
    Yields s.primalPoint fun u => ∃ b, u.Stacked b lead n := by
  obtain ⟨b, hx⟩ := h.point
  obtain ⟨c, hz⟩ := h.dualPoint
  refine (Smooth.gradient_stacked h.smooth hx).bind fun g hg => ?_
  obtain ⟨c', hg⟩ := hg
  refine (LinearOperator.adjointMap_stacked h.operator hz).bind fun back hback => ?_
  refine (hg.arith .add hback.fits).bind fun d hd => ?_
  rw [ht]
  refine (hd.arithNumber .mul t).bind fun move hmove => ?_
  exact (hx.arith .sub hmove.fits).mono fun u hu => ⟨_, hu⟩

lemma dualPointAt (h : s.SizesMatch lead m n) {k : Number Exact} (hk : s.sigma = .number k)
    {p : NdArray Exact} (hp : p.Stacked b lead n) :
    Yields (s.dualPoint p) fun v => ∃ c, v.Stacked c lead m := by
  obtain ⟨b, hx⟩ := h.point
  obtain ⟨c, hz⟩ := h.dualPoint
  refine (hp.arithNumber .mul (.int 2)).bind fun twice htwice => ?_
  refine (htwice.arith .sub hx.fits).bind fun ahead hahead => ?_
  refine (LinearOperator.map_stacked h.operator hahead).bind fun image himage => ?_
  rw [hk]
  refine (himage.arithNumber .mul k).bind fun move hmove => ?_
  exact (hz.arith .add hmove.fits).mono fun v hv => ⟨_, hv⟩

/-- **Both proximal points can be had** where the sizes match and one can divide by the dual step. -/
theorem proximalPoints (h : s.SizesMatch lead m n) {t k r : Number Exact} (ht : s.tau = .number t)
    (hk : s.sigma = .number k) (hr : (Number.int 1).div k = .ok r) :
    ∃ P, s.proximalPoints = .ok P := by
  have hyields : Yields s.proximalPoints fun _ => True := by
    refine (h.primalPoint ht).bind fun u hu => ?_
    obtain ⟨b, hu⟩ := hu
    rw [ht]
    refine (Proximable.prox_stacked h.primal t hu).bind fun p hp => ?_
    refine (h.dualPointAt hk hp).bind fun v hv => ?_
    obtain ⟨c, hv⟩ := hv
    rw [hk]
    exact (Proximable.conjugateProx_stacked h.dual hr hv).bind fun q _ => Yields.pure trivial
  obtain ⟨P, hP, -⟩ := hyields
  exact ⟨P, hP⟩

end SizesMatch

end IterationState

end PrimalDual
