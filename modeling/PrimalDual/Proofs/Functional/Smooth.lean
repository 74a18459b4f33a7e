import PrimalDual.Functional.Smooth
import PrimalDual.Proofs.Convex.Problem
import PrimalDual.Proofs.Operator.Action

/-!
# Smooth functionals are least-squares functionals

The smooth functionals of the library are the null functional and half the squared distance from
the image of a point to the data.  At each point of a stack both are a least-squares functional of
real numbers, and the library computes its value and its gradient.

* `Smooth.fitting` — the least-squares functional at a point of a stack.
* `Smooth.Fits` — the sizes fit, and the numbers at the point are finite.
* **`gradient_holds`**, **`value_holds`** — the gradient and the value.
* `leastSquares_curved` — the curvature that a least-squares functional starts with bounds the one
  of its gradient.
-/

namespace PrimalDual

open Exact Matrix NdArray

variable {lead : Shape} {b : Backend} {m n r : ℕ} {v : Fin n → ℝ}

/-! ## Data -/

/-- The data that point `r` is compared with; absent data counts as zero. -/
noncomputable def dataRow (data : Value Exact) (lead : Shape) (m r : ℕ) : Fin m → ℝ :=
  match data.toOperand with
  | .ok o => fun j => (o.entry lead m r j).toReal
  | .error _ => 0

/-- Where the operand behind a value lives; what is no operand lives nowhere in particular. -/
noncomputable def Value.operandBackend (v : Value Exact) : Backend :=
  match v.toOperand with
  | .ok o => o.backend
  | .error _ => .memory

lemma Value.operandBackend_eq {v : Value Exact} {o : Operand Exact} (h : v.toOperand = .ok o) :
    v.operandBackend = o.backend := by
  rw [operandBackend, h]

/-- There is no data, or it can be spread over the images and is finite at point `r`. -/
def DataFits (data : Value Exact) (lead : Shape) (m r : ℕ) : Prop :=
  data = .null ∨ ∃ o, data.toOperand = .ok o ∧ o.Fits (lead ++ [m]) ∧
    ∀ j : Fin m, ∃ x, o.entry lead m r j = finite x

/-- Absent data is no operand. -/
lemma toOperand_null : (Value.null : Value Exact).toOperand = .error .wrongType := rfl

namespace Smooth

lemma residual_holds (A : LinearOperator Exact) {data : Value Exact} {x : NdArray Exact}
    (hA : A.rule.Acts m n) (hdata : DataFits data lead m r) (hx : x.Holds b lead n r v) :
    Yields (residual A data x) (·.Holds ((A.rule.landing b).join data.operandBackend) lead m r
      (A.rule.matrix m n *ᵥ v - dataRow data lead m r)) := by
  refine (map_holds A hA hx).bind fun y hy => ?_
  rcases hdata with rfl | ⟨o, ho, hfits, hfinite⟩
  · rw [dataRow, Value.operandBackend, toOperand_null, sub_zero, Backend.join_memory]
    exact Yields.ok hy
  · have hnull : data.isNull = false := by
      cases data with
      | null => cases ho
      | _ => rfl
    rw [dataRow, Value.operandBackend_eq ho, ho, hnull, if_neg Bool.false_ne_true]
    refine (arith_stack .sub hy.stack hfits).mono fun z hz => hz.holds hy.lt fun j => ?_
    obtain ⟨x, hx⟩ := hfinite j
    rw [hx, hy.row]
    show finite _ - finite x = finite (_ - (o.entry lead m r j).toReal)
    rw [hx, toReal_finite, finite_sub]

/-! ## The least-squares functional -/

/-- The least-squares functional at point `r` of a stack. -/
noncomputable def fitting (f : Smooth Exact) (lead : Shape) (n r : ℕ) : Fitting n :=
  match f.rule with
  | .leastSquares A data =>
    ⟨A.rule.outputs n, A.rule.matrix (A.rule.outputs n) n, dataRow data lead (A.rule.outputs n) r⟩
  | _ => Fitting.null n

/-- The functional is null or a least-squares functional whose operator and data fit. -/
def Fits (f : Smooth Exact) (lead : Shape) (n r : ℕ) : Prop :=
  match f.rule with
  | .zero => True
  | .leastSquares A data =>
    A.rule.Acts (A.rule.outputs n) n ∧ DataFits data lead (A.rule.outputs n) r
  | _ => False

/-- Where the gradient at a point on `b` lives. -/
noncomputable def landing (f : Smooth Exact) (b : Backend) : Backend :=
  match f.rule with
  | .leastSquares A data => A.rule.landing ((A.rule.landing b).join data.operandBackend)
  | _ => b

variable {f : Smooth Exact} {x : NdArray Exact}

/-- **The gradient is that of the least-squares functional.** -/
theorem gradient_holds (hf : f.Fits lead n r) (hx : x.Holds b lead n r v) :
    Yields (f.gradient x) (·.Holds (f.landing b) lead n r ((f.fitting lead n r).slope v)) := by
  rw [gradient, fitting, landing]
  rw [Fits] at hf
  cases hrule : f.rule with
  | zero =>
    show Yields (.ok x.zerosLike) (·.Holds b lead n r ((Fitting.null n).slope v))
    rw [Fitting.null_slope]
    exact Yields.ok hx.zerosLike
  | leastSquares A data =>
    rw [hrule] at hf
    refine (residual_holds A hf.1 hf.2 hx).bind fun y hy => ?_
    exact adjointMap_holds A hf.1 hy
  | quadratic factor =>
    rw [hrule] at hf
    exact hf.elim
  | unspecified =>
    rw [hrule] at hf
    exact hf.elim

lemma zeroValues_holds (hx : x.Holds b lead n r v) : (zeroValues x).Holds b lead 1 r 0 := by
  obtain ⟨p, hp⟩ := exists_precision hx.real
  rw [zeroValues, hp, hx.shape_eq, Shape.replaceTail_stack, hx.backend_eq, zero_eq]
  exact (tabulate_stack p _).holds hx.lt fun _ => rfl

/-- **The value is that of the least-squares functional.** -/
theorem value_holds (hf : f.Fits lead n r) (hx : x.Holds b lead n r v) :
    Yields (f.value x) fun y => ∃ c, y.Holds c lead 1 r fun _ => (f.fitting lead n r).loss v := by
  rw [value, fitting]
  rw [Fits] at hf
  cases hrule : f.rule with
  | zero =>
    refine Yields.ok ⟨b, ?_⟩
    show (zeroValues x).Holds b lead 1 r fun _ => (Fitting.null n).loss v
    rw [Fitting.null_loss]
    exact zeroValues_holds hx
  | leastSquares A data =>
    rw [hrule] at hf
    refine (residual_holds A hf.1 hf.2 hx).bind fun y hy => ?_
    have hhalf : (half : Number Exact).Is (1 / 2) := by
      rw [half, ratio_eq, Int.cast_one, Int.cast_ofNat]
      exact Number.is_real _
    exact (hy.squares.scale hhalf).mono fun z hz => ⟨_, hz⟩
  | quadratic factor =>
    rw [hrule] at hf
    exact hf.elim
  | unspecified =>
    rw [hrule] at hf
    exact hf.elim

/-! ## Curvature -/

/-- The curvature is a real number that bounds the one of the gradient. -/
def CurvedAtMost (f : Smooth Exact) (lead : Shape) (n r : ℕ) (β : ℝ) : Prop :=
  f.curvature = finite β ∧ 0 ≤ β ∧ (f.fitting lead n r).CurvedAtMost β

/-- What a least-squares functional is made of; its curvature is the square of the bound. -/
lemma leastSquares_ok {data : Value Exact} {forward : Forward Exact}
    (h : leastSquares data forward = .ok f) :
    ∃ A s, forwardOperator data forward = .ok A ∧ (Number.real A.bound).square = .ok s ∧
      f = ⟨.leastSquares A data, A.dim, s.value⟩ := by
  obtain ⟨A, hA, h⟩ := ok_of_bind h
  refine ⟨A, ?_⟩
  dsimp only at h
  split at h
  · split at h
    · obtain ⟨n, -, h⟩ := ok_of_bind h
      split at h
      · cases h
      · obtain ⟨s, hs, h⟩ := ok_of_bind h
        cases h
        exact ⟨s, hA, hs, rfl⟩
    · obtain ⟨s, hs, h⟩ := ok_of_bind h
      cases h
      exact ⟨s, hA, hs, rfl⟩
  · obtain ⟨s, hs, h⟩ := ok_of_bind h
    cases h
    exact ⟨s, hA, hs, rfl⟩

/-- The curvature that a least-squares functional starts with bounds the one of its gradient, when
the bound of its operator does. -/
lemma leastSquares_curved {data : Value Exact} {forward : Forward Exact} {A : LinearOperator Exact}
    {L : ℝ} (h : leastSquares data forward = .ok f) (hA : forwardOperator data forward = .ok A)
    (hL : A.bound = finite L)
    (hbound : ∀ a : Fin n → ℝ, (A.rule.matrix (A.rule.outputs n) n *ᵥ a) ⬝ᵥ
      (A.rule.matrix (A.rule.outputs n) n *ᵥ a) ≤ L ^ 2 * (a ⬝ᵥ a)) :
    f.CurvedAtMost lead n r (L ^ 2) := by
  obtain ⟨A', s, hA', hs, rfl⟩ := leastSquares_ok h
  obtain rfl : A' = A := Except.ok.inj (hA'.symm.trans hA)
  rw [hL, Number.square_finite] at hs
  cases hs
  exact ⟨by rw [sq]; rfl, sq_nonneg L, hbound⟩

end Smooth

end PrimalDual
