import PrimalDual.Functional.Proximable
import PrimalDual.Proofs.NdArray.Shapes
import PrimalDual.Proofs.Operator.Locality

/-!
# Functionals see one point at a time

Gradients and proximal points are computed for all points of a stack at once, but each of them from
its own point alone.  Parameters that have more than one axis would break this: bounds and steps have
to be numbers or to go along the trailing axis, and data may besides be stacked like the points, each
point meeting its own.

* `Value.Shared` — a parameter that all points meet alike.
* `SameData`, `SameSmooth` — data, and a smooth functional, at one point in two stacks.
* **`Smooth.gradient_same`** — the gradient.
* **`Proximable.prox_same`**, **`conjugateProx_same`** — the proximal points.
-/

namespace PrimalDual

open NdArray

variable {α : Type} [Scalar α] {s s' : Spot} {x x' z z' : NdArray α}

/-! ## Parameters -/

namespace Value

/-- All points meet the value alike: what it stands for has at most one axis. -/
def Shared (v : Value α) : Prop := ∀ o, v.toOperand = .ok o → o.Shared

variable {v w : Value α}

lemma shared_number (x : Number α) : (number x).Shared := by
  intro o ho
  cases ho
  trivial

lemma shared_array {a : NdArray α} (h : a.rank ≤ 1) : (array a).Shared := by
  intro o ho
  cases ho
  exact h

lemma Shared.toOperand_same (hv : v.Shared) :
    Parallel (SameOperand s s') v.toOperand v.toOperand := by
  cases ho : v.toOperand with
  | error e => exact .refused e
  | ok o => exact .ok (hv o ho).same

end Value

/-- A number times a shared value, or divided by it, is shared. -/
lemma Value.Shared.arith {op : Operation} {c : Number α} {v w : Value α} (hv : v.Shared)
    (h : Value.arith op (.number c) v = .ok w) : w.Shared := by
  cases v with
  | number x =>
    have hnumber : ∀ r : Except Fault (Number α), r.map Value.number = .ok w → w.Shared := by
      intro r hr
      cases r with
      | error e => cases hr
      | ok y =>
        cases hr
        exact shared_number y
    cases op with
    | maxNum =>
      cases h
      exact shared_number _
    | add | sub | mul | div => exact hnumber _ h
  | array a =>
    obtain ⟨o, ho, h⟩ := ok_of_bind h
    obtain ⟨o', ho', h⟩ := ok_of_bind h
    obtain ⟨y, hy, hw⟩ := ok_of_bind h
    cases ho
    cases ho'
    cases hw
    refine shared_array ?_
    rw [NdArray.rank, arith_number_shape hy]
    exact hv _ rfl
  | null | text t | list l | tuple l | mapping l | object k t => cases h

/-! ## Smooth functionals -/

/-- Data that a point meets alike in two stacks: shared data, or data stacked like the points. -/
inductive SameData (s s' : Spot) : Value α → Value α → Prop
  | shared {v : Value α} (h : v.Shared) : SameData s s' v v
  | stacked {a a' : NdArray α} (h : SameSpread s s' a a') : SameData s s' (.array a) (.array a')

/-- The formula of a smooth functional at one point in two stacks. -/
inductive SameRule (s s' : Spot) : SmoothRule α → SmoothRule α → Prop
  | zero : SameRule s s' .zero .zero
  | leastSquares {K : LinearOperator α} {d d' : Value α} (hK : K.Within) (hd : SameData s s' d d') :
      SameRule s s' (.leastSquares K d) (.leastSquares K d')
  | quadratic {c : Value α} (hc : c.Shared) : SameRule s s' (.quadratic c) (.quadratic c)
  | unspecified : SameRule s s' .unspecified .unspecified

/-- A smooth functional at one point in two stacks. -/
structure SameSmooth (s s' : Spot) (f f' : Smooth α) : Prop where
  curvature_eq : f'.curvature = f.curvature
  rule : SameRule s s' f.rule f'.rule

namespace Smooth

lemma residual_same {K : LinearOperator α} {d d' : Value α} (hK : K.Within)
    (hd : SameData s s' d d') (hx : SamePoint s s' x x') :
    Parallel (SamePoint s s') (residual K d x) (residual K d' x') := by
  refine (K.map_same hK hx).bind fun r r' hr => ?_
  cases hd with
  | shared h =>
    split_ifs
    · exact .pure hr
    · exact h.toOperand_same.bind fun _ _ ho => hr.arith .sub ho
  | stacked h => exact hr.arith .sub (.array h)

/-- **The gradient at a point** is the same in all stacks. -/
theorem gradient_same {f f' : Smooth α} (hf : SameSmooth s s' f f') (hx : SamePoint s s' x x') :
    Parallel (SamePoint s s') (f.gradient x) (f'.gradient x') := by
  obtain ⟨rule, dim, c⟩ := f
  obtain ⟨rule', dim', c'⟩ := f'
  cases hf.rule with
  | zero => exact .ok hx.zerosLike
  | leastSquares hK hd => exact (residual_same hK hd hx).bind fun _ _ hr =>
      LinearOperator.adjointMap_same hK hr
  | quadratic hc => exact hc.toOperand_same.bind fun _ _ ho => SamePoint.arith_right .mul ho hx
  | unspecified => exact .refused _

end Smooth

/-! ## Proximal points -/

/-- No bound is vacuous beside floating-point elements. -/
lemma filter_bounds {α : Type} (lower : Bool) (p : Precision) (o : Option (Operand α)) :
    (o.filter fun b => !vacuousBound lower (.real p) b) = o := by
  cases o <;> rfl

lemma clip_same {lower upper : Option (Operand α)} (hl : ∀ o ∈ lower, o.Shared)
    (hu : ∀ o ∈ upper, o.Shared) (hx : SamePoint s s' x x') :
    Parallel (SamePoint s s') (clip lower upper x) (clip lower upper x') := by
  obtain ⟨p, hp, hp'⟩ := hx.exists_precision
  simp only [clip, hp, hp', filter_bounds]
  cases lower with
  | none =>
    cases upper with
    | none => exact .pure hx
    | some b => exact hx.extremum false (hu b rfl).same
  | some l =>
    refine (hx.extremum true (hl l rfl).same).bind fun y y' hy => ?_
    cases upper with
    | none => exact .pure hy
    | some b => exact hy.extremum false (hu b rfl).same

namespace Penalty

/-- All points meet the bounds of a box alike. -/
def Shared : Penalty α → Prop
  | box lower upper => lower.Shared ∧ upper.Shared
  | _ => True

lemma shrink_same {o : Operand α} (ho : o.Shared) (hx : SamePoint s s' x x') :
    Parallel (SamePoint s s') (shrink x o) (shrink x' o) := by
  refine ((hx.mapReal Scalar.abs).arith .sub ho.same).bind fun e e' he => ?_
  refine (SamePoint.arith_right .maxNum (.number _) he).bind fun y y' hy => ?_
  refine hx.signs.bind fun t t' ht => ?_
  exact hy.update .mul ht.operand

lemma shorten_same {o : Operand α} (ho : o.Shared) (hx : SamePoint s s' x x') :
    Parallel (SamePoint s s') (shorten x o) (shorten x' o) := by
  have hlengths : SamePoint s s' (lengths x) (lengths x') := hx.square.sumTail.mapReal Scalar.sqrt
  refine (hlengths.arith .maxNum ho.same).bind fun e e' he => ?_
  refine (SamePoint.arith_right .div ho.same he).bind fun y y' hy => ?_
  refine (SamePoint.arith_right .sub (.number _) hy).bind fun t t' ht => ?_
  exact hx.update .mul ht.operand

/-- The proximal point. -/
lemma prox_same {h : Penalty α} {tau : Value α} (hh : h.Shared) (ht : tau.Shared)
    (hx : SamePoint s s' x x') : Parallel (SamePoint s s') (h.prox x tau) (h.prox x' tau) := by
  cases h with
  | absolute => exact .bind_self _ fun o ho => shrink_same (ht o ho) hx
  | euclidean => exact .bind_self _ fun o ho => shorten_same (ht o ho) hx
  | orthant =>
    show Parallel _ (clip (some _) none x) (clip (some _) none x')
    refine clip_same ?_ ?_ hx
    · rintro o ⟨⟩
      trivial
    · rintro o ⟨⟩
  | box lower upper =>
    refine .bind_self _ fun l hl => .bind_self _ fun u hu => clip_same ?_ ?_ hx
    · rintro o ⟨⟩
      exact hh.1 l hl
    · rintro o ⟨⟩
      exact hh.2 u hu
  | zero => exact .ok hx
  | unspecified => exact .refused _

end Penalty

namespace Proximable

/-- All points meet the bounds of the elementary functional alike. -/
def Shared : Proximable α → Prop
  | plain h _ _ => h.Shared
  | scaled _ t _ => Shared t

/-- **The proximal point of a point** is the same in all stacks. -/
theorem prox_same : ∀ {t : Proximable α} {tau : Value α}, t.Shared → tau.Shared →
    SamePoint s s' x x' → Parallel (SamePoint s s') (t.prox x tau) (t.prox x' tau)
  | plain _ _ _, _, ht, htau, hx => Penalty.prox_same ht htau hx
  | scaled _ t _, _, ht, htau, hx =>
      .bind_self _ fun _ hstep => prox_same (t := t) ht (htau.arith hstep) hx

lemma moreau_same {t : Proximable α} {sigma : Value α} (ht : t.Shared) (hs : sigma.Shared)
    (hz : SamePoint s s' z z') : Parallel (SamePoint s s') (t.moreau z sigma) (t.moreau z' sigma) := by
  refine .bind_self _ fun o ho => ?_
  refine (hz.arith .div (hs o ho).same).bind fun y y' hy => ?_
  refine .bind_self _ fun step hstep => ?_
  refine (prox_same ht (hs.arith hstep) hy).bind fun p p' hp => ?_
  cases sigma with
  | number c =>
    exact (hp.update .mul (.number c.neg)).bind fun q q' hq => hq.update .add hz.operand
  | null | text t | list l | tuple l | mapping l | array a | object k t => exact .refused _

/-- **The proximal point of the conjugate** is the same in all stacks. -/
theorem conjugateProx_same {t : Proximable α} {sigma : Value α} (ht : t.Shared) (hs : sigma.Shared)
    (hz : SamePoint s s' z z') :
    Parallel (SamePoint s s') (t.conjugateProx z sigma) (t.conjugateProx z' sigma) := by
  cases t with
  | plain h dim K =>
    cases h with
    | absolute =>
      refine clip_same ?_ ?_ hz
      · rintro o ⟨⟩
        trivial
      · rintro o ⟨⟩
        trivial
    | zero => exact .ok hz.zerosLike
    | euclidean | orthant | box lower upper | unspecified => exact moreau_same ht hs hz
  | scaled c t K => exact moreau_same ht hs hz

end Proximable

end PrimalDual
