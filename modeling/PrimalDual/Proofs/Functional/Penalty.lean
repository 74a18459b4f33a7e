import PrimalDual.Proofs.Convex.Functional
import PrimalDual.Proofs.Functional.Smooth
import PrimalDual.Proofs.NdArray.Truth

/-!
# Elementary functionals

At each point of a stack an elementary functional is one of real numbers, and the library computes
its value and its proximal points.  A box has bounds for each element, which may be infinite; it may
also be empty, in which case its value is infinite everywhere and it has no proximal points.

* `Penalty.functional` — the functional at a point of a stack.
* `Penalty.Fits`, `Penalty.Stays` — bounds can be spread over the points and live where they live.
* `Penalty.landing` — where proximal points live if the bounds do not live where the points live.
* **`prox_lands`** — what is computed is the proximal point.
* **`value_reports`** — what is computed is the value.
-/

namespace PrimalDual

open Exact NdArray

variable {lead : Shape} {b : Backend} {n r : ℕ} {v : Fin n → ℝ} {x : NdArray Exact} {τ : ℝ}

/-! ## Bounds

A number is brought between two bounds one after the other.  The first step stays below all numbers
above the lower bound, or changes nothing; the second one likewise.
-/

namespace Exact

/-- The number lies between the bounds, either of which may be infinite. -/
def Between (l u : Exact) (y : ℝ) : Prop :=
  Scalar.atMost l (finite y) = true ∧ Scalar.atMost (finite y) u = true

lemma maximum_bound {l : Exact} {y : ℝ} (h : Scalar.atMost l (finite y) = true) (x : ℝ) :
    ∃ a, Scalar.maximum (finite x) l = finite a ∧ x ≤ a ∧ Scalar.atMost l (finite a) = true ∧
      (a = x ∨ ∀ y, Scalar.atMost l (finite y) = true → a ≤ y) := by
  cases l with
  | finite c =>
    refine ⟨max x c, maximum_finite x c, le_max_left x c, ?_, ?_⟩
    · rw [atMost_finite, decide_eq_true_eq]
      exact le_max_right x c
    · rcases le_total x c with hxc | hcx
      · right
        intro y hy
        rw [atMost_finite, decide_eq_true_eq] at hy
        rwa [max_eq_right hxc]
      · left
        exact max_eq_left hcx
  | infinite s =>
    cases s with
    | true => exact ⟨x, rfl, le_refl x, rfl, Or.inl rfl⟩
    | false => cases h
  | notANumber => cases h

lemma minimum_bound {u : Exact} {y : ℝ} (h : Scalar.atMost (finite y) u = true) (x : ℝ) :
    ∃ a, Scalar.minimum (finite x) u = finite a ∧ a ≤ x ∧ Scalar.atMost (finite a) u = true ∧
      (a = x ∨ ∀ y, Scalar.atMost (finite y) u = true → y ≤ a) := by
  cases u with
  | finite c =>
    refine ⟨min x c, minimum_finite x c, min_le_left x c, ?_, ?_⟩
    · rw [atMost_finite, decide_eq_true_eq]
      exact min_le_right x c
    · rcases le_total x c with hxc | hcx
      · left
        exact min_eq_left hxc
      · right
        intro y hy
        rw [atMost_finite, decide_eq_true_eq] at hy
        rwa [min_eq_right hcx]
  | infinite s =>
    cases s with
    | true => cases h
    | false => exact ⟨x, rfl, le_refl x, rfl, Or.inl rfl⟩
  | notANumber => cases h

lemma atMost_trans {l : Exact} {x y : ℝ} (h : Scalar.atMost l (finite x) = true) (hxy : x ≤ y) :
    Scalar.atMost l (finite y) = true := by
  cases l with
  | finite c =>
    rw [atMost_finite, decide_eq_true_eq] at h ⊢
    exact h.trans hxy
  | infinite s => exact h
  | notANumber => cases h

/-- A number brought between two bounds is the nearest one between them. -/
lemma clamp_nearest {l u : Exact} {y : ℝ} (h : Between l u y) (x : ℝ) :
    ∃ a p, Scalar.maximum (finite x) l = finite a ∧ Scalar.minimum (finite a) u = finite p ∧
      Between l u p ∧ ∀ y, Between l u y → (x - p) * (y - p) ≤ 0 := by
  obtain ⟨a, ha, hxa, hla, ha'⟩ := maximum_bound h.1 x
  obtain ⟨p, hp, hpa, hup, hp'⟩ := minimum_bound h.2 a
  refine ⟨a, p, ha, hp, ⟨?_, hup⟩, fun y hy => ?_⟩
  · rcases hp' with rfl | hp'
    · exact hla
    · exact atMost_trans h.1 (hp' _ h.2)
  · rcases hp' with rfl | hp'
    · -- the upper bound changes nothing
      rcases ha' with rfl | ha'
      · rw [sub_self, zero_mul]
      · exact mul_nonpos_of_nonpos_of_nonneg (sub_nonpos.mpr hxa) (sub_nonneg.mpr (ha' y hy.1))
    · rcases ha' with rfl | ha'
      · exact mul_nonpos_of_nonneg_of_nonpos (sub_nonneg.mpr hpa) (sub_nonpos.mpr (hp' y hy.2))
      · -- both bounds are met, so nothing else lies between them
        have hyp : y - p = 0 := by linarith [ha' y hy.1, hp' y hy.2]
        rw [hyp, mul_zero]

end Exact

/-! ## The functional at a point -/

namespace Penalty

/-- The numbers between the bounds that element `j` of point `r` meets. -/
def interval (lower upper : Value Exact) (lead : Shape) (n r : ℕ) (j : Fin n) : Set ℝ :=
  match lower.toOperand, upper.toOperand with
  | .ok l, .ok u => {y | Between (l.entry lead n r j) (u.entry lead n r j) y}
  | _, _ => ∅

/-- The functional at point `r` of a stack. -/
noncomputable def functional (h : Penalty Exact) (lead : Shape) (n r : ℕ) : Functional n :=
  match h with
  | absolute => .magnitudes n
  | euclidean => .length n
  | orthant => .indicator fun _ => Set.Ici 0
  | box lower upper => .indicator (interval lower upper lead n r)
  | zero | unspecified => .null n

/-- The bounds of a box can be spread over the points. -/
def Fits (h : Penalty Exact) (lead : Shape) (n : ℕ) : Prop :=
  match h with
  | box lower upper => ∃ l u, lower.toOperand = .ok l ∧ upper.toOperand = .ok u ∧
      l.Fits (lead ++ [n]) ∧ u.Fits (lead ++ [n])
  | unspecified => False
  | _ => True

/-- The bounds of a box live where the points live. -/
def Stays (h : Penalty Exact) (b : Backend) : Prop :=
  match h with
  | box lower upper => b.join lower.operandBackend = b ∧ b.join upper.operandBackend = b
  | _ => True

/-- Where a proximal point lives: bounds in chunks split it into chunks. -/
noncomputable def landing (h : Penalty Exact) (b : Backend) : Backend :=
  match h with
  | box lower upper => (b.join lower.operandBackend).join upper.operandBackend
  | _ => b

/-- Where a proximal point lives takes in the point itself. -/
lemma landing_join (h : Penalty Exact) (b : Backend) : (h.landing b).join b = h.landing b := by
  cases h with
  | box lower upper =>
    rw [landing]
    cases b <;> cases lower.operandBackend <;> cases upper.operandBackend <;> rfl
  | absolute | euclidean | orthant | zero | unspecified => exact Backend.join_self b

lemma Stays.landing_eq {h : Penalty Exact} (hb : h.Stays b) : h.landing b = b := by
  cases h with
  | box lower upper => rw [landing, hb.1, hb.2]
  | absolute | euclidean | orthant | zero | unspecified => rfl

lemma interval_eq {lower upper : Value Exact} {l u : Operand Exact} (hl : lower.toOperand = .ok l)
    (hu : upper.toOperand = .ok u) (j : Fin n) : interval lower upper lead n r j
      = {y | Between (l.entry lead n r j) (u.entry lead n r j) y} := by
  rw [interval, hl, hu]

/-! ## Proximal points -/

lemma shrink_isProx {t : Number Exact} (ht : t.Is τ) (hτ : 0 < τ) (hx : x.Holds b lead n r v) :
    Yields (shrink x (.number t)) fun y => ∃ p, y.Holds b lead n r p ∧
      (Functional.magnitudes n).IsProx τ v p := by
  have hmag : x.magnitude.Holds b lead n r fun j => |v j| := hx.map fun j => abs_finite (v j)
  refine (hmag.zip .sub (o := .number t) (w := fun _ => τ) (u := fun j => |v j| - τ) trivial
    (fun _ => ht) fun _ => rfl).bind fun e he => ?_
  rw [Operand.backend, Backend.join_memory] at he
  refine (he.numberZip .maxNum (Number.is_int 0) (u := fun j => max 0 (|v j| - τ)) fun j => by
    rw [Int.cast_zero]
    exact maxNum_finite _ _).bind fun y hy => ?_
  refine (signs_stack hx.stack).bind fun s hs => ?_
  have hs' : s.Holds b lead n r fun j => (SignType.sign (v j) : ℝ) :=
    hs.holds hx.lt fun j => by rw [hx.row, sign_finite]
  have hb : b.join (Operand.array s).backend = b := by
    rw [Operand.backend, hs'.backend_eq, Backend.join_self]
  refine (hy.update .mul hs'.fits hb hs'.entry fun _ => rfl).mono fun z hz => ?_
  exact ⟨_, hz, Functional.magnitudes_isProx hτ fun _ => rfl⟩

/-- The Euclidean lengths of the points. -/
lemma lengths_holds (hx : x.Holds b lead n r v) :
    (lengths x).Holds b lead 1 r fun _ => √(v ⬝ᵥ v) :=
  hx.squares.map fun _ => sqrt_finite (Functional.dotProduct_self_nonneg v)

lemma shorten_isProx {t : Number Exact} (ht : t.Is τ) (hτ : 0 < τ) (hx : x.Holds b lead n r v) :
    Yields (shorten x (.number t)) fun y => ∃ p, y.Holds b lead n r p ∧
      (Functional.length n).IsProx τ v p := by
  have hmax : 0 < max √(v ⬝ᵥ v) τ := lt_max_of_lt_right hτ
  refine ((lengths_holds hx).zip .maxNum (o := .number t) (w := fun _ => τ)
    (u := fun _ => max √(v ⬝ᵥ v) τ) trivial (fun _ => ht) fun _ => maxNum_finite _ _).bind
    fun ℓ hℓ => ?_
  rw [Operand.backend, Backend.join_memory] at hℓ
  refine (hℓ.numberZip .div ht (u := fun _ => τ / max √(v ⬝ᵥ v) τ) fun _ =>
    finite_div _ hmax.ne').bind fun d hd => ?_
  refine (hd.numberZip .sub (Number.is_int 1) (u := fun _ => 1 - τ / max √(v ⬝ᵥ v) τ) fun _ => by
    rw [Int.cast_one]
    rfl).bind fun f hf => ?_
  have hb : b.join (Operand.array f).backend = b := by
    rw [Operand.backend, hf.backend_eq, Backend.join_self]
  refine (hx.update .mul hf.column_fits hb hf.column_entry
    (u := (1 - τ / max √(v ⬝ᵥ v) τ) • v) fun j => ?_).mono fun z hz => ?_
  · show finite (v j * _) = _
    rw [Pi.smul_apply, smul_eq_mul, mul_comm]
  · exact ⟨_, hz, Functional.length_isProx hτ rfl⟩

/-- No bound is vacuous beside floating-point elements. -/
lemma vacuousBound_real (lower : Bool) (p : Precision) (o : Operand Exact) :
    vacuousBound lower (.real p) o = false := rfl

lemma clip_lower {o : Operand Exact} (hx : x.kind.isReal = true) :
    clip (some o) none x = extremum true (.array x) o := by
  obtain ⟨p, hp⟩ := exists_precision hx
  simp only [clip, hp, Option.filter, vacuousBound_real, Bool.not_false, if_true]
  exact bind_pure _

lemma clip_both {l u : Operand Exact} (hx : x.kind.isReal = true) :
    clip (some l) (some u) x
      = extremum true (.array x) l >>= fun raised => extremum false (.array raised) u := by
  obtain ⟨p, hp⟩ := exists_precision hx
  simp only [clip, hp, Option.filter, vacuousBound_real, Bool.not_false, if_true]

/-- The larger or the smaller of a point and an operand that leaves it finite. -/
lemma extremum_holds (larger : Bool) {o : Operand Exact} {u : Fin n → ℝ}
    (hx : x.Holds b lead n r v) (ho : o.Fits (lead ++ [n]))
    (hu : ∀ j : Fin n, (if larger then Scalar.maximum else Scalar.minimum) (finite (v j))
      (o.entry lead n r j) = finite (u j)) :
    Yields (extremum larger (.array x) o) (·.Holds (b.join o.backend) lead n r u) :=
  (extremum_stack larger hx.stack ho).mono fun y hy => hy.holds hx.lt fun j => by rw [hx.row, hu]

/-- The larger or the smaller of a point and a whole number. -/
lemma extremum_int_holds (larger : Bool) {k : Int} {u : Fin n → ℝ} (hx : x.Holds b lead n r v)
    (hu : ∀ j : Fin n, (if larger then Scalar.maximum else Scalar.minimum) (finite (v j))
      (finite k) = finite (u j)) :
    Yields (extremum larger (.array x) (.number (.int k))) (·.Holds b lead n r u) := by
  have h := extremum_holds larger (o := .number (.int k)) (u := u) hx trivial fun j => by
    show (if larger then Scalar.maximum else Scalar.minimum) (finite (v j)) (Scalar.ofInt k) = _
    rw [ofInt_eq, hu]
  rwa [Operand.backend, Backend.join_memory] at h

/-- Cutting off at zero is the projection on the numbers that are not negative. -/
lemma rectify_isProx (hτ : 0 < τ) (hx : x.Holds b lead n r v) :
    Yields (clip (some (.number (.int 0))) none x) fun y => ∃ p, y.Holds b lead n r p ∧
      (Functional.indicator fun _ => Set.Ici 0).IsProx τ v p := by
  rw [clip_lower hx.real]
  refine (extremum_int_holds true (u := fun j => max (v j) 0) hx fun j => ?_).mono
    fun y hy => ⟨_, hy, ?_⟩
  · rw [Int.cast_zero]
    exact maximum_finite (v j) 0
  · refine Functional.indicator_isProx hτ fun j =>
      ⟨Set.mem_Ici.mpr (le_max_right _ _), fun y hy => ?_⟩
    rcases le_total (v j) 0 with hv | hv
    · rw [max_eq_right hv, sub_zero, sub_zero]
      exact mul_nonpos_of_nonpos_of_nonneg hv hy
    · rw [max_eq_left hv, sub_self, zero_mul]

/-- Cutting off at both bounds is the projection on what lies between them. -/
lemma clamp_isProx {l u : Operand Exact} (hlfits : l.Fits (lead ++ [n]))
    (hufits : u.Fits (lead ++ [n]))
    (hdom : ∃ w : Fin n → ℝ, ∀ j : Fin n,
      Between (l.entry lead n r j) (u.entry lead n r j) (w j)) (hτ : 0 < τ)
    (hx : x.Holds b lead n r v) :
    Yields (clip (some l) (some u) x) fun y => ∃ p,
      y.Holds ((b.join l.backend).join u.backend) lead n r p ∧ (Functional.indicator fun j : Fin n =>
        {y | Between (l.entry lead n r j) (u.entry lead n r j) y}).IsProx τ v p := by
  obtain ⟨w, hw⟩ := hdom
  choose a p ha hp hmem hnear using fun j : Fin n => clamp_nearest (hw j) (v j)
  rw [clip_both hx.real]
  refine (extremum_holds true hx hlfits ha).bind fun c hc => ?_
  refine (extremum_holds false hc hufits hp).mono fun y hy => ⟨_, hy, ?_⟩
  exact Functional.indicator_isProx hτ fun j => ⟨hmem j, hnear j⟩

/-- **What is computed is the proximal point**, unless the functional is infinite everywhere. -/
theorem prox_lands {h : Penalty Exact} {t : Number Exact} (hh : h.Fits lead n)
    (hdom : (h.functional lead n r).domain.Nonempty) (ht : t.Is τ) (hτ : 0 < τ)
    (hx : x.Holds b lead n r v) :
    Yields (h.prox x (.number t)) fun y => ∃ p, y.Holds (h.landing b) lead n r p ∧
      (h.functional lead n r).IsProx τ v p := by
  cases h with
  | absolute => exact shrink_isProx ht hτ hx
  | euclidean => exact shorten_isProx ht hτ hx
  | orthant => exact rectify_isProx hτ hx
  | box lower upper =>
    obtain ⟨l, u, hl, hu, hlfits, hufits⟩ := hh
    have hintervals : interval lower upper lead n r = fun j : Fin n =>
        {y | Between (l.entry lead n r j) (u.entry lead n r j) y} :=
      funext fun j => interval_eq hl hu j
    obtain ⟨w, hw⟩ := hdom
    rw [functional, hintervals] at hw ⊢
    rw [landing, Value.operandBackend_eq hl, Value.operandBackend_eq hu]
    show Yields (do
      let l ← lower.toOperand
      let u ← upper.toOperand
      clip (some l) (some u) x) _
    rw [hl, hu]
    exact clamp_isProx hlfits hufits ⟨w, hw⟩ hτ hx
  | zero => exact Yields.ok ⟨v, hx, Functional.null_isProx⟩
  | unspecified => exact hh.elim

/-- Cutting off at one is the proximal point of the conjugate of the sum of magnitudes. -/
lemma cut_isConjugateProx {σ : ℝ} (hσ : 0 < σ) (hx : x.Holds b lead n r v) :
    Yields (clip (some (.number (.int (-1)))) (some (.number (.int 1))) x) fun y =>
      ∃ q, y.Holds b lead n r q ∧ (Functional.magnitudes n).IsConjugateProx σ v q := by
  rw [clip_both hx.real]
  refine (extremum_int_holds true (u := fun j => max (v j) (-1)) hx fun j => ?_).bind
    fun a ha => ?_
  · rw [Int.cast_neg, Int.cast_one]
    exact maximum_finite (v j) (-1)
  · refine (extremum_int_holds false (u := fun j => min (max (v j) (-1)) 1) ha fun j => ?_).mono
      fun y hy => ⟨_, hy, ?_⟩
    · rw [Int.cast_one]
      exact minimum_finite _ 1
    · exact Functional.magnitudes_isConjugateProx hσ fun _ => rfl

/-! ## Values -/

/-- Truth values along a point that hold exactly where its elements lie in given sets. -/
lemma indicator_reports {I : Fin n → Set ℝ} {T : ℕ → ℕ → Bool} {a : NdArray Exact} {k : Kind}
    (hk : k.isReal = true) (hr : r < lead.size) (ha : a.Truth lead n T)
    (hT : ∀ j : Fin n, T r j = true ↔ v j ∈ I j) :
    (indicator k a.allLast).Reports lead r ((Functional.indicator I).report v) := by
  have hall : (List.range n).all (T r) = true ↔ v ∈ (Functional.indicator I).domain := by
    rw [List.all_eq_true]
    constructor
    · intro h j
      exact (hT j).mp (h j (List.mem_range.mpr j.isLt))
    · intro h j hj
      exact (hT ⟨j, List.mem_range.mp hj⟩).mpr (h ⟨j, List.mem_range.mp hj⟩)
  have hreport := Truth.indicator hk hr ha.allLast
  by_cases hv : v ∈ (Functional.indicator I).domain
  · rw [if_pos (hall.mpr hv)] at hreport
    rwa [Functional.report_of_mem hv]
  · rw [if_neg fun h => hv (hall.mp h)] at hreport
    rwa [Functional.report_of_notMem hv]

/-- **What is computed is the value.** -/
theorem value_reports {h : Penalty Exact} (hh : h.Fits lead n) (hx : x.Holds b lead n r v) :
    Yields (h.value x) (·.Reports lead r ((h.functional lead n r).report v)) := by
  cases h with
  | absolute =>
    have hmag : x.magnitude.Holds b lead n r fun j => |v j| := hx.map fun j => abs_finite (v j)
    have hreport := Functional.report_of_mem (h := .magnitudes n) (Set.mem_univ v)
    refine Yields.ok ?_
    rw [functional, hreport]
    exact hmag.sum.reports
  | euclidean =>
    have hreport := Functional.report_of_mem (h := .length n) (Set.mem_univ v)
    refine Yields.ok ?_
    rw [functional, hreport]
    exact (lengths_holds hx).reports
  | orthant =>
    refine (compare_left .atMost hx.stack (o := .number (.int 0)) trivial).bind fun T hT => ?_
    refine Yields.pure (indicator_reports hx.real hx.lt hT fun j => ?_)
    show Scalar.atMost (Scalar.ofInt 0) (x.realAt (r * n + j)) = true ↔ 0 ≤ v j
    rw [hx.row, ofInt_eq, Int.cast_zero, atMost_finite, decide_eq_true_eq]
  | box lower upper =>
    obtain ⟨l, u, hl, hu, hlfits, hufits⟩ := hh
    show Yields (do
      let l ← lower.toOperand
      let above ← compare .atMost l (.array x)
      let u ← upper.toOperand
      let below ← compare .atMost (.array x) u
      let inside ← both above below
      pure (indicator x.kind inside.allLast)) _
    rw [hl, hu]
    refine (compare_left .atMost hx.stack hlfits).bind fun above habove => ?_
    refine (compare_right .atMost hx.stack hufits).bind fun below hbelow => ?_
    refine (habove.both hbelow).bind fun inside hinside => ?_
    refine Yields.pure (indicator_reports hx.real hx.lt hinside fun j => ?_)
    rw [interval_eq hl hu, Bool.and_eq_true, hx.row]
    rfl
  | zero =>
    have hreport := Functional.report_of_mem (h := .null n) (Set.mem_univ v)
    refine Yields.ok ?_
    rw [functional, hreport]
    exact (Smooth.zeroValues_holds hx).reports
  | unspecified => exact hh.elim

end Penalty

end PrimalDual
