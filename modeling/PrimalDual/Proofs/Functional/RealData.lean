import PrimalDual.Proofs.Functional.Clipping

/-!
# Problems whose data are real numbers

An operator, a smooth functional or a term whose data are real numbers takes finite numbers to finite
numbers.  The bounds of a box may be infinite as long as they leave room; only a term that is finite
nowhere sends points to infinity.

* `LinearOperator.HasRealData`, **`map_allFinite`**, `adjointMap_allFinite`.
* `Smooth.HasRealData`, **`gradient_allFinite`**.
* `Proximable.HasRealData`, **`prox_allFinite`**, **`conjugateProx_allFinite`**.
* `Proximable.elementary`, `Proximable.IsZeroAt`, **`isZeroAt_iff`** — indicators under factors.
-/

namespace PrimalDual

open Exact NdArray

variable {x y : NdArray Exact}

/-! ## Operators -/

namespace LinearOperator

variable {K : LinearOperator Exact}

/-- The constant or the entries of the matrix are real numbers. -/
def HasRealData (K : LinearOperator Exact) : Prop :=
  match K.rule with
  | .homothety c => c.IsFinite
  | .dense a => a.AllFinite
  | .sparse m => m.values.AllFinite
  | _ => True

lemma differences_allFinite (hx : x.AllFinite) (h : differences x = .ok y) : y.AllFinite := by
  rw [differences] at h
  split at h
  · cases h
  · cases h
  · cases h
    exact allFinite_of_whole rfl
  · cases h
    exact hx.mapTail fun row hrow i => (hrow _).sub (hrow _)

lemma differencesAdjoint_allFinite (hx : x.AllFinite) (h : differencesAdjoint x = .ok y) :
    y.AllFinite := by
  rw [differencesAdjoint] at h
  split at h
  · cases h
  · cases h
  · cases h
    exact hx
  · cases h
    exact allFinite_of_whole rfl
  · cases h
    refine hx.mapTail fun row hrow i => ?_
    split_ifs
    · exact (hrow _).neg
    · exact hrow _
    · exact (hrow _).sub (hrow _)

lemma product_allFinite {a : NdArray Exact} (ha : a.AllFinite) (hx : x.AllFinite)
    (h : product a x = .ok y) : y.AllFinite := by
  rw [product] at h
  split at h
  · cases h
  · split_ifs at h
    cases h
    cases a.kind.join x.kind with
    | whole w => exact allFinite_of_whole rfl
    | real p =>
      refine AllFinite.onBackend (hx.mapTail fun row hrow i => roundedSum_isFinite ?_) _
      intro e he
      obtain ⟨j, -, rfl⟩ := List.mem_map.mp he
      exact (hrow j).mul (ha _)

lemma sparse_product_allFinite {m : SparseMatrix Exact} (hm : m.values.AllFinite)
    (hx : x.AllFinite) (h : m.product x = .ok y) : y.AllFinite := by
  obtain ⟨points, hpoints, hy⟩ := SparseMatrix.product_cells h
  have hcolumns : points.transpose.AllFinite :=
    transpose_allFinite (AllFinite.of_cells hpoints hx)
  refine AllFinite.of_cells hy (transpose_allFinite ?_)
  cases m.values.kind.join x.kind with
  | whole w => exact allFinite_of_whole rfl
  | real p =>
    rw [SparseMatrix.dotIn]
    refine tabulate_allFinite fun k _ => roundedSum_isFinite fun e he => ?_
    obtain ⟨d, -, rfl⟩ := List.mem_map.mp he
    exact (hm _).mul (hcolumns _)

/-- **An operator** takes finite numbers to finite numbers. -/
theorem map_allFinite (hK : K.HasRealData) (hx : x.AllFinite) (h : K.map x = .ok y) :
    y.AllFinite := by
  rw [HasRealData] at hK
  rw [map] at h
  cases hrule : K.rule with
  | identity =>
    rw [hrule] at h
    cases h
    exact hx
  | homothety c =>
    rw [hrule] at h hK
    exact update_allFinite (o := .number (.real c)) (by decide) hx hK h
  | difference =>
    rw [hrule] at h
    exact differences_allFinite hx h
  | dense a =>
    rw [hrule] at h hK
    exact product_allFinite hK hx h
  | sparse m =>
    rw [hrule] at h hK
    exact sparse_product_allFinite hK hx h
  | unspecified =>
    rw [hrule] at h
    cases h

/-- Its adjoint does, too. -/
lemma adjointMap_allFinite (hK : K.HasRealData) (hx : x.AllFinite) (h : K.adjointMap x = .ok y) :
    y.AllFinite := by
  rw [HasRealData] at hK
  rw [adjointMap] at h
  cases hrule : K.rule with
  | identity =>
    rw [hrule] at h
    cases h
    exact hx
  | homothety c =>
    rw [hrule] at h hK
    exact update_allFinite (o := .number (.real c)) (by decide) hx hK h
  | difference =>
    rw [hrule] at h
    exact differencesAdjoint_allFinite hx h
  | dense a =>
    rw [hrule] at h hK
    exact product_allFinite (transpose_allFinite hK) hx h
  | sparse m =>
    rw [hrule] at h hK
    exact sparse_product_allFinite (m := m.transpose) hK hx h
  | unspecified =>
    rw [hrule] at h
    cases h

end LinearOperator

/-! ## Smooth functionals -/

/-- The value stands for real numbers, if it stands for an operand at all. -/
def Value.IsRealData (v : Value Exact) : Prop := ∀ o, v.toOperand = .ok o → o.AllFinite

namespace Smooth

variable {f : Smooth Exact}

/-- The factor, or the data and the operator, consist of real numbers. -/
def HasRealData (f : Smooth Exact) : Prop :=
  match f.rule with
  | .leastSquares K data => K.HasRealData ∧ data.IsRealData
  | .quadratic factor => factor.IsRealData
  | _ => True

lemma residual_allFinite {K : LinearOperator Exact} {data : Value Exact} (hK : K.HasRealData)
    (hdata : data.IsRealData) (hx : x.AllFinite) (h : residual K data x = .ok y) :
    y.AllFinite := by
  obtain ⟨r, hr, h⟩ := ok_of_bind h
  have hfinite := LinearOperator.map_allFinite hK hx hr
  split_ifs at h
  · cases h
    exact hfinite
  · obtain ⟨o, ho, h⟩ := ok_of_bind h
    exact arith_allFinite (o := .array r) (by decide) hfinite (hdata o ho) h

/-- **A gradient** at finite numbers is finite. -/
theorem gradient_allFinite (hf : f.HasRealData) (hx : x.AllFinite) (h : f.gradient x = .ok y) :
    y.AllFinite := by
  rw [HasRealData] at hf
  rw [gradient] at h
  cases hrule : f.rule with
  | zero =>
    rw [hrule] at h
    cases h
    exact zerosLike_allFinite x
  | leastSquares K data =>
    rw [hrule] at h hf
    obtain ⟨r, hr, h⟩ := ok_of_bind h
    exact LinearOperator.adjointMap_allFinite hf.1 (residual_allFinite hf.1 hf.2 hx hr) h
  | quadratic factor =>
    rw [hrule] at h hf
    obtain ⟨o, ho, h⟩ := ok_of_bind h
    exact arith_allFinite (u := .array x) (by decide) (hf o ho) hx h
  | unspecified =>
    rw [hrule] at h
    cases h

end Smooth

/-! ## Elementary functionals -/

namespace Penalty

variable {h : Penalty Exact} {t : Number Exact} {τ : ℝ}

lemma magnitude_allFinite (hx : x.AllFinite) : x.magnitude.AllFinite := by
  refine AllFinite.mapReal fun k _ => ?_
  obtain ⟨v, hv⟩ := hx k
  exact ⟨_, by rw [hv, abs_finite]⟩

lemma shrink_allFinite (ht : t.Is τ) (hx : x.AllFinite) (h : shrink x (.number t) = .ok y) :
    y.AllFinite := by
  obtain ⟨excess, hexcess, h⟩ := ok_of_bind h
  obtain ⟨z, hz, h⟩ := ok_of_bind h
  obtain ⟨s, hs, h⟩ := ok_of_bind h
  have hfinite : excess.AllFinite := arith_allFinite (o := .array x.magnitude) (u := .number t)
    (by decide) (magnitude_allFinite hx) ⟨τ, ht⟩ hexcess
  have hfinite' : z.AllFinite := arith_allFinite (o := .number (.int 0)) (u := .array excess)
    (by decide) ⟨0, zero_eq⟩ hfinite hz
  exact update_allFinite (o := .array s) (by decide) hfinite' (hx.signs hs) h

/-- The lengths of points are finite and not negative. -/
lemma lengths_reads (hreal : x.kind.isReal = true) (hx : x.AllFinite) :
    ∃ s, ∃ f : ℕ → ℝ, (lengths x).Reads s fun k => finite (f k) := by
  choose v hv using hx
  have hreads : x.Reads x.shape fun k => finite (v k) := ⟨rfl, fun k _ => hv k⟩
  have hsquares : x.square.Reads x.shape fun k => finite (v k * v k) := hreads.square hreal
  obtain ⟨-, hsums⟩ := sumTail_reads hsquares (square_kind hreal) 1
  refine ⟨_, _, (hsums.map Scalar.sqrt).congr fun k _ => sqrt_finite ?_⟩
  exact Finset.sum_nonneg fun j _ => mul_self_nonneg _

lemma shorten_allFinite (ht : t.Is τ) (hτ : 0 < τ) (hreal : x.kind.isReal = true)
    (hx : x.AllFinite) (h : shorten x (.number t) = .ok y) : y.AllFinite := by
  obtain ⟨longest, hlongest, h⟩ := ok_of_bind h
  obtain ⟨part, hpart, h⟩ := ok_of_bind h
  obtain ⟨factor, hfactor, h⟩ := ok_of_bind h
  obtain ⟨s, f, hlengths⟩ := lengths_reads hreal hx
  obtain ⟨hkind, F, G, hF, hG, hreads⟩ :=
    arith_meets (o := .array (lengths x)) (u := .number t) rfl trivial hlongest
  have hfinite : (lengths x).AllFinite := hlengths.allFinite fun k _ => isFinite _
  -- nothing that is divided by is shorter than the step
  have hpositive : ∀ u H, longest.Meets u H → ∀ k < u.size, ∃ z, H k = finite z ∧ z ≠ 0 := by
    intro u H hH k hk
    have hplace := Shape.project_lt hH.fits hk
    obtain ⟨z, hz⟩ := hF.isFinite hfinite hplace
    refine ⟨max z τ, ?_, (lt_max_of_lt_right hτ).ne'⟩
    rw [← hH.entry k hk, hreads.entry _ hplace, hz, ← hG _ hplace, ht]
    exact maxNum_finite z τ
  have hparts : part.AllFinite :=
    divide_allFinite (o := .number t) (u := .array longest) trivial hkind ⟨τ, ht⟩ hpositive hpart
  have hfactors : factor.AllFinite := arith_allFinite (o := .number (.int 1)) (u := .array part)
    (by decide) ⟨1, one_eq⟩ hparts hfactor
  exact update_allFinite (o := .array factor) (by decide) hx hfactors h

/-- Numbers cut off at one are finite. -/
lemma cut_allFinite (hreal : x.kind.isReal = true) (hx : x.AllFinite)
    (h : clip (some (.number (.int (-1)))) (some (.number (.int 1))) x = .ok y) : y.AllFinite := by
  have hroom : ∀ s L U, (Operand.number (.int (-1)) : Operand Exact).Meets s L →
      (Operand.number (.int 1) : Operand Exact).Meets s U →
        ∀ k < s.size, ∃ z, Between (L k) (U k) z := by
    intro s L U hL hU k hk
    refine ⟨0, ?_⟩
    rw [← hL k hk, ← hU k hk]
    constructor <;> simp [Number.value]
  obtain ⟨-, -, L, U, -, -, hbetween⟩ := clip_between hroom hreal hx h
  refine Reads.allFinite ⟨rfl, fun _ _ => rfl⟩ fun k hk => ?_
  obtain ⟨z, hz, -⟩ := hbetween k hk
  exact ⟨z, hz⟩

/-- **A proximal point** of finite numbers is finite, if bounds leave room. -/
theorem prox_allFinite (hroom : h.HasRoom) (ht : t.Is τ) (hτ : 0 < τ)
    (hreal : x.kind.isReal = true) (hx : x.AllFinite) (hy : h.prox x (.number t) = .ok y) :
    y.AllFinite := by
  have hclipped : h.Indicates → y.AllFinite := by
    intro hind
    obtain ⟨-, -, L, U, -, hbetween⟩ := prox_contained hind hroom hreal hx hy
    refine Reads.allFinite ⟨rfl, fun _ _ => rfl⟩ fun k hk => ?_
    obtain ⟨z, hz, -⟩ := hbetween k hk
    exact ⟨z, hz⟩
  cases h with
  | absolute => exact shrink_allFinite ht hx hy
  | euclidean => exact shorten_allFinite ht hτ hreal hx hy
  | orthant => exact hclipped trivial
  | box lower upper => exact hclipped trivial
  | zero =>
    cases hy
    exact hx
  | unspecified => cases hy

end Penalty

/-! ## Terms -/

namespace Proximable

/-- Bounds leave room, and all factors are positive real numbers. -/
def HasRealData : Proximable Exact → Prop
  | plain h _ _ => h.HasRoom
  | scaled c t _ => (∃ γ, c = finite γ ∧ 0 < γ) ∧ HasRealData t

/-- **A proximal point** of finite numbers is finite. -/
theorem prox_allFinite : ∀ {t : Proximable Exact} {s : Number Exact} {τ : ℝ}, t.HasRealData →
    s.Is τ → 0 < τ → x.kind.isReal = true → x.AllFinite → t.prox x (.number s) = .ok y →
    y.AllFinite
  | plain _ _ _, _, _, ht, hs, hτ, hreal, hx, hy => Penalty.prox_allFinite ht hs hτ hreal hx hy
  | scaled _ t _, s, τ, ht, hs, hτ, hreal, hx, hy => by
      obtain ⟨⟨γ, rfl, hγ⟩, ht⟩ := ht
      obtain ⟨k, hstep, hk⟩ := (arith_mul_yields (Number.is_real γ) hs)
      obtain ⟨v, hv, hy⟩ := ok_of_bind hy
      rw [hstep] at hv
      cases hv
      obtain ⟨k, rfl, hk⟩ := hk
      exact prox_allFinite ht hk (mul_pos hγ hτ) hreal hx hy

/-- Moreau's identity leaves no finite numbers. -/
lemma moreau_allFinite {t : Proximable Exact} {s : Number Exact} {σ : ℝ} (ht : t.HasRealData)
    (hs : s.Is σ) (hσ : 0 < σ) (hreal : x.kind.isReal = true) (hx : x.AllFinite)
    (hy : t.moreau x (.number s) = .ok y) : y.AllFinite := by
  obtain ⟨o, ho, hy⟩ := ok_of_bind hy
  cases ho
  obtain ⟨inner, hinner, hy⟩ := ok_of_bind hy
  obtain ⟨step, hstep, hy⟩ := ok_of_bind hy
  obtain ⟨v, hv, k, rfl, hk⟩ := inverse_step_yields hs hσ.ne'
  rw [hv] at hstep
  cases hstep
  obtain ⟨p, hp, hy⟩ := ok_of_bind hy
  obtain ⟨q, hq, hy⟩ : ∃ q, p.update .mul (.number s.neg) = .ok q ∧
    q.update .add (.array x) = .ok y := ok_of_bind hy
  have hinner' : inner.AllFinite := by
    refine divide_allFinite (o := .array x) (u := .number s) hreal trivial hx ?_ hinner
    exact fun u G hG i hi => ⟨σ, (hG i hi).symm.trans hs, hσ.ne'⟩
  have hp' : p.AllFinite :=
    prox_allFinite ht hk (inv_pos.mpr hσ) (arith_isReal hreal hinner) hinner' hp
  have hq' : q.AllFinite :=
    update_allFinite (o := .number s.neg) (by decide) hp' ⟨_, Number.neg_is hs⟩ hq
  exact update_allFinite (o := .array x) (by decide) hq' hx hy

/-- **A proximal point of the conjugate** is finite at finite numbers. -/
theorem conjugateProx_allFinite {t : Proximable Exact} {s : Number Exact} {σ : ℝ}
    (ht : t.HasRealData) (hs : s.Is σ) (hσ : 0 < σ) (hreal : x.kind.isReal = true)
    (hx : x.AllFinite) (hy : t.conjugateProx x (.number s) = .ok y) : y.AllFinite := by
  cases t with
  | plain h dim K =>
    cases h with
    | absolute => exact Penalty.cut_allFinite hreal hx hy
    | zero =>
      cases hy
      exact zerosLike_allFinite x
    | euclidean => exact moreau_allFinite ht hs hσ hreal hx hy
    | orthant => exact moreau_allFinite ht hs hσ hreal hx hy
    | box lower upper => exact moreau_allFinite ht hs hσ hreal hx hy
    | unspecified => exact moreau_allFinite ht hs hσ hreal hx hy
  | scaled c t K => exact moreau_allFinite ht hs hσ hreal hx hy

/-! ## Indicators under factors

A factor only changes the step, which a projection does not look at, and a multiple of zero is zero.
-/

/-- The elementary functional behind the factors. -/
def elementary : Proximable Exact → Penalty Exact
  | plain h _ _ => h
  | scaled _ t _ => t.elementary

/-- The term vanishes at all points of the array. -/
def IsZeroAt (t : Proximable Exact) (a : NdArray Exact) : Prop :=
  ∃ v, t.value a = .ok v ∧ ∀ i < v.size, v.realAt i = finite 0

lemma Indicates.elementary : ∀ {t : Proximable Exact}, t.Indicates → t.elementary.Indicates
  | plain _ _ _, ht => ht
  | scaled _ t _, ht => Indicates.elementary (t := t) ht

lemma HasRealData.hasRoom : ∀ {t : Proximable Exact}, t.HasRealData → t.elementary.HasRoom
  | plain _ _ _, ht => ht
  | scaled _ t _, ht => HasRealData.hasRoom (t := t) ht.2

lemma prox_elementary : ∀ {t : Proximable Exact} {tau : Value Exact}, t.prox x tau = .ok y →
    ∃ step, t.elementary.prox x step = .ok y
  | plain _ _ _, tau, h => ⟨tau, h⟩
  | scaled _ t _, _, h => by
      obtain ⟨step, -, h⟩ := ok_of_bind h
      exact prox_elementary (t := t) h

/-- A positive multiple vanishes where the term does. -/
lemma isZeroAt_scaled {c : Exact} {t : Proximable Exact} {K : Option (LinearOperator Exact)} {γ : ℝ}
    (hc : c = finite γ) (hγ : 0 < γ) : (scaled c t K).IsZeroAt x ↔ t.IsZeroAt x := by
  subst hc
  have hmultiple (v : NdArray Exact) :
      Yields (arith .mul (.number (.real (finite γ))) (.array v))
        (·.Reads v.shape fun k => finite γ * v.realAt k) :=
    arith_mul_real_reads (finite γ) ⟨rfl, fun _ _ => rfl⟩
  constructor
  · rintro ⟨w, hw, hzero⟩
    obtain ⟨v, hv, hw⟩ := ok_of_bind hw
    have hreads := (hmultiple v).of_eq_ok hw
    rw [NdArray.size, hreads.shape_eq] at hzero
    refine ⟨v, hv, fun i hi => ?_⟩
    have hproduct := (hreads.entry i hi).symm.trans (hzero i hi)
    cases hvi : v.realAt i with
    | finite z =>
      rw [hvi, finite_mul, finite.injEq] at hproduct
      rw [(mul_eq_zero.mp hproduct).resolve_left hγ.ne']
    | infinite b =>
      rw [hvi, finite_mul_infinite hγ] at hproduct
      cases hproduct
    | notANumber =>
      rw [hvi] at hproduct
      cases hproduct
  · rintro ⟨v, hv, hzero⟩
    obtain ⟨w, hw, hreads⟩ := hmultiple v
    refine ⟨w, ?_, fun i hi => ?_⟩
    · rw [value, hv]
      exact hw
    · rw [NdArray.size, hreads.shape_eq] at hi
      rw [hreads.entry i hi, hzero i hi, finite_mul, mul_zero]

lemma isZeroAt_iff : ∀ {t : Proximable Exact}, t.HasRealData →
    (t.IsZeroAt x ↔ t.elementary.IsZeroAt x)
  | plain _ _ _, _ => Iff.rfl
  | scaled _ t _, ⟨⟨_, hc, hγ⟩, ht⟩ => (isZeroAt_scaled hc hγ).trans (isZeroAt_iff (t := t) ht)

end Proximable

end PrimalDual
