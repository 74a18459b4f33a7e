import PrimalDual.Proofs.Functional.Penalty

/-!
# Terms of an objective

A term is an elementary functional under any number of positive factors.  Each factor multiplies the
value and the step of the proximal point, so the properties of the elementary functional carry over
by induction on the factors.  The proximal point of the conjugate goes by Moreau's identity, or by a
closed form for the two functionals that have one.

* `Proximable.functional` — the functional at a point of a stack.
* `Proximable.Fits`, `Proximable.Stays` — what makes sense there, and lives there.
* `scale_of_positive`, `scale_ok`, `Fits.scale` — what a scaling makes.
* **`prox_lands`**, **`prox_isProx`** — the proximal points that are computed.
* **`conjugateProx_lands`**, **`conjugateProx_isConjugateProx`** — those of the conjugate.
* **`value_reports`** — the value that is computed.
-/

namespace PrimalDual.Proximable

open Exact NdArray

variable {lead : Shape} {b : Backend} {n r : ℕ} {v : Fin n → ℝ} {x : NdArray Exact}

/-- The functional at point `r` of a stack, without the operator that the term carries. -/
noncomputable def functional (lead : Shape) (n r : ℕ) : Proximable Exact → Functional n
  | plain h _ _ => h.functional lead n r
  | scaled c t _ => (functional lead n r t).scale c.toReal

/-- The elementary functional fits the points, and all factors are positive. -/
def Fits (lead : Shape) (n : ℕ) : Proximable Exact → Prop
  | plain h _ _ => h.Fits lead n
  | scaled c t _ => (∃ x, c = finite x ∧ 0 < x) ∧ Fits lead n t

/-- The arrays of the elementary functional live where the points live. -/
def Stays (b : Backend) : Proximable Exact → Prop
  | plain h _ _ => h.Stays b
  | scaled _ t _ => Stays b t

/-- Where a proximal point lives. -/
noncomputable def landing (b : Backend) : Proximable Exact → Backend
  | plain h _ _ => h.landing b
  | scaled _ t _ => landing b t

lemma Stays.landing_eq : ∀ {t : Proximable Exact}, t.Stays b → t.landing b = b
  | plain _ _ _, hb => Penalty.Stays.landing_eq hb
  | scaled _ t _, hb => Stays.landing_eq (t := t) hb

section

variable {t t' : Proximable Exact} {c : Number Exact} {γ : ℝ}

lemma scale_of_positive (hc : c.Is γ) (hγ : 0 < γ) :
    t.scale c = .ok (.scaled (finite γ) t t.operator) := by
  rw [scale, (Number.isPositive_iff hc).mpr hγ, Number.toReal_eq, hc]
  rfl

lemma scale_int {k : ℤ} (hk : 0 < k) :
    t.scale (.int k) = .ok (.scaled (Scalar.ofInt k) t t.operator) := by
  rw [ofInt_eq]
  exact scale_of_positive (Number.is_int k) (Int.cast_pos.mpr hk)

/-- A real number that scales a term is positive. -/
lemma scale_ok (hc : c.Is γ) (h : t.scale c = .ok t') :
    0 < γ ∧ t' = .scaled (finite γ) t t.operator := by
  by_cases hγ : 0 < γ
  · rw [scale_of_positive hc hγ] at h
    exact ⟨hγ, (Except.ok.inj h).symm⟩
  · have hrefused : c.isPositive = false := by
      rw [← Bool.not_eq_true, Number.isPositive_iff hc]
      exact hγ
    rw [scale, hrefused] at h
    cases h

/-- Scaling by a real number keeps what fits. -/
lemma Fits.scale (ht : t.Fits lead n) (hc : c.Is γ) (h : t.scale c = .ok t') :
    t'.Fits lead n := by
  obtain ⟨hγ, rfl⟩ := scale_ok hc h
  exact ⟨⟨γ, rfl, hγ⟩, ht⟩

end

/-- The product of a factor and a step. -/
lemma arith_mul_yields {c t : Number Exact} {γ τ : ℝ} (hc : c.Is γ) (ht : t.Is τ) :
    Yields (Value.arith .mul (.number c) (.number t)) fun v =>
      ∃ k, v = .number k ∧ k.Is (γ * τ) := by
  obtain ⟨k, hk, hk'⟩ := Number.mul_yields hc ht
  refine ⟨.number k, ?_, k, rfl, hk'⟩
  rw [Value.arith, hk]
  rfl

/-- **What is computed is the proximal point**, unless the functional is infinite everywhere. -/
theorem prox_lands : ∀ {t : Proximable Exact} {s : Number Exact} {τ : ℝ}, t.Fits lead n →
    (t.functional lead n r).domain.Nonempty → s.Is τ → 0 < τ → x.Holds b lead n r v →
    Yields (t.prox x (.number s)) fun y => ∃ p, y.Holds (t.landing b) lead n r p ∧
      (t.functional lead n r).IsProx τ v p
  | plain _ _ _, _, _, ht, hdom, hs, hτ, hx => Penalty.prox_lands ht hdom hs hτ hx
  | scaled _ t _, s, τ, ht, hdom, hs, hτ, hx => by
      obtain ⟨⟨γ, rfl, hγ⟩, ht⟩ := ht
      refine (arith_mul_yields (Number.is_real γ) hs).bind fun step hstep => ?_
      obtain ⟨k, rfl, hk⟩ := hstep
      refine (prox_lands ht hdom hk (mul_pos hγ hτ) hx).mono fun y hy => ?_
      obtain ⟨p, hp, hprox⟩ := hy
      exact ⟨p, hp, hprox.scale hγ⟩

/-- **What is computed is the proximal point**, and lives where the points live if the bounds do. -/
theorem prox_isProx {t : Proximable Exact} {s : Number Exact} {τ : ℝ} (ht : t.Fits lead n)
    (hb : t.Stays b) (hdom : (t.functional lead n r).domain.Nonempty) (hs : s.Is τ) (hτ : 0 < τ)
    (hx : x.Holds b lead n r v) :
    Yields (t.prox x (.number s)) fun y => ∃ p, y.Holds b lead n r p ∧
      (t.functional lead n r).IsProx τ v p := by
  have h := prox_lands ht hdom hs hτ hx
  rwa [hb.landing_eq] at h

/-- **What is computed is the value.** -/
theorem value_reports : ∀ {t : Proximable Exact}, t.Fits lead n → x.Holds b lead n r v →
    Yields (t.value x) (·.Reports lead r ((t.functional lead n r).report v))
  | plain _ _ _, ht, hx => Penalty.value_reports ht hx
  | scaled _ t _, ht, hx => by
      obtain ⟨⟨γ, rfl, hγ⟩, ht⟩ := ht
      refine (value_reports ht hx).bind fun y hy => ?_
      rw [functional, toReal_finite, Functional.report_scale hγ]
      exact hy.scale (.real (finite γ))

/-! ## Conjugates -/

/-- Where a proximal point lives takes in the point itself. -/
lemma landing_join (b : Backend) : ∀ t : Proximable Exact, (t.landing b).join b = t.landing b
  | plain h _ _ => Penalty.landing_join h b
  | scaled _ t _ => landing_join b t

/-- One over a step. -/
lemma inverse_step_yields {s : Number Exact} {σ : ℝ} (hs : s.Is σ) (hσ : σ ≠ 0) :
    Yields (Value.arith .div (.number (.int 1)) (.number s)) fun w =>
      ∃ k, w = .number k ∧ k.Is σ⁻¹ := by
  obtain ⟨k, hk, hk'⟩ := Number.div_yields (Number.is_int 1) hs hσ
  refine ⟨.number k, ?_, k, rfl, ?_⟩
  · rw [Value.arith, hk]
    rfl
  · rwa [Int.cast_one, one_div] at hk'

/-- Moreau's identity is what is computed. -/
lemma moreau_lands {t : Proximable Exact} {s : Number Exact} {σ : ℝ} (ht : t.Fits lead n)
    (hdom : (t.functional lead n r).domain.Nonempty) (hs : s.Is σ) (hσ : 0 < σ)
    (hx : x.Holds b lead n r v) :
    Yields (t.moreau x (.number s)) fun y => ∃ q, y.Holds (t.landing b) lead n r q ∧
      (t.functional lead n r).IsConjugateProx σ v q := by
  refine (hx.divide hs hσ.ne').bind fun inner hinner =>
    (inverse_step_yields hs hσ.ne').bind fun w hw => ?_
  obtain ⟨k, rfl, hk⟩ := hw
  refine (prox_lands ht hdom hk (inv_pos.mpr hσ) hinner).bind fun y hy => ?_
  obtain ⟨p, hp, hprox⟩ := hy
  refine (hp.updateScale (Number.neg_is hs)).bind fun z hz => ?_
  refine (hz.updateAdd hx (landing_join b t)).mono fun q hq => ⟨_, hq, ?_⟩
  rw [neg_smul, neg_add_eq_sub]
  exact hprox.moreau hσ.ne'

/-- **What is computed is the proximal point of the conjugate**, unless the functional is infinite
everywhere. -/
theorem conjugateProx_lands {t : Proximable Exact} {s : Number Exact} {σ : ℝ} (ht : t.Fits lead n)
    (hdom : (t.functional lead n r).domain.Nonempty) (hs : s.Is σ) (hσ : 0 < σ)
    (hx : x.Holds b lead n r v) :
    Yields (t.conjugateProx x (.number s)) fun y => ∃ q, y.Holds (t.landing b) lead n r q ∧
      (t.functional lead n r).IsConjugateProx σ v q := by
  cases t with
  | plain h dim K =>
    cases h with
    | absolute => exact Penalty.cut_isConjugateProx hσ hx
    | zero => exact Yields.ok ⟨0, hx.zerosLike, Functional.null_isConjugateProx⟩
    | euclidean => exact moreau_lands ht hdom hs hσ hx
    | orthant => exact moreau_lands ht hdom hs hσ hx
    | box lower upper => exact moreau_lands ht hdom hs hσ hx
    | unspecified => exact ht.elim
  | scaled c t K => exact moreau_lands ht hdom hs hσ hx

/-- **What is computed is the proximal point of the conjugate**, and lives where the points live if
the bounds do. -/
theorem conjugateProx_isConjugateProx {t : Proximable Exact} {s : Number Exact} {σ : ℝ}
    (ht : t.Fits lead n) (hb : t.Stays b) (hdom : (t.functional lead n r).domain.Nonempty)
    (hs : s.Is σ) (hσ : 0 < σ) (hx : x.Holds b lead n r v) :
    Yields (t.conjugateProx x (.number s)) fun y => ∃ q, y.Holds b lead n r q ∧
      (t.functional lead n r).IsConjugateProx σ v q := by
  have h := conjugateProx_lands ht hdom hs hσ hx
  rwa [hb.landing_eq] at h

end PrimalDual.Proximable
