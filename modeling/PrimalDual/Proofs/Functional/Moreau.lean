import PrimalDual.Proofs.Functional.Minimiser

/-!
# The two proximity operators of a term share out every point

By Moreau's identity a point is the sum of two parts: what the proximity operator returns and a
multiple of what the one of the conjugate returns.  Most terms get the second operator from the
first.  The sum of magnitudes and the null functional compute it by closed forms of their own, which
see neither the step nor the first operator, unless a factor is in the way.  Either way it is the
proximal point of the conjugate (`conjugateProx_lands`), and of those there is only one, so the
closed forms have to agree with the detour.

The sum needs a proximal point that consists of numbers.  A box whose bounds are both the same
infinity can be built and has none: what its two operators return adds up to nothing.

* `complement`, `recomposed` — the two sides of the identity, computed out of place.
* `prox_stack` — proximal points are computed also where no real number is allowed.
* **`moreau_identities`** — the identity read in both directions.
* `farBox_loses_points` — the box that is left out of the second one.
-/

namespace PrimalDual

open Exact NdArray

namespace Proximable

section

variable {α : Type} [Scalar α]

/-- What is left of `z` after `σ` times the proximal point of `z / σ` with step `1 / σ`. -/
def complement (t : Proximable α) (z : NdArray α) (sigma : Number α) : Except Fault (NdArray α) := do
  let inner ← arith .div (.array z) (.number sigma)
  let step ← Value.arith .div (.number (.int 1)) (.number sigma)
  let p ← t.prox inner step
  let part ← arith .mul (.number sigma) (.array p)
  arith .sub (.array z) (.array part)

/-- The proximal point of `x` with step `τ`, plus `τ` times the one of the conjugate at `x / τ` with
step `1 / τ`. -/
def recomposed (t : Proximable α) (x : NdArray α) (tau : Number α) : Except Fault (NdArray α) := do
  let p ← t.prox x (.number tau)
  let inner ← arith .div (.array x) (.number tau)
  let step ← Value.arith .div (.number (.int 1)) (.number tau)
  let q ← t.conjugateProx inner step
  let part ← arith .mul (.number tau) (.array q)
  arith .add (.array p) (.array part)

end

end Proximable

variable {lead : Shape} {b c : Backend} {n r : ℕ} {x : NdArray Exact} {v : Fin n → ℝ}
  {F G : ℕ → ℕ → Exact} {f : ℕ → ℕ → ℝ} {s : Number Exact} {σ τ : ℝ}

/-! ## Proximal points of every kind -/

/-- A proximal point is computed wherever the functional fits. -/
lemma Penalty.prox_stack {h : Penalty Exact} (hh : h.Fits lead n) (hs : s.Is τ) (hτ : 0 < τ)
    (hx : x.Holds b lead n r v) :
    Yields (h.prox x (.number s)) fun y => ∃ G, y.Stack (h.landing b) lead n G := by
  have hlands (hfits : h.Fits lead n) (hdom : (h.functional lead n r).domain.Nonempty) :
      Yields (h.prox x (.number s)) fun y => ∃ G, y.Stack (h.landing b) lead n G := by
    refine (prox_lands hfits hdom hs hτ hx).mono ?_
    rintro y ⟨_, hp, -⟩
    exact ⟨_, hp.stack⟩
  cases h with
  | box lower upper =>
    obtain ⟨l, u, hl, hu, hlfits, hufits⟩ := hh
    rw [landing, Value.operandBackend_eq hl, Value.operandBackend_eq hu]
    show Yields (do
      let l ← lower.toOperand
      let u ← upper.toOperand
      clip (some l) (some u) x) _
    rw [hl, hu]
    show Yields (clip (some l) (some u) x) _
    rw [clip_both hx.real]
    refine (extremum_stack true hx.stack hlfits).bind fun raised hraised => ?_
    exact (extremum_stack false hraised hufits).mono fun y hy => ⟨_, hy⟩
  | orthant => exact hlands trivial ⟨0, fun _ => le_refl (0 : ℝ)⟩
  | unspecified => exact hh.elim
  | absolute | euclidean | zero => exact hlands trivial ⟨0, trivial⟩

namespace Proximable

/-- A factor multiplies the step, so the proximal point is computed under any of them. -/
lemma prox_stack : ∀ {t : Proximable Exact} {s : Number Exact} {τ : ℝ}, t.Fits lead n → s.Is τ →
    0 < τ → x.Holds b lead n r v →
    Yields (t.prox x (.number s)) fun y => ∃ G, y.Stack (t.landing b) lead n G
  | plain _ _ _, _, _, ht, hs, hτ, hx => Penalty.prox_stack ht hs hτ hx
  | scaled _ _ _, _, _, ht, hs, hτ, hx => by
      obtain ⟨⟨γ, rfl, hγ⟩, ht⟩ := ht
      refine (arith_mul_yields (Number.is_real γ) hs).bind fun step hstep => ?_
      obtain ⟨k, rfl, hk⟩ := hstep
      exact prox_stack ht hk (mul_pos hγ hτ) hx

/-! ## The detour over the other operator -/

/-- The backend of a proximal point takes in the one of the point, from either side. -/
lemma join_landing (b : Backend) (t : Proximable Exact) : b.join (t.landing b) = t.landing b := by
  have hjoin := landing_join b t
  generalize t.landing b = c at hjoin ⊢
  cases b <;> cases c <;> simp_all [Backend.join]

end Proximable

/-- A stack of real numbers over a step. -/
lemma divide_stack (hx : x.Stack b lead n fun r j => finite (f r j)) (hs : s.Is σ) (hσ : σ ≠ 0) :
    Yields (arith .div (.array x) (.number s)) (·.Stack b lead n fun r j => finite (f r j / σ)) := by
  have hquotient := arith_stack .div hx (o := .number s) trivial
  rw [Operand.backend, Backend.join_memory] at hquotient
  refine hquotient.mono fun y hy => hy.congr fun r _ j _ => ?_
  show finite (f r j) / s.value = _
  rw [hs, finite_div _ hσ]

/-- What is done to a proximal point in place, to get the other one. -/
lemma updates_stack {p : NdArray Exact} (hp : p.Stack c lead n G) (hx : x.Stack b lead n F)
    (hs : s.Is σ) (hc : c.join b = c) :
    Yields (p.update .mul (.number s.neg) >>= fun q => q.update .add (.array x))
      (·.Stack c lead n fun r j => G r j * finite (-σ) + F r j) := by
  refine (update_stack .mul hp (o := .number s.neg) trivial (Backend.join_memory c)).bind
    fun q hq => ?_
  rw [← hx.backend_eq] at hc
  refine (update_stack .add hq (Operand.fits_of_stack hx) hc).mono fun y hy =>
    hy.congr fun r hr j hj => ?_
  rw [Operand.entry_of_stack hx hr hj]
  show G r j * s.neg.value + F r j = _
  rw [Number.neg_is hs]

/-- What is done to it out of place. -/
lemma rest_stack {p : NdArray Exact} (hp : p.Stack c lead n G) (hx : x.Stack b lead n F)
    (hs : s.Is σ) (hc : b.join c = c) :
    Yields (arith .mul (.number s) (.array p) >>= fun part => arith .sub (.array x) (.array part))
      (·.Stack c lead n fun r j => F r j - finite σ * G r j) := by
  refine (arith_number_stack .mul s hp).bind fun part hpart => ?_
  have hrest := arith_stack .sub hx (Operand.fits_of_stack hpart)
  rw [Operand.backend, hpart.backend_eq, hc] at hrest
  refine hrest.mono fun y hy => hy.congr fun r hr j hj => ?_
  rw [Operand.entry_of_stack hpart hr hj]
  show F r j - s.value * G r j = _
  rw [hs]

namespace Proximable

/-- The generic way to the conjugate and the identity say the same of a real number, whatever the
proximal point is. -/
lemma moreau_complement {t : Proximable Exact} (ht : t.Fits lead n) (hs : s.Is σ) (hσ : 0 < σ)
    (hx : x.Holds b lead n r v) :
    ∃ Q D F G, t.moreau x (.number s) = .ok Q ∧ t.complement x s = .ok D ∧
      Q.Stack (t.landing b) lead n F ∧ D.Stack (t.landing b) lead n G ∧
      ∀ j : Fin n, F r j = G r j := by
  obtain ⟨inner, hdivided, hinner⟩ := hx.divide hs hσ.ne'
  obtain ⟨w, hstep, k, rfl, hk⟩ := inverse_step_yields hs hσ.ne'
  obtain ⟨P, hprox, G, hP⟩ := prox_stack ht hk (inv_pos.mpr hσ) hinner
  obtain ⟨Q, hupdates, hQ⟩ := updates_stack hP hx.stack hs (landing_join b t)
  obtain ⟨D, hrest, hD⟩ := rest_stack hP hx.stack hs (join_landing b t)
  refine ⟨Q, D, _, _, ?_, ?_, hQ, hD, fun j => ?_⟩
  · show (arith .div (.array x) (.number s) >>= _) = _
    rw [hdivided]
    show (Value.arith .div (.number (.int 1)) (.number s) >>= _) = _
    rw [hstep]
    show (t.prox inner (.number k) >>= _) = _
    rw [hprox]
    exact hupdates
  · rw [complement, hdivided]
    show (Value.arith .div (.number (.int 1)) (.number s) >>= _) = _
    rw [hstep]
    show (t.prox inner (.number k) >>= _) = _
    rw [hprox]
    exact hrest
  · rw [hx.row]
    exact mul_neg_add_finite _ hσ _

/-- The one side of the identity is the proximal point of the conjugate. -/
lemma complement_lands {t : Proximable Exact} (ht : t.Fits lead n)
    (hdom : (t.functional lead n r).domain.Nonempty) (hs : s.Is σ) (hσ : 0 < σ)
    (hx : x.Holds b lead n r v) :
    Yields (t.complement x s) fun y => ∃ q, y.Holds (t.landing b) lead n r q ∧
      (t.functional lead n r).IsConjugateProx σ v q := by
  obtain ⟨Q, D, F, G, hQ, hD, hF, hG, hsame⟩ := moreau_complement ht hs hσ hx
  obtain ⟨q, hq, hconj⟩ := (moreau_lands ht hdom hs hσ hx).of_eq_ok hQ
  refine ⟨D, hD, q, hG.holds hx.lt fun j => ?_, hconj⟩
  rw [← hsame j, ← hF.entry r hx.lt j j.isLt, hq.row]

/-! ## The identity -/

/-- A closed form of the conjugate agrees with the detour. -/
lemma conjugateProx_complement {t : Proximable Exact} (ht : t.Fits lead n) (hs : s.Is σ)
    (hσ : 0 < σ) (hx : x.Holds b lead n r v) :
    ∃ Q D F G, t.conjugateProx x (.number s) = .ok Q ∧ t.complement x s = .ok D ∧
      Q.Stack (t.landing b) lead n F ∧ D.Stack (t.landing b) lead n G ∧
      ∀ j : Fin n, F r j = G r j := by
  by_cases hdom : (t.functional lead n r).domain.Nonempty
  · obtain ⟨Q, hQ, q, hq, hconj⟩ := conjugateProx_lands ht hdom hs hσ hx
    obtain ⟨D, hD, d, hd, hrest⟩ := complement_lands ht hdom hs hσ hx
    have hsame : q = d := hconj.unique hσ hrest
    exact ⟨Q, D, _, _, hQ, hD, hq.stack, hd.stack, fun j => by rw [hq.row, hd.row, hsame]⟩
  · -- only boxes can be infinite everywhere, and they take the detour
    have hgeneric : t.conjugateProx x (.number s) = t.moreau x (.number s) := by
      cases t with
      | plain h dim K =>
        cases h with
        | absolute | zero => exact absurd ⟨0, trivial⟩ hdom
        | euclidean | orthant | box _ _ | unspecified => rfl
      | scaled _ _ _ => rfl
    rw [hgeneric]
    exact moreau_complement ht hs hσ hx

/-- The two parts of a point, when there are proximal points. -/
lemma recomposed_holds {t : Proximable Exact} (ht : t.Fits lead n)
    (hdom : (t.functional lead n r).domain.Nonempty) (hs : s.Is τ) (hτ : 0 < τ)
    (hx : x.Holds b lead n r v) : Yields (t.recomposed x s) (·.Holds (t.landing b) lead n r v) := by
  refine (prox_lands ht hdom hs hτ hx).bind fun y hy => ?_
  obtain ⟨p, hp, hprox⟩ := hy
  refine (hx.divide hs hτ.ne').bind fun inner hinner =>
    (inverse_step_yields hs hτ.ne').bind fun w hw => ?_
  obtain ⟨k, rfl, hk⟩ := hw
  refine (conjugateProx_lands ht hdom hk (inv_pos.mpr hτ) hinner).bind fun z hz => ?_
  obtain ⟨q, hq, hconj⟩ := hz
  -- the same proximal point, seen from the conjugate
  have hagain : (t.functional lead n r).IsConjugateProx τ⁻¹ (τ⁻¹ • v) (τ⁻¹ • v - τ⁻¹ • p) := by
    refine Functional.IsProx.moreau (inv_ne_zero hτ.ne') ?_
    rwa [inv_inv, smul_smul, mul_inv_cancel₀ hτ.ne', one_smul]
  have hpart : q = τ⁻¹ • v - τ⁻¹ • p := hconj.unique (inv_pos.mpr hτ) hagain
  refine (hq.scale hs).bind fun part hscaled => ?_
  have hsum := hp.add hscaled
  have hwhole : p + τ • q = v := by
    rw [hpart, smul_sub, smul_smul, smul_smul, mul_inv_cancel₀ hτ.ne', one_smul, one_smul,
      add_sub_cancel]
  rwa [Backend.join_self, hwhole] at hsum

/--
**Moreau's identity.**  At every point of a stack, the proximity operator of the conjugate returns
what the other one leaves, with a closed form or without one, under any chain of positive factors,
and with or without an operator.  Where the functional is finite somewhere these are real numbers,
and the two parts of the point add up to it.  Only a box whose bounds are the same infinity is
infinite everywhere (`proper_of_box`, `Proper.nonempty`).
-/
theorem moreau_identities {t : Proximable Exact} (ht : t.Fits lead n) (hs : s.Is σ) (hσ : 0 < σ)
    (hx : x.Holds b lead n r v) :
    ∃ Q D, t.conjugateProxAt (.array x) (.number s) = .ok (.array Q) ∧ t.complement x s = .ok D ∧
      Q.shape = lead ++ [n] ∧ D.shape = lead ++ [n] ∧
      (∀ j : Fin n, Q.realAt (r * n + j) = D.realAt (r * n + j)) ∧
      ((t.functional lead n r).domain.Nonempty →
        (∃ q, Q.Holds (t.landing b) lead n r q) ∧
        ∃ S, t.recomposed x s = .ok S ∧ S.Holds (t.landing b) lead n r v) := by
  obtain ⟨Q, D, F, G, hQ, hD, hF, hG, hsame⟩ := conjugateProx_complement ht hs hσ hx
  refine ⟨Q, D, ?_, hD, hF.shape_eq, hG.shape_eq, fun j => ?_, fun hdom => ⟨?_, ?_⟩⟩
  · rw [conjugateProxAt, hQ]
    rfl
  · rw [hF.entry r hx.lt j j.isLt, hG.entry r hx.lt j j.isLt, hsame]
  · obtain ⟨q, hq, -⟩ := (conjugateProx_lands ht hdom hs hσ hx).of_eq_ok hQ
    exact ⟨q, hq⟩
  · exact recomposed_holds ht hdom hs hσ hx

/-- Three times the sum of magnitudes, with an operator attached. -/
noncomputable def tripleMagnitudes : Proximable Exact :=
  .scaled (Scalar.ofInt 3) (.plain .absolute none none) (some .anyIdentity)

/-- It is built by a scaling and an attachment, and the second of two numbers is put together again. -/
theorem tripleMagnitudes_identities :
    ((Proximable.plain .absolute none none).scale (.int 3) >>= (·.compose .anyIdentity))
      = .ok tripleMagnitudes ∧
    ∃ Q D, tripleMagnitudes.conjugateProxAt (.array noneAndFive) (.number (.real (finite (1 / 2))))
        = .ok (.array Q) ∧
      tripleMagnitudes.complement noneAndFive (.real (finite (1 / 2))) = .ok D ∧
      Q.realAt 1 = D.realAt 1 ∧
      ∃ S, tripleMagnitudes.recomposed noneAndFive (.real (finite (1 / 2))) = .ok S ∧
        S.Holds .memory [2] 1 1 fun _ => 5 := by
  have hscaled : (Proximable.plain .absolute none none : Proximable Exact).scale (.int 3)
      = .ok (.scaled (Scalar.ofInt 3) (.plain .absolute none none) none) := scale_int three_pos
  have hmagnitudes : (Proximable.plain .absolute none none : Proximable Exact).Fits [2] 1 := trivial
  have hkept := hmagnitudes.scale (Number.is_int 3) hscaled
  -- the operator plays no part in what fits
  have hfits : tripleMagnitudes.Fits [2] 1 := hkept
  obtain ⟨Q, D, hQ, hD, -, -, hsame, hnumbers⟩ :=
    moreau_identities hfits (Number.is_real (1 / 2)) one_half_pos noneAndFive_holds
  exact ⟨by rw [hscaled]; rfl, Q, D, hQ, hD, hsame 0, (hnumbers ⟨0, trivial⟩).2⟩

/-! ## The box that is left out -/

/-- The box whose bounds are both positive infinity. -/
noncomputable def farBox : Proximable Exact :=
  .plain (.box (.number (.real (infinite false))) (.number (.real (infinite false)))) none none

/-- Every element is moved to infinity. -/
lemma farBox_prox (hx : x.Stack b lead n fun r j => finite (f r j)) (tau : Value Exact) :
    Yields (farBox.prox x tau) (·.Stack b lead n fun _ _ => infinite false) := by
  obtain ⟨p, hp⟩ := exists_precision hx.real
  show Yields (clip (some (.number (.real (infinite false))))
    (some (.number (.real (infinite false)))) x) _
  simp only [clip, hp, Option.filter, Penalty.vacuousBound_real, Bool.not_false, if_true]
  refine (extremum_stack true hx (o := .number (.real (infinite false))) trivial).bind fun y hy => ?_
  rw [Operand.backend, Backend.join_memory] at hy
  have hcut := extremum_stack false hy (o := .number (.real (infinite false))) trivial
  rwa [Operand.backend, Backend.join_memory] at hcut

lemma farBox_conjugateProx (hx : x.Stack b lead n fun r j => finite (f r j)) (hs : s.Is σ)
    (hσ : 0 < σ) : Yields (farBox.conjugateProx x (.number s))
      (·.Stack b lead n fun _ _ => infinite true) := by
  refine (divide_stack hx hs hσ.ne').bind fun inner hinner =>
    (inverse_step_yields hs hσ.ne').bind fun w hw => (farBox_prox hinner _).bind fun p hp => ?_
  refine (updates_stack hp hx hs (Backend.join_self b)).mono fun y hy => hy.congr fun r _ j _ => ?_
  rw [infinite_mul_neg hσ]
  rfl

/-- The two operators of the box at infinity add up to nothing, at every point and for every step. -/
lemma farBox_recomposed (hx : x.Stack b lead n fun r j => finite (f r j)) (hs : s.Is τ)
    (hτ : 0 < τ) : Yields (farBox.recomposed x s) (·.Stack b lead n fun _ _ => notANumber) := by
  refine (farBox_prox hx _).bind fun p hp => (divide_stack hx hs hτ.ne').bind fun inner hinner =>
    (inverse_step_yields hs hτ.ne').bind fun w hw => ?_
  obtain ⟨k, rfl, hk⟩ := hw
  refine (farBox_conjugateProx hinner hk (inv_pos.mpr hτ)).bind fun q hq => ?_
  refine (arith_number_stack .mul s hq).bind fun part hpart => ?_
  have hsum := arith_stack .add hp (Operand.fits_of_stack hpart)
  rw [Operand.backend, hpart.backend_eq, Backend.join_self] at hsum
  refine hsum.mono fun y hy => hy.congr fun r hr j hj => ?_
  rw [Operand.entry_of_stack hpart hr hj]
  show infinite false + s.value * infinite true = _
  rw [hs, finite_mul_infinite hτ]
  rfl

/-- The number one as a point. -/
noncomputable def loneOne : NdArray Exact := .tabulate .memory [1] .double fun _ => finite 1

lemma loneOne_stack : loneOne.Stack .memory [] 1 fun _ _ => finite 1 := by
  show (tabulate .memory ([] ++ [1]) .double fun _ => finite 1).Stack .memory [] 1 _
  exact tabulate_stack .double _

/-- A box at infinity can be built, and the number one is not put together from its two parts. -/
theorem farBox_loses_points :
    Proximable.box (.number (.real (infinite false))) (.number (.real (infinite false))) .null
      = .ok farBox ∧
    loneOne.Holds .memory [] 1 0 (fun _ => 1) ∧
    ¬ ∃ S c, farBox.recomposed loneOne (.int 1) = .ok S ∧ S.Holds c [] 1 0 fun _ => 1 := by
  refine ⟨rfl, loneOne_stack.holds Nat.one_pos fun _ => rfl, ?_⟩
  rintro ⟨S, c, hS, hone⟩
  have hnothing : S.Stack .memory [] 1 fun _ _ => notANumber :=
    (farBox_recomposed loneOne_stack Number.is_one one_pos).of_eq_ok hS
  have hread := (hnothing.entry 0 Nat.one_pos 0 Nat.one_pos).symm.trans (hone.row 0)
  cases hread

end Proximable

end PrimalDual
