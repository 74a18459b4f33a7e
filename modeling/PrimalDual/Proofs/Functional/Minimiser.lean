import PrimalDual.Proofs.Functional.Proximable

/-!
# Proximity operators and the values they minimise

A term of an objective has two faces: the value that `apply` returns and the point that `prox`
returns.  They are computed by separate formulas, and this file shows that they belong together:
the proximal point is the only minimiser of the value plus the squared distance over twice the step.

Values are compared across arrays.  A term whose box bounds go along the trailing axis alone, or are
numbers, is the same functional at every point of every stack (`Proper.functional_eq`), so the
proximal point competes with all points of its dimension, wherever they are stacked.

* `Penalty.Proper`, `Proximable.Proper` — bounds in order that leave room, positive finite factors.
* `Proximable.proper_of_box`, `Proper.scale` — what the constructors accept is proper.
* **`prox_minimises`** — the proximal point is the unique minimiser, with a quadratic margin.
-/

namespace PrimalDual

open Exact NdArray

variable {lead : Shape} {b : Backend} {n r : ℕ} {x : NdArray Exact}

/-! ## Room between bounds -/

/-- Some real number lies between two bounds in order, unless both are the same infinity. -/
lemma Exact.exists_between {l u : Exact} (h : Scalar.atMost l u = true) (hl : l ≠ infinite false)
    (hu : u ≠ infinite true) : ∃ y, Between l u y := by
  cases l with
  | finite a =>
    have ha : Scalar.atMost (finite a) (finite a) = true := by simp
    exact ⟨a, ha, h⟩
  | infinite s =>
    cases s with
    | false => exact absurd rfl hl
    | true =>
      cases u with
      | finite c =>
        have hc : Scalar.atMost (finite c) (finite c) = true := by simp
        exact ⟨c, rfl, hc⟩
      | infinite s =>
        cases s with
        | false => exact ⟨0, rfl, rfl⟩
        | true => exact absurd rfl hu
      | notANumber => cases h
  | notANumber => cases h

/-! ## Proper terms -/

namespace Penalty

/--
The functional has values, and for a box there is a point: its bounds are numbers or go along the
trailing axis, they are in order, and neither excludes all real numbers.
-/
def Proper (n : ℕ) : Penalty Exact → Prop
  | box lower upper => ∃ l u, lower.toOperand = .ok l ∧ upper.toOperand = .ok u ∧
      l.Fits [n] ∧ u.Fits [n] ∧ ∀ j < n, Scalar.atMost (l.entry [] n 0 j) (u.entry [] n 0 j) = true ∧
        l.entry [] n 0 j ≠ infinite false ∧ u.entry [] n 0 j ≠ infinite true
  | unspecified => False
  | _ => True

variable {h : Penalty Exact}

lemma Proper.fits (hh : h.Proper n) (lead : Shape) : h.Fits lead n := by
  cases h with
  | box lower upper =>
    obtain ⟨l, u, hl, hu, hlfits, hufits, -⟩ := hh
    exact ⟨l, u, hl, hu, hlfits.stack lead, hufits.stack lead⟩
  | unspecified => exact hh
  | absolute | euclidean | orthant | zero => trivial

/-- It is one functional, at whatever point of whatever stack. -/
lemma Proper.functional_eq (hh : h.Proper n) (lead : Shape) (r : ℕ) :
    h.functional lead n r = h.functional [] n 0 := by
  cases h with
  | box lower upper =>
    obtain ⟨l, u, hl, hu, hlfits, hufits, -⟩ := hh
    rw [functional, functional]
    congr 1
    funext j
    rw [interval_eq hl hu, interval_eq hl hu, hlfits.entry_eq lead r j.isLt,
      hufits.entry_eq lead r j.isLt]
  | unspecified | absolute | euclidean | orthant | zero => rfl

/-- It is finite somewhere. -/
lemma Proper.nonempty (hh : h.Proper n) : (h.functional [] n 0).domain.Nonempty := by
  cases h with
  | box lower upper =>
    obtain ⟨l, u, hl, hu, -, -, hbounds⟩ := hh
    have hbetween (j : Fin n) : ∃ y, Between (l.entry [] n 0 j) (u.entry [] n 0 j) y := by
      obtain ⟨hle, hlower, hupper⟩ := hbounds j j.isLt
      exact exists_between hle hlower hupper
    choose y hy using hbetween
    refine ⟨y, fun j => ?_⟩
    rw [interval_eq hl hu]
    exact hy j
  | orthant => exact ⟨0, fun _ => le_refl (0 : ℝ)⟩
  | unspecified | absolute | euclidean | zero => exact ⟨0, trivial⟩

/-- The functional only says which points are allowed. -/
def Indicates : Penalty Exact → Prop
  | orthant | box _ _ => True
  | _ => False

lemma Indicates.height_eq (hh : h.Indicates) (v : Fin n → ℝ) :
    (h.functional lead n r).height v = 0 := by
  cases h with
  | orthant | box lower upper => rfl
  | absolute | euclidean | zero | unspecified => exact hh.elim

end Penalty

namespace Proximable

/-- The elementary functional is proper, and all factors are positive real numbers. -/
def Proper (n : ℕ) : Proximable Exact → Prop
  | plain h _ _ => h.Proper n
  | scaled c t _ => (∃ x, c = finite x ∧ 0 < x) ∧ Proper n t

/-- The elementary functional is an indicator. -/
def Indicates : Proximable Exact → Prop
  | plain h _ _ => h.Indicates
  | scaled _ t _ => Indicates t

lemma Proper.fits : ∀ {t : Proximable Exact}, t.Proper n → ∀ lead, t.Fits lead n
  | plain _ _ _, ht, lead => Penalty.Proper.fits ht lead
  | scaled _ t _, ht, lead => ⟨ht.1, Proper.fits (t := t) ht.2 lead⟩

lemma Proper.functional_eq : ∀ {t : Proximable Exact}, t.Proper n → ∀ lead r,
    t.functional lead n r = t.functional [] n 0
  | plain _ _ _, ht, lead, r => Penalty.Proper.functional_eq ht lead r
  | scaled _ t _, ht, lead, r => by
      rw [functional, functional, Proper.functional_eq (t := t) ht.2 lead r]

lemma Proper.nonempty : ∀ {t : Proximable Exact}, t.Proper n →
    (t.functional [] n 0).domain.Nonempty
  | plain _ _ _, ht => Penalty.Proper.nonempty ht
  | scaled _ t _, ht => Proper.nonempty (t := t) ht.2

/-- Scaling by a real number keeps a term proper. -/
lemma Proper.scale {t t' : Proximable Exact} {c : Number Exact} {γ : ℝ} (ht : t.Proper n)
    (hc : c.Is γ) (h : t.scale c = .ok t') : t'.Proper n := by
  obtain ⟨hγ, rfl⟩ := scale_ok hc h
  exact ⟨⟨γ, rfl, hγ⟩, ht⟩

/-- A box that can be built is proper, unless both bounds are the same infinity. -/
lemma proper_of_box {l u : Number Exact} {dim : Value Exact} {t : Proximable Exact}
    (h : Proximable.box (.number l) (.number u) dim = .ok t) (hl : l.value ≠ infinite false)
    (hu : u.value ≠ infinite true) : t.Proper n := by
  rw [Proximable.box] at h
  by_cases hle : Penalty.boundsInOrder (.number l) (.number u) = true
  · rw [if_pos hle, ofPenalty] at h
    obtain ⟨d, -, ht⟩ := ok_of_bind h
    cases ht
    have hvalues : Scalar.atMost l.value u.value = true := (Number.atMost_eq l u).symm.trans hle
    exact ⟨_, _, rfl, rfl, trivial, trivial, fun j _ => ⟨hvalues, hl, hu⟩⟩
  · rw [if_neg hle] at h
    cases h

/-- The values of an indicator are zero and infinity, under any factors. -/
lemma Indicates.height_eq : ∀ {t : Proximable Exact}, t.Indicates → ∀ v : Fin n → ℝ,
    (t.functional lead n r).height v = 0
  | plain _ _ _, ht, v => Penalty.Indicates.height_eq ht v
  | scaled c t _, ht, v => by
      show c.toReal * (t.functional lead n r).height v = 0
      rw [Indicates.height_eq (t := t) ht v, mul_zero]

lemma Indicates.report_eq {t : Proximable Exact} (ht : t.Indicates) (v : Fin n → ℝ) :
    (t.functional lead n r).report v = finite 0
      ∨ (t.functional lead n r).report v = infinite false := by
  by_cases hv : v ∈ (t.functional lead n r).domain
  · rw [Functional.report_of_mem hv, ht.height_eq v]
    exact Or.inl rfl
  · rw [Functional.report_of_notMem hv]
    exact Or.inr rfl

/-! ## Evaluation of arrays as values -/

lemma apply_array (x : NdArray Exact) : ∀ t : Proximable Exact,
    t.apply (.array x) = (t.value x).map .array
  | plain _ _ _ => rfl
  | scaled c t _ => by
      rw [apply, apply_array x t, value]
      cases t.value x with
      | error e => rfl
      | ok y =>
        show (arith .mul (.number (.real c)) (.array y) >>= fun a => pure (Value.array a)) = _
        cases hy : arith .mul (.number (.real c)) (.array y) with
        | error e => simp [bind, Except.bind, hy, Except.map]
        | ok z => simp [bind, Except.bind, hy, Except.map, pure, Except.pure]

lemma proxAt_array (x : NdArray Exact) : ∀ (t : Proximable Exact) (tau : Value Exact),
    t.proxAt (.array x) tau = (t.prox x tau).map .array
  | plain _ _ _, _ => rfl
  | scaled c t _, tau => by
      rw [proxAt, prox]
      cases Value.arith .mul (.number (.real c)) tau with
      | error e => rfl
      | ok step => exact proxAt_array x t step

/-- What `apply` returns at a point, on the scale of the one functional. -/
lemma apply_reports {t : Proximable Exact} (ht : t.Proper n) {v : Fin n → ℝ}
    (hx : x.Holds b lead n r v) : ∃ H, t.apply (.array x) = .ok (.array H) ∧
      H.Reports lead r ((t.functional [] n 0).report v) := by
  obtain ⟨H, hH, hreports⟩ := value_reports (ht.fits lead) hx
  rw [ht.functional_eq] at hreports
  exact ⟨H, by rw [apply_array, hH]; rfl, hreports⟩

/-- What `prox` returns at a point is the proximal point of the one functional. -/
lemma proxAt_isProx {t : Proximable Exact} {s : Number Exact} {τ : ℝ} {u : Fin n → ℝ}
    (ht : t.Proper n) (hs : s.Is τ) (hτ : 0 < τ) (hx : x.Holds b lead n r u) :
    ∃ P p, t.proxAt (.array x) (.number s) = .ok (.array P) ∧ P.Holds (t.landing b) lead n r p ∧
      (t.functional [] n 0).IsProx τ u p := by
  have hdom : (t.functional lead n r).domain.Nonempty := by
    rw [ht.functional_eq]
    exact ht.nonempty
  obtain ⟨P, hP, p, hp, hprox⟩ := prox_lands (ht.fits lead) hdom hs hτ hx
  rw [ht.functional_eq] at hprox
  exact ⟨P, p, by rw [proxAt_array, hP]; rfl, hp, hprox⟩

/-! ## Minimisation -/

/--
**The proximal point is the unique minimiser** of the value plus the squared distance over twice the
step.  At every row of a stack `prox` returns a point `p` with a finite value, and every point `v`,
in whatever stack, exceeds the minimum at least by its squared distance from `p` over twice the
step.
-/
theorem prox_minimises {t : Proximable Exact} {s : Number Exact} {τ : ℝ} {u : Fin n → ℝ}
    (ht : t.Proper n) (hs : s.Is τ) (hτ : 0 < τ) (hx : x.Holds b lead n r u) :
    ∃ P p H y, t.proxAt (.array x) (.number s) = .ok (.array P) ∧
      P.Holds (t.landing b) lead n r p ∧
      t.apply (.array P) = .ok (.array H) ∧ H.Reports lead r (finite y) ∧
      ∀ (V : NdArray Exact) (c : Backend) (lead' : Shape) (r' : ℕ) (v : Fin n → ℝ),
        V.Holds c lead' n r' v →
        ∃ W e, t.apply (.array V) = .ok (.array W) ∧ W.Reports lead' r' e ∧
          (t.Indicates → y = 0 ∧ (e = finite 0 ∨ e = infinite false)) ∧
          Scalar.atMost
            (finite (y + (p - u) ⬝ᵥ (p - u) / (2 * τ) + (v - p) ⬝ᵥ (v - p) / (2 * τ)))
            (e + finite ((v - u) ⬝ᵥ (v - u) / (2 * τ))) = true ∧
          (v ≠ p → Scalar.less (finite (y + (p - u) ⬝ᵥ (p - u) / (2 * τ)))
            (e + finite ((v - u) ⬝ᵥ (v - u) / (2 * τ))) = true) := by
  obtain ⟨P, p, hP, hp, hprox⟩ := proxAt_isProx ht hs hτ hx
  obtain ⟨H, hH, hreports⟩ := apply_reports ht hp
  rw [Functional.report_of_mem hprox.1] at hreports
  refine ⟨P, p, H, _, hP, hp, hH, hreports, ?_⟩
  intro V c lead' r' v hV
  obtain ⟨W, hW, hvalue⟩ := apply_reports ht hV
  refine ⟨W, _, hW, hvalue, fun hind => ⟨hind.height_eq p, hind.report_eq v⟩, ?_⟩
  by_cases hv : v ∈ (t.functional [] n 0).domain
  · have hmin := hprox.minimises hτ hv
    rw [Functional.report_of_mem hv, finite_add, atMost_finite, less_finite, decide_eq_true_eq,
      decide_eq_true_eq]
    refine ⟨hmin, fun hne => ?_⟩
    have hpos : 0 < (v - p) ⬝ᵥ (v - p) := by
      by_contra hle
      exact hne (Functional.eq_of_dotProduct_self_nonpos (not_lt.mp hle))
    have hmargin : 0 < (v - p) ⬝ᵥ (v - p) / (2 * τ) := by positivity
    linarith
  · -- outside the domain the value is infinite
    rw [Functional.report_of_notMem hv]
    exact ⟨rfl, fun _ => rfl⟩

/-- The numbers up to one, under two factors. -/
noncomputable def halfLine : Proximable Exact :=
  .scaled (Scalar.ofInt 3)
    (.scaled (Scalar.ofInt 2) (.plain (.box (.number (.real (infinite true))) (.number (.int 1))) none none)
      none) none

/-- It is built from a box by two scalings. -/
lemma halfLine_proper : halfLine.Proper 1 := by
  have hbox : Proximable.box (.number (.real (infinite true))) (.number (.int 1)) .null
      = .ok (.plain (.box (.number (.real (infinite true))) (.number (.int 1))) none none) := rfl
  have hone : (Number.int 1 : Number Exact).value ≠ infinite true := by
    rw [Number.is_one]
    exact infinite_ne_finite.symm
  have hproper := proper_of_box (n := 1) hbox (fun h => by cases h) hone
  exact (hproper.scale (Number.is_int 2) (scale_int two_pos)).scale (Number.is_int 3)
    (scale_int three_pos)

/-- Two stacked numbers, none and five. -/
noncomputable def noneAndFive : NdArray Exact :=
  .tabulate .memory [2, 1] .double fun k => finite (5 * k)

lemma noneAndFive_holds : noneAndFive.Holds .memory [2] 1 1 fun _ => 5 := by
  have hstack : (tabulate .memory ([2] ++ [1]) .double fun k => finite (5 * k)).Stack .memory [2] 1
      fun r j => finite (5 * (r * 1 + j : ℕ)) := tabulate_stack .double _
  refine hstack.holds (by decide) fun j => ?_
  simp

/-- The second of the two numbers is projected on the half-line. -/
theorem halfLine_prox_minimises :
    ∃ P p H y, halfLine.proxAt (.array noneAndFive) (.number (.real (finite (1 / 2))))
        = .ok (.array P) ∧
      P.Holds (halfLine.landing .memory) [2] 1 1 p ∧
      halfLine.apply (.array P) = .ok (.array H) ∧ H.Reports [2] 1 (finite y) ∧
      ∀ (V : NdArray Exact) (c : Backend) (lead' : Shape) (r' : ℕ) (v : Fin 1 → ℝ),
        V.Holds c lead' 1 r' v →
        ∃ W e, halfLine.apply (.array V) = .ok (.array W) ∧ W.Reports lead' r' e ∧
          (e = finite 0 ∨ e = infinite false) ∧
          (v ≠ p → Scalar.less (finite (y + (p - fun _ => 5) ⬝ᵥ (p - fun _ => 5) / (2 * (1 / 2))))
            (e + finite ((v - fun _ => 5) ⬝ᵥ (v - fun _ => 5) / (2 * (1 / 2)))) = true) := by
  obtain ⟨P, p, H, y, hP, hp, hH, hy, hmin⟩ := prox_minimises halfLine_proper
    (Number.is_real (1 / 2)) one_half_pos noneAndFive_holds
  refine ⟨P, p, H, y, hP, hp, hH, hy, fun V c lead' r' v hV => ?_⟩
  obtain ⟨W, e, hW, he, hind, -, hless⟩ := hmin V c lead' r' v hV
  exact ⟨W, e, hW, he, (hind trivial).2, hless⟩

end Proximable

end PrimalDual
