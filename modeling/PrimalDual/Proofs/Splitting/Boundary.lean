import PrimalDual.Proofs.Splitting.Admission
import PrimalDual.Proofs.Splitting.Descent

/-!
# A dual step of length zero

A primal step that is pinned at `2/β` leaves a dual step of length zero, which the setup admits.  All
but two terms handle their dual side through the step `1/σ`, and then the first iteration divides by
zero.  The two others have a closed form that does not look at the step; and with any other steps that
the setup has found, every iteration of every run goes through, whatever the terms are.

* `Proximable.Divides` — the terms that divide by the dual step.
* `conjugateProx_yields`, `conjugateProx_divides` — what they do with a step.
* `Momentum.Weighs` — there is a weight, now and later.
* `IterationState.Usable` — sizes fit, and results live where they are stored.
* `Usable.iterate`, `Usable.iterateMany` — iterations that go through; `Usable.divides` — one that
  does not.
* **`started_runs`** — both, for the steps that a setup has found.
* **`boundary_divides_by_zero`** — an admitted setup whose first iteration divides by zero.
-/

namespace PrimalDual

open Exact NdArray Matrix

/-! ## Terms on the dual side -/

namespace Proximable

/-- The term handles its dual side through the step `1/σ`: it has no closed form for it. -/
def Divides {α : Type} : Proximable α → Prop
  | plain .absolute _ _ | plain .zero _ _ => False
  | _ => True

variable {lead : Shape} {b : Backend} {n r : ℕ} {v : Fin n → ℝ} {x : NdArray Exact}
  {t : Proximable Exact} {s : Number Exact} {σ : ℝ}

/-- With a positive step, or without a look at it, the dual side is finite where the points are. -/
lemma conjugateProx_yields (ht : t.Fits lead n) (hb : t.Stays b)
    (hdom : (t.functional lead n r).domain.Nonempty) (hs : s.Is σ) (hσ : 0 < σ ∨ ¬ t.Divides)
    (hx : x.Holds b lead n r v) :
    Yields (t.conjugateProx x (.number s)) fun y => ∃ q, y.Holds b lead n r q := by
  rcases hσ with hσ | hclosed
  · refine (conjugateProx_isConjugateProx ht hb hdom hs hσ hx).mono ?_
    rintro y ⟨q, hq, -⟩
    exact ⟨q, hq⟩
  · cases t with
    | plain h dim K =>
      cases h with
      | absolute =>
        -- the closed form is the same for every step
        refine (Penalty.cut_isConjugateProx one_pos hx).mono ?_
        rintro y ⟨q, hq, -⟩
        exact ⟨q, hq⟩
      | zero => exact Yields.ok ⟨0, hx.zerosLike⟩
      | _ => exact absurd trivial hclosed
    | scaled c t K => exact absurd trivial hclosed

/-- A term without a closed form divides by the step. -/
lemma conjugateProx_divides (ht : t.Divides) (hs : s.Is 0) (hx : x.Holds b lead n r v) :
    t.conjugateProx x (.number s) = .error .divisionByZero := by
  have hmoreau : t.moreau x (.number s) = .error .divisionByZero := by
    obtain ⟨inner, hinner, -⟩ := arith_stack .div hx.stack (o := .number s) trivial
    have hstep : Value.arith .div (.number (.int 1)) (.number s)
        = .error (α := Value Exact) .divisionByZero := by
      rw [Value.arith, Number.div, (Number.isZero_iff hs).mpr rfl]
      rfl
    rw [moreau, hstep]
    show (arith .div (.array x) (.number s) >>= fun _ => Except.error Fault.divisionByZero) = _
    rw [hinner]
    rfl
  cases t with
  | plain h dim K =>
    cases h with
    | absolute | zero => exact ht.elim
    | _ => exact hmoreau
  | scaled c t K => exact hmoreau

end Proximable

/-! ## Weights -/

namespace Momentum

/-- There is a weight: a constant one that is a real number, or the next one of Nesterov's sequence. -/
def Weighs : Momentum Exact → Prop
  | constant (some w) => ∃ ω, w.Is ω
  | nesterov t => ∃ u, t = finite u
  | _ => False

lemma Weighs.weight {M : Momentum Exact} (h : M.Weighs) : ∃ w ω, M.weight = .ok w ∧ w.Is ω := by
  cases M with
  | constant w =>
    cases w with
    | none => exact h.elim
    | some w =>
      obtain ⟨ω, hω⟩ := h
      exact ⟨w, ω, rfl, hω⟩
  | nesterov t =>
    obtain ⟨u, rfl⟩ := h
    have hpos : 0 < (1 + √(1 + 4 * (u * u))) / 2 := by positivity
    refine ⟨_, (u - 1) / ((1 + √(1 + 4 * (u * u))) / 2), rfl, ?_⟩
    rw [one_eq, finite_sub, successor_finite, finite_div _ hpos.ne']
    exact Number.is_real _
  | unspecified => exact h.elim

lemma Weighs.advance {M : Momentum Exact} (h : M.Weighs) : M.advance.Weighs := by
  cases M with
  | constant w => exact h
  | nesterov t =>
    obtain ⟨u, rfl⟩ := h
    exact ⟨_, successor_finite u⟩
  | unspecified => exact h.elim

/-- The accelerated method has weights, and so has the plain one that is given a constant. -/
lemma weighs_ofMethod {method : Method} {lambda : Value Exact} {M : Momentum Exact}
    (h : ofMethod method lambda = .ok M) (hplain : method = .plain → ∃ ω, lambda.Is ω) :
    M.Weighs := by
  cases method with
  | accelerated =>
    cases h
    exact ⟨1, one_eq⟩
  | plain =>
    obtain ⟨ω, w, rfl, hω⟩ := hplain rfl
    rw [ofMethod, ofWeight] at h
    split at h
    · cases h
      exact ⟨ω, hω⟩
    · cases h

end Momentum

/-! ## Iterations -/

/-- The gradient at a point of real numbers is one of real numbers, and lives where it can be used. -/
def Smooth.Slopes (f : Smooth Exact) (b : Backend) (lead : Shape) (n r : ℕ) : Prop :=
  ∀ (x : NdArray Exact) (v : Fin n → ℝ), x.Holds b lead n r v →
    Yields (f.gradient x) fun g => ∃ c u, b.join c = b ∧ g.Holds c lead n r u

lemma Smooth.Fits.slopes {f : Smooth Exact} {b : Backend} {lead : Shape} {n r : ℕ}
    (hf : f.Fits lead n r) (hb : b.join (f.landing b) = b) : f.Slopes b lead n r :=
  fun _ _ hx => (gradient_holds hf hx).mono fun _ hg => ⟨_, _, hb, hg⟩

namespace IterationState

variable {b c : Backend} {lead : Shape} {m n r : ℕ} {s : IterationState Exact} {β ν τ σ : ℝ}
  {x : Fin n → ℝ} {z : Fin m → ℝ}

/--
The state can be worked with for points of size `n` on `b` and dual points of size `m` on `c`, stacked
along the axes `lead`: the sizes fit, both terms are finite somewhere, the smooth functional has a
gradient, and no result lives elsewhere than where it is stored.
-/
structure Usable (s : IterationState Exact) (b c : Backend) (lead : Shape) (m n r : ℕ) : Prop where
  operator : s.operator.rule.Acts m n
  slopes : s.smooth.Slopes b lead n r
  primal : s.primalTerm.Fits lead n
  dual : s.dualTerm.Fits lead m
  primal_stays : s.primalTerm.Stays b
  dual_stays : s.dualTerm.Stays c
  primal_domain : (s.primalTerm.functional lead n r).domain.Nonempty
  dual_domain : (s.dualTerm.functional lead m r).domain.Nonempty
  back_stays : b.join (s.operator.rule.landing c) = b
  forth_stays : c.join (s.operator.rule.landing b) = c

/-- The primal proximal point, and the point that the dual one is taken at. -/
lemma Usable.points (h : s.Usable b c lead m n r) (hτ : s.tau.Is τ) (hτ0 : 0 < τ)
    (hσ : s.sigma.Is σ) (hloc : s.Located b c lead r x z) :
    ∃ u P V p v, s.primalPoint = .ok u ∧ s.primalTerm.prox u s.tau = .ok P ∧
      P.Holds b lead n r p ∧ s.dualPoint P = .ok V ∧ V.Holds c lead m r v := by
  obtain ⟨t, ht, htτ⟩ := hτ
  obtain ⟨k, hk, hkσ⟩ := hσ
  have hprimal : Yields s.primalPoint fun u => ∃ w, u.Holds b lead n r w := by
    refine (h.slopes s.x x hloc.point).bind fun g hg => ?_
    obtain ⟨c', w, hc', hg⟩ := hg
    refine (adjointMap_holds s.operator h.operator hloc.dual).bind fun a ha => ?_
    refine (hg.add ha).bind fun d hd => ?_
    rw [ht]
    refine (hd.scale htτ).bind fun e he => ?_
    refine (hloc.point.sub he).mono fun u hu => ?_
    rw [Backend.join_absorb hc' h.back_stays] at hu
    exact ⟨_, hu⟩
  obtain ⟨u, hu, w, hw⟩ := hprimal
  obtain ⟨P, hP, p, hp, -⟩ :=
    Proximable.prox_isProx h.primal h.primal_stays h.primal_domain htτ hτ0 hw
  have hdual : Yields (s.dualPoint P) fun V => ∃ v, V.Holds c lead m r v := by
    refine (hp.scale (Number.is_int 2)).bind fun d hd => ?_
    refine (hd.sub hloc.point).bind fun e he => ?_
    rw [Backend.join_self] at he
    refine (map_holds s.operator h.operator he).bind fun a ha => ?_
    rw [hk]
    refine (ha.scale hkσ).bind fun f hf => ?_
    refine (hloc.dual.add hf).mono fun V hV => ?_
    rw [h.forth_stays] at hV
    exact ⟨_, hV⟩
  obtain ⟨V, hV, v, hv⟩ := hdual
  exact ⟨u, P, V, p, v, hu, ht ▸ hP, hp, hV, hv⟩

/-- An iteration leaves everything but the iterates as it is. -/
lemma Usable.moved (h : s.Usable b c lead m n r) (x z p q : NdArray Exact) (w : Number Exact) :
    (s.moved x z p q w).Usable b c lead m n r :=
  ⟨h.operator, h.slopes, h.primal, h.dual, h.primal_stays, h.dual_stays, h.primal_domain,
    h.dual_domain, h.back_stays, h.forth_stays⟩

/-- **One iteration** goes through, unless the dual term divides by a step of length zero. -/
lemma Usable.iterate (h : s.Usable b c lead m n r) (hτ : s.tau.Is τ) (hτ0 : 0 < τ)
    (hσ : s.sigma.Is σ) (hdivides : 0 < σ ∨ ¬ s.dualTerm.Divides) (hM : s.momentum.Weighs)
    (hloc : s.Located b c lead r x z) :
    ∃ X Z P Q w, ∃ (x' p : Fin n → ℝ) (z' q : Fin m → ℝ),
      s.iterate = (s.moved X Z P Q w, .ok ()) ∧
      (s.moved X Z P Q w).Located b c lead r x' z' ∧ P.Holds b lead n r p ∧
      Q.Holds c lead m r q := by
  obtain ⟨u, P, V, p, v, hu, hprox, hP, hV, hv⟩ := h.points hτ hτ0 hσ hloc
  obtain ⟨k, hk, hkσ⟩ := hσ
  obtain ⟨Q, hconjugate, q, hQ⟩ :=
    Proximable.conjugateProx_yields h.dual h.dual_stays h.dual_domain hkσ hdivides hv
  obtain ⟨w, ω, hw, hω⟩ := hM.weight
  obtain ⟨X, hX, hX'⟩ := relax_holds hω hloc.point hP
  obtain ⟨Z, hZ, hZ'⟩ := relax_holds hω hloc.dual hQ
  have hpoints : s.proximalPoints = .ok (P, Q) := by
    rw [proximalPoints, hu]
    simp only [bind, Except.bind, hprox, hV, hk, hconjugate]
    rfl
  refine ⟨X, Z, P, Q, w, _, p, _, q, ?_, ⟨hX', hZ'⟩, hP, hQ⟩
  simp only [IterationState.iterate, hpoints, hw, hX, hZ]
  rfl

/-- **A dual step of length zero** is divided by, where the dual term divides. -/
lemma Usable.divides (h : s.Usable b c lead m n r) (hτ : s.tau.Is τ) (hτ0 : 0 < τ)
    (hσ : s.sigma.Is 0) (hdivides : s.dualTerm.Divides) (hloc : s.Located b c lead r x z) :
    s.iterate = (s, .error .divisionByZero) := by
  obtain ⟨u, P, V, p, v, hu, hprox, -, hV, hv⟩ := h.points hτ hτ0 hσ hloc
  obtain ⟨k, hk, hkσ⟩ := hσ
  have hpoints : s.proximalPoints = .error .divisionByZero := by
    rw [proximalPoints, hu]
    simp only [bind, Except.bind, hprox, hV, hk, Proximable.conjugateProx_divides hdivides hkσ hv]
  simp only [IterationState.iterate, hpoints]

/-- **Runs** of any length go through, and each iteration has its two proximal points. -/
lemma Usable.iterateMany (h : s.Usable b c lead m n r) (hτ : s.tau.Is τ) (hτ0 : 0 < τ)
    (hσ : s.sigma.Is σ) (hdivides : 0 < σ ∨ ¬ s.dualTerm.Divides) (hM : s.momentum.Weighs)
    (hloc : s.Located b c lead r x z) (k : ℕ) :
    ∃ s' p q, IterationState.iterateMany (k + 1) s = (s', .ok ()) ∧ s'.p.Holds b lead n r p ∧
      s'.q.Holds c lead m r q := by
  induction k generalizing s x z with
  | zero =>
    obtain ⟨X, Z, P, Q, w, x', p, z', q, hiterate, -, hP, hQ⟩ :=
      h.iterate hτ hτ0 hσ hdivides hM hloc
    refine ⟨s.moved X Z P Q w, p, q, ?_, hP, hQ⟩
    rw [IterationState.iterateMany, hiterate]
    rfl
  | succ k ih =>
    obtain ⟨X, Z, P, Q, w, x', p, z', q, hiterate, hloc', -, -⟩ :=
      h.iterate hτ hτ0 hσ hdivides hM hloc
    rw [IterationState.iterateMany, hiterate]
    exact ih (h.moved X Z P Q w) hτ hσ hdivides hM.advance hloc'

/-! ## Setups -/

variable {x₀ : Value Exact} {f : Option (Smooth Exact)}
  {terms : Option (List (TermArgument Exact))} {given : Parameters Exact} {τ₀ σ₀ : Option ℝ}

/-- The steps that a setup has found are in balance, and the dual one only vanishes where the primal
one was pinned at the limit. -/
lemma start_steps (h : start x₀ f terms given = .ok s) (hβ : s.smooth.curvature = finite β)
    (hβ0 : 0 ≤ β) (hν : (given.getD "nu" (.number (.int 1))).Is ν)
    (hτ : (given.get "tau").Pins τ₀) (hσ : (given.get "sigma").Pins σ₀)
    (hfree : τ₀ = none ∨ σ₀ = none) :
    ∃ τ σ, s.tau.Is τ ∧ s.sigma.Is σ ∧ InBalance β ν τ σ ∧
      (σ = 0 ↔ τ₀ = some τ ∧ τ * β = 2) := by
  obtain ⟨-, hsteps, -⟩ := start_ok h
  rw [hβ, Parameters.withDefaults_nu, Parameters.withDefaults_get (by decide) (by decide) (by decide),
    Parameters.withDefaults_get (by decide) (by decide) (by decide)] at hsteps
  obtain ⟨nu, hnu, hνis⟩ := hν
  rw [hnu] at hsteps
  have hnull : given.get "tau" = .null ∨ given.get "sigma" = .null := by
    rcases hfree with rfl | rfl
    · exact Or.inl hτ
    · exact Or.inr hσ
  have hν0 : 0 < ν := (Number.isPositive_iff hνis).mp (stepSizes_ok hnull hsteps).1
  have hcompletable : Completable β τ₀ σ₀ := not_not.mp fun hnot =>
    (stepSizes_refuses (Number.is_real β) hβ0 hνis hν0 hτ hσ hnot).ne_ok _ hsteps
  have hcompletes := (stepSizes_completes (Number.is_real β) hβ0 hνis hν0 hτ hσ
    hcompletable).of_eq_ok hsteps
  obtain ⟨τ, σ, htau, hsigma, hbalance, hpos⟩ := hcompletes.balanced hnull
  have hlimit := hbalance.dual_eq_zero_iff hν0
  refine ⟨τ, σ, htau, hsigma, hbalance, fun hzero => ⟨?_, hlimit.mp hzero⟩,
    fun h => hlimit.mpr h.2⟩
  cases τ₀ with
  | none => exact absurd hzero (hpos hτ).ne'
  | some τ' =>
    obtain ⟨t, ht, htτ'⟩ := hτ
    obtain ⟨t', ht', htτ⟩ := htau
    have hkept : s.tau = given.get "tau" := hcompletes.primal_kept (by rw [ht]; nofun)
    rw [hkept, ht] at ht'
    cases ht'
    exact congrArg some (htτ'.unique htτ)

/-- **What a setup admits can be run, unless the dual term divides by a step of length zero.**  Let at
most one step be pinned, and let all parameters be real numbers.  The setup finds a primal step
`τ > 0` and a dual step `σ ≥ 0`, and `σ` vanishes only where `τ` was pinned at `2/β`.  As long as
`σ` is positive, or the dual term does not look at it, every iteration of every run computes both
proximal points.  Otherwise the first iteration divides by zero, and leaves the state as it was. -/
theorem started_runs (hstart : start x₀ f terms given = .ok s)
    (hβ : s.smooth.curvature = finite β) (hβ0 : 0 ≤ β)
    (hν : (given.getD "nu" (.number (.int 1))).Is ν) (hτ : (given.get "tau").Pins τ₀)
    (hσ : (given.get "sigma").Pins σ₀) (hfree : τ₀ = none ∨ σ₀ = none)
    (hplain : s.method = .plain → ∃ ω, (given.get "lambda").Is ω)
    (hs : s.Usable b c lead m n r) (hloc : s.Located b c lead r x z) :
    ∃ τ σ, s.tau.Is τ ∧ s.sigma.Is σ ∧ 0 < τ ∧ 0 ≤ σ ∧ (σ = 0 ↔ τ₀ = some τ ∧ τ * β = 2) ∧
      (0 < σ ∨ ¬ s.dualTerm.Divides → ∀ k, ∃ s' p q,
        iterateMany (k + 1) s = (s', .ok ()) ∧ s'.p.Holds b lead n r p ∧
          s'.q.Holds c lead m r q) ∧
      (σ = 0 → s.dualTerm.Divides → s.iterate = (s, .error .divisionByZero)) := by
  obtain ⟨τ, σ, htau, hsigma, hbalance, hzero⟩ := start_steps hstart hβ hβ0 hν hτ hσ hfree
  have hM : s.momentum.Weighs := by
    refine Momentum.weighs_ofMethod (start_ok hstart).2.2 fun hmethod => ?_
    rw [Parameters.withDefaults_get (by decide) (by decide) (by decide)]
    exact hplain hmethod
  refine ⟨τ, σ, htau, hsigma, hbalance.primal_pos, hbalance.dual_nonneg, hzero, ?_, ?_⟩
  · exact fun hdivides k => hs.iterateMany htau hbalance.primal_pos hsigma hdivides hM hloc k
  · rintro rfl hdivides
    exact hs.divides htau hbalance.primal_pos hsigma hdivides hloc

/-! ## A step at the limit -/

/-- Minimise half the square of one number plus `h`, begun at the origin, with a primal step pinned at
the limit. -/
noncomputable def boundaryStart (h : Penalty Exact) : Except Fault (IterationState Exact) :=
  start (.array (samplePoint 0)) (some ⟨.leastSquares .anyIdentity .null, none, finite 1⟩)
    (some [.absent, .term (.plain h none none)])
    [("tau", .number (.int 2)), ("lambda", .number (.int 1))]

/-- The state that it begins with. -/
noncomputable def boundaryState (h : Penalty Exact) (sigma : Value Exact) : IterationState Exact :=
  { sampleState (.constant (some (.int 1))) 0 with
    first := .anyZero
    second := .plain h none none
    tau := .number (.int 2)
    sigma := sigma }

/-- The setup admits the step, and what is left for the dual side is zero. -/
lemma boundaryStart_ok (h : Penalty Exact) :
    ∃ sigma, boundaryStart h = .ok (boundaryState h sigma) ∧ sigma.Is 0 := by
  have hadmitted : Completable 1 (some 2) none := .primal two_pos (Or.inr (by norm_num))
  obtain ⟨⟨tau, sigma⟩, hsteps, hcompletes⟩ := stepSizes_completes (Number.is_real 1) zero_le_one
    Number.is_one one_pos pins_two (show Value.null.Pins none from rfl) hadmitted
  obtain rfl : tau = .number (.int 2) := hcompletes.primal_kept nofun
  have hzero : sigma.Is 0 := by
    obtain ⟨τ, σ, ⟨t, ht, hτ⟩, hσ, hbalance, -⟩ := hcompletes.balanced (Or.inr rfl)
    cases ht
    obtain rfl := hτ.unique Number.is_two
    exact (hbalance.dual_eq_zero_iff one_pos).mpr (mul_one 2) ▸ hσ
  refine ⟨sigma, ?_, hzero⟩
  have hmethod : Method.ofTag (.text Method.plain.tag : Value Exact) = .ok .plain :=
    Method.ofTag_tag .plain
  have hweight : Momentum.ofMethod .plain (.number (.int 1))
      = .ok (.constant (some (.int 1)) : Momentum Exact) := by
    rw [Momentum.ofMethod, Momentum.ofWeight, if_pos ((Number.isPositive_iff Number.is_one).mpr one_pos)]
  show (do
    let steps ← stepSizes (.number (.real (finite 1))) (.number (.int 1)) (.number (.int 2)) .null
    let method ← Method.ofTag (.text Method.plain.tag)
    let momentum ← Momentum.ofMethod method (.number (.int 1))
    pure { boundaryState h steps.2 with tau := steps.1, method := method, momentum := momentum }
      : Except Fault (IterationState Exact)) = _
  rw [hsteps]
  simp only [bind, Except.bind, hmethod, hweight]
  rfl

lemma boundaryState_usable {h : Penalty Exact} (sigma : Value Exact) (hh : h.Fits [] 1)
    (hb : h.Stays .memory) (hdom : (h.functional [] 1 0).domain.Nonempty) :
    (boundaryState h sigma).Usable .memory .memory [] 1 1 0 where
  operator := rfl
  slopes := Smooth.Fits.slopes ⟨rfl, Or.inl rfl⟩ rfl
  primal := trivial
  dual := hh
  primal_stays := trivial
  dual_stays := hb
  primal_domain := ⟨0, trivial⟩
  dual_domain := hdom
  back_stays := rfl
  forth_stays := rfl

lemma boundaryState_located (h : Penalty Exact) (sigma : Value Exact) :
    (boundaryState h sigma).Located .memory .memory [] 0 (fun _ : Fin 1 => 0) fun _ : Fin 1 => 0 :=
  ⟨samplePoint_holds 0, samplePoint_holds 0⟩

theorem absolute_runs_at_limit :
    ∃ s, boundaryStart .absolute = .ok s ∧ s.sigma.Is 0 ∧
      ∀ k, ∃ s', iterateMany (k + 1) s = (s', .ok ()) := by
  obtain ⟨sigma, hstart, hzero⟩ := boundaryStart_ok .absolute
  obtain ⟨τ, σ, -, -, -, -, -, hruns, -⟩ := started_runs hstart rfl zero_le_one
    ⟨_, rfl, Number.is_one⟩ pins_two (show Value.null.Pins none from rfl) (Or.inr rfl)
    (fun _ => ⟨1, _, rfl, Number.is_one⟩) (boundaryState_usable sigma trivial trivial ⟨0, trivial⟩)
    (boundaryState_located _ sigma)
  refine ⟨_, hstart, hzero, fun k => ?_⟩
  obtain ⟨s', p, q, hrun, -⟩ := hruns (Or.inr id) k
  exact ⟨s', hrun⟩

/-- The setup admits a step at the limit beside a term that divides, and the first iteration fails. -/
theorem boundary_divides_by_zero :
    ∃ s, boundaryStart .euclidean = .ok s ∧ s.iterate = (s, .error .divisionByZero) := by
  obtain ⟨sigma, hstart, hzero⟩ := boundaryStart_ok .euclidean
  have husable : (boundaryState .euclidean sigma).Usable .memory .memory [] 1 1 0 :=
    boundaryState_usable sigma trivial trivial ⟨0, trivial⟩
  exact ⟨_, hstart, husable.divides pins_two two_pos hzero trivial (boundaryState_located _ sigma)⟩

end IterationState

end PrimalDual
