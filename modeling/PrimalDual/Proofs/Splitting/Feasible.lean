import PrimalDual.Proofs.Functional.Moreau
import PrimalDual.Proofs.Functional.RealData
import PrimalDual.Proofs.Splitting.Descent
import PrimalDual.Proofs.Splitting.Failure

/-!
# Runs never leave the set of the primal term

An indicator on the primal side keeps the iteration inside its set.  The proximal point lies there
whatever it is computed from, and a move by a part between zero and one ends between two points of the
set, so a point that has entered the set stays, however the run goes on.  Failing iterations are no
exception.

The data of the problem are real numbers; only the bounds of a box may be infinite, as long as they
leave room for each element.

* `Between.blend`, `relax_contained` — moves.
* `IterationState.HasRealData`, `proximalPoints_contained` — the data of the problem, and the proximal
  point.
* `Proximable.Admits` — an array lies in the set, and the term vanishes on it.
* `IterationState.Guarded`, `Guarded.outcome`, `Guarded.run` — what iterations preserve.
* **`feasible_runs`** — runs of any length.
* `farBox_adds_infinity` — a box without real numbers.
-/

namespace PrimalDual

open Exact NdArray

/-! ## Moves inside a set -/

/-- What lies below a number lies below its bounds. -/
lemma Exact.atMost_of_le {u : Exact} {x y : ℝ} (h : Scalar.atMost (finite y) u = true)
    (hxy : x ≤ y) : Scalar.atMost (finite x) u = true := by
  cases u with
  | finite c =>
    rw [atMost_finite, decide_eq_true_eq] at h ⊢
    exact hxy.trans h
  | infinite s => exact h
  | notANumber => cases h

/-- A number on the way from one number between two bounds to another one lies between them. -/
lemma Exact.Between.blend {l u : Exact} {x y ω : ℝ} (hx : Between l u x) (hy : Between l u y)
    (h0 : 0 ≤ ω) (h1 : ω ≤ 1) : Between l u (x + ω * (y - x)) := by
  rcases le_total x y with hxy | hyx
  · have hroom := mul_nonneg h0 (sub_nonneg.mpr hxy)
    have hrest := mul_nonneg (sub_nonneg.mpr h1) (sub_nonneg.mpr hxy)
    exact ⟨atMost_trans hx.1 (by linarith), atMost_of_le hy.2 (by linarith)⟩
  · have hroom := mul_nonneg h0 (sub_nonneg.mpr hyx)
    have hrest := mul_nonneg (sub_nonneg.mpr h1) (sub_nonneg.mpr hyx)
    exact ⟨atMost_trans hy.1 (by linarith), atMost_of_le hx.2 (by linarith)⟩

namespace IterationState

variable {u v y : NdArray Exact} {w : Number Exact} {ω : ℝ} {h : Penalty Exact}

lemma assign_reads {s : Shape} {F : ℕ → Exact} (hu : u.kind.isReal = true) (hv : v.Reads s F)
    (h : u.assign v = .ok y) : y.Reads s F := by
  obtain ⟨p, hp⟩ := exists_precision hu
  rw [assign] at h
  cases hb : u.backend with
  | chunked =>
    rw [hb] at h
    cases h
    exact hv
  | memory =>
    rw [hb] at h
    dsimp only at h
    split_ifs at h
    cases h
    rw [hp]
    exact hv.convert p

/-- A point is moved toward one that has its axes, element by element. -/
lemma relax_reads (hu : u.kind.isReal = true) (hcovers : v.shape.Covers u.shape)
    (h : relax w u v = .ok y) : y.Reads v.shape fun k =>
      u.realAt (v.shape.project u.shape k)
        + w.value * (v.realAt k - u.realAt (v.shape.project u.shape k)) := by
  have hv : v.Reads v.shape v.realAt := ⟨rfl, fun _ _ => rfl⟩
  obtain ⟨d, hd, h⟩ := ok_of_bind h
  obtain ⟨move, hmove, h⟩ := ok_of_bind h
  obtain ⟨sum, hsum, h⟩ := ok_of_bind h
  obtain ⟨p, hsub⟩ := arith_arrays_eq .sub (a := v) (b := u) (Or.inr hu)
  rw [hsub] at hd
  obtain ⟨hdreal, hdreads⟩ :=
    (zipReal_reads p _ hcovers hv.meets (meets_of_covers hcovers)).of_eq_ok hd
  have hmreads := (arith_mul_reads hdreads (Or.inl hdreal)).of_eq_ok hmove
  obtain ⟨q, hadd⟩ := arith_arrays_eq .add (a := u) (b := move) (Or.inl hu)
  rw [hadd] at hsum
  have hshape : Shape.broadcast? u.shape move.shape = some v.shape := by
    rw [hmreads.shape_eq, Shape.broadcast?_comm]
    exact hcovers
  obtain ⟨-, hsreads⟩ :=
    (zipReal_reads q _ hshape (meets_of_covers hcovers) hmreads.meets).of_eq_ok hsum
  exact assign_reads hu hsreads h

lemma relax_allFinite (hw : w.Is ω) (hu : u.AllFinite) (hv : v.AllFinite)
    (h : relax w u v = .ok y) : y.AllFinite := by
  obtain ⟨d, hd, h⟩ := ok_of_bind h
  obtain ⟨move, hmove, h⟩ := ok_of_bind h
  have hfinite : d.AllFinite := arith_allFinite (o := .array v) (u := .array u) (by decide) hv hu hd
  have hfinite' : move.AllFinite :=
    arith_allFinite (o := .number w) (u := .array d) (by decide) ⟨ω, hw⟩ hfinite hmove
  exact update_allFinite (o := .array move) (by decide) hu hfinite' h

/-- A move from a point of the set, or all the way, ends in the set. -/
lemma relax_contained (hw : w.Is ω) (h0 : 0 ≤ ω) (h1 : ω ≤ 1) (hu : u.kind.isReal = true)
    (hfinite : u.AllFinite) (hstart : h.IsZeroAt u ∨ ω = 1) (hcovers : v.shape.Covers u.shape)
    (hv : h.Contained v) (hy : relax w u v = .ok y) : h.Contained y := by
  obtain ⟨L, U, hbounds, hbetween⟩ := hv
  have hreads := relax_reads hu hcovers hy
  have hshape := hreads.shape_eq
  refine ⟨L, U, hshape ▸ hbounds, fun k hk => ?_⟩
  rw [NdArray.size, hshape] at hk
  obtain ⟨b, hb, hbbetween⟩ := hbetween k hk
  obtain ⟨a, ha⟩ := hfinite (v.shape.project u.shape k)
  refine ⟨a + ω * (b - a), ?_, ?_⟩
  · rw [hreads.entry k hk, ha, hb, hw, finite_sub, finite_mul, finite_add]
  · rcases hstart with hzero | rfl
    · obtain ⟨a', ha', habetween⟩ :=
        hzero.between hu hfinite (meets_of_covers hcovers) hbounds k hk
      rw [ha, finite.injEq] at ha'
      subst ha'
      exact habetween.blend hbbetween h0 h1
    · rwa [one_mul, add_sub_cancel]

/-! ## Proximal points -/

variable {s t : IterationState Exact} {τ σ : ℝ} {p q : NdArray Exact} {r : Except Fault Unit}

/-- The data of the problem are real numbers, and both steps are positive. -/
structure HasRealData (s : IterationState Exact) (τ σ : ℝ) : Prop where
  smooth : s.smooth.HasRealData
  operator : s.operator.HasRealData
  primal : s.primalTerm.HasRealData
  dual : s.dualTerm.HasRealData
  tau : s.tau.Is τ
  tau_pos : 0 < τ
  sigma : s.sigma.Is σ
  sigma_pos : 0 < σ

/-- The point and the dual point consist of finite floating-point numbers. -/
structure Grounded (s : IterationState Exact) : Prop where
  point_isReal : s.x.kind.isReal = true
  point : s.x.AllFinite
  dual_isReal : s.z.kind.isReal = true
  dual : s.z.AllFinite

/-- The argument of the proximity operator is made from the point and can only have more axes. -/
lemma primalPoint_covers (hx : s.x.kind.isReal = true) (h : s.primalPoint = .ok u) :
    u.kind.isReal = true ∧ u.shape.Covers s.x.shape := by
  obtain ⟨g, -, h⟩ := ok_of_bind h
  obtain ⟨back, -, h⟩ := ok_of_bind h
  obtain ⟨direction, -, h⟩ := ok_of_bind h
  obtain ⟨o, -, h⟩ := ok_of_bind h
  obtain ⟨move, -, h⟩ := ok_of_bind h
  obtain ⟨p, hsub⟩ := arith_arrays_eq .sub (a := s.x) (b := move) (Or.inl hx)
  have hreal := arith_isReal hx h
  rw [hsub] at h
  exact ⟨hreal, (Shape.covers_of_broadcast? (zipReal_ok h).1).1⟩

lemma primalPoint_allFinite (hs : s.HasRealData τ σ) (hg : s.Grounded) (h : s.primalPoint = .ok u) :
    u.AllFinite := by
  obtain ⟨n, hn, hτ⟩ := hs.tau
  obtain ⟨g, hgradient, h⟩ := ok_of_bind h
  obtain ⟨back, hback, h⟩ := ok_of_bind h
  obtain ⟨direction, hdirection, h⟩ := ok_of_bind h
  obtain ⟨o, ho, h⟩ := ok_of_bind h
  rw [hn] at ho
  cases ho
  obtain ⟨move, hmove, h⟩ := ok_of_bind h
  have hsum : direction.AllFinite :=
    arith_allFinite (o := .array g) (u := .array back) (by decide)
      (Smooth.gradient_allFinite hs.smooth hg.point hgradient)
      (LinearOperator.adjointMap_allFinite hs.operator hg.dual hback) hdirection
  have hmoves : move.AllFinite :=
    arith_allFinite (o := .number n) (u := .array direction) (by decide) ⟨τ, hτ⟩ hsum hmove
  exact arith_allFinite (o := .array s.x) (u := .array move) (by decide) hg.point hmoves h

lemma dualPoint_grounded (hs : s.HasRealData τ σ) (hg : s.Grounded) (hp : p.AllFinite)
    (h : s.dualPoint p = .ok v) : v.kind.isReal = true ∧ v.AllFinite := by
  obtain ⟨n, hn, hσ⟩ := hs.sigma
  obtain ⟨twice, htwice, h⟩ := ok_of_bind h
  obtain ⟨ahead, hahead, h⟩ := ok_of_bind h
  obtain ⟨image, himage, h⟩ := ok_of_bind h
  obtain ⟨o, ho, h⟩ := ok_of_bind h
  rw [hn] at ho
  cases ho
  obtain ⟨move, hmove, h⟩ := ok_of_bind h
  have hdouble : twice.AllFinite := arith_allFinite (o := .number (.int 2)) (u := .array p)
    (by decide) ⟨_, Number.is_two⟩ hp htwice
  have hbeyond : ahead.AllFinite :=
    arith_allFinite (o := .array twice) (u := .array s.x) (by decide) hdouble hg.point hahead
  have hmoves : move.AllFinite :=
    arith_allFinite (o := .number n) (u := .array image) (by decide) ⟨σ, hσ⟩
      (LinearOperator.map_allFinite hs.operator hbeyond himage) hmove
  exact ⟨arith_isReal hg.dual_isReal h,
    arith_allFinite (o := .array s.z) (u := .array move) (by decide) hg.dual hmoves h⟩

/-- The primal proximal point lies in the set, whatever it is computed from. -/
lemma proximalPoints_contained (hs : s.HasRealData τ σ) (hg : s.Grounded)
    (hind : s.primalTerm.Indicates) (h : s.proximalPoints = .ok (p, q)) :
    p.kind.isReal = true ∧ p.AllFinite ∧ q.AllFinite ∧ p.shape.Covers s.x.shape ∧
      s.primalTerm.elementary.Contained p := by
  obtain ⟨n, hn, hτ⟩ := hs.tau
  obtain ⟨m, hm, hσ⟩ := hs.sigma
  obtain ⟨a, ha, h⟩ := ok_of_bind h
  obtain ⟨b, hb, h⟩ := ok_of_bind h
  obtain ⟨c, hc, h⟩ := ok_of_bind h
  obtain ⟨d, hd, h⟩ := ok_of_bind h
  cases h
  obtain ⟨hareal, hcovers⟩ := primalPoint_covers hg.point_isReal ha
  have hafinite := primalPoint_allFinite hs hg ha
  obtain ⟨step, hprojection⟩ := Proximable.prox_elementary hb
  obtain ⟨hpreal, hpcovers, hcontained⟩ :=
    Penalty.prox_contained hind.elementary hs.primal.hasRoom hareal hafinite hprojection
  rw [hn] at hb
  rw [hm] at hd
  have hpfinite := Proximable.prox_allFinite hs.primal hτ hs.tau_pos hareal hafinite hb
  obtain ⟨hcreal, hcfinite⟩ := dualPoint_grounded hs hg hpfinite hc
  exact ⟨hpreal, hpfinite,
    Proximable.conjugateProx_allFinite hs.dual hσ hs.sigma_pos hcreal hcfinite hd,
    hpcovers.trans hcovers, hcontained⟩

end IterationState

/-! ## The invariant -/

namespace Momentum

/-- The weight is always one. -/
def IsFull (M : Momentum Exact) : Prop := ∃ w, M = .constant (some w) ∧ w.Is 1

lemma IsFull.advance {M : Momentum Exact} (h : M.IsFull) : M.advance.IsFull := by
  obtain ⟨w, rfl, hw⟩ := h
  exact ⟨w, rfl, hw⟩

end Momentum

/-- The array lies in the set of an indicator, wherever both are spread over a common shape, and the
indicator vanishes on it. -/
structure Proximable.Admits (t : Proximable Exact) (a : NdArray Exact) : Prop where
  between : ∀ s F L U, a.Meets s F → t.elementary.Bounds s L U →
    ∀ k < s.size, ∃ y, F k = finite y ∧ Between (L k) (U k) y
  vanishes : t.IsZeroAt a

lemma Penalty.IsZeroAt.admits {t : Proximable Exact} {a : NdArray Exact}
    (ha : t.elementary.IsZeroAt a) (ht : t.HasRealData) (hreal : a.kind.isReal = true)
    (hfinite : a.AllFinite) : t.Admits a :=
  ⟨fun _ _ _ _ hF hbounds => ha.between hreal hfinite hF hbounds,
    (Proximable.isZeroAt_iff ht).mpr ha⟩

namespace IterationState

variable {s t : IterationState Exact} {τ σ : ℝ} {p q d x z : NdArray Exact} {w : Number Exact}
  {M : Momentum Exact} {o : Option (Number Exact)} {r : Except Fault Unit} {k : ℕ}

/-- The point lies in the set of the primal term. -/
def Inside (s : IterationState Exact) : Prop := s.primalTerm.elementary.IsZeroAt s.x

/-- What an iteration needs and preserves: the last proximal point lies in the set, if there is one. -/
structure Guarded (s : IterationState Exact) (τ σ : ℝ) : Prop where
  data : s.HasRealData τ σ
  indicates : s.primalTerm.Indicates
  grounded : s.Grounded
  tame : s.momentum.Tame
  proximal : s.weight ≠ none →
    s.p.kind.isReal = true ∧ s.p.AllFinite ∧ s.primalTerm.elementary.Contained s.p

/-- What is left when a run has got from one state to another. -/
structure Leads (s t : IterationState Exact) (τ σ : ℝ) : Prop where
  guarded : t.Guarded τ σ
  primalTerm_eq : t.primalTerm = s.primalTerm
  weighted : s.weight ≠ none → t.weight ≠ none
  /-- A point in the set does not leave it. -/
  stays : s.Inside → t.Inside
  /-- With weight one, the first iteration that goes through puts the point into the set. -/
  enters : s.momentum.IsFull → (s.weight ≠ none → s.Inside) →
    t.momentum.IsFull ∧ (t.weight ≠ none → t.Inside)

lemma Leads.refl (h : s.Guarded τ σ) : s.Leads s τ σ :=
  ⟨h, rfl, id, id, fun hfull hinside => ⟨hfull, hinside⟩⟩

lemma Leads.trans {t' : IterationState Exact} (h : s.Leads t τ σ) (h' : t.Leads t' τ σ) :
    s.Leads t' τ σ where
  guarded := h'.guarded
  primalTerm_eq := h'.primalTerm_eq.trans h.primalTerm_eq
  weighted := h'.weighted ∘ h.weighted
  stays := h'.stays ∘ h.stays
  enters hfull hinside :=
    let ⟨hfull', hinside'⟩ := h.enters hfull hinside
    h'.enters hfull' hinside'

/-- Whatever the iterates are, the problem stays the same. -/
lemma Guarded.moved (h : s.Guarded τ σ) (hM : M.Tame) (hx : x.kind.isReal = true ∧ x.AllFinite)
    (hz : z.kind.isReal = true ∧ z.AllFinite)
    (hp : o ≠ none → p.kind.isReal = true ∧ p.AllFinite ∧ s.primalTerm.elementary.Contained p) :
    { s with momentum := M, x := x, z := z, p := p, q := q, dual := d, weight := o }.Guarded τ σ where
  data := ⟨h.data.smooth, h.data.operator, h.data.primal, h.data.dual, h.data.tau, h.data.tau_pos,
    h.data.sigma, h.data.sigma_pos⟩
  indicates := h.indicates
  grounded := ⟨hx.1, hx.2, hz.1, hz.2⟩
  tame := hM
  proximal := hp

/-- The schedule does not touch the point. -/
lemma Guarded.advance (h : s.Guarded τ σ) :
    s.Leads { s with momentum := s.momentum.advance } τ σ where
  guarded := h.moved h.tame.advance ⟨h.grounded.point_isReal, h.grounded.point⟩
    ⟨h.grounded.dual_isReal, h.grounded.dual⟩ h.proximal
  primalTerm_eq := rfl
  weighted := id
  stays := id
  enters hfull hinside := ⟨hfull.advance, hinside⟩

/-- A move of the point, which ends in the set if it begins there or goes all the way. -/
lemma Guarded.move (h : s.Guarded τ σ) (hpoints : s.proximalPoints = .ok (p, q))
    (hweight : s.momentum.weight = .ok w) (hx : relax w s.x p = .ok x) :
    (x.kind.isReal = true ∧ x.AllFinite) ∧
      (s.Inside ∨ s.momentum.IsFull → s.primalTerm.elementary.IsZeroAt x) := by
  obtain ⟨hpreal, hpfinite, -, hcovers, hcontained⟩ :=
    proximalPoints_contained h.data h.grounded h.indicates hpoints
  obtain ⟨w', ω, hw', hω, h0, h1⟩ := h.tame.weight
  rw [hweight] at hw'
  cases hw'
  have hreal := relax_isReal h.grounded.point_isReal hx
  refine ⟨⟨hreal, relax_allFinite hω h.grounded.point hpfinite hx⟩, fun hstart => ?_⟩
  have hway : s.primalTerm.elementary.IsZeroAt s.x ∨ ω = 1 := by
    refine hstart.imp id fun hfull => ?_
    obtain ⟨w', hmomentum, hone⟩ := hfull
    rw [hmomentum] at hweight
    cases hweight
    exact hω.unique hone
  exact (relax_contained hω h0 h1 h.grounded.point_isReal h.grounded.point hway hcovers hcontained
    hx).isZeroAt hreal

/-- **One iteration** keeps the point in the set, whether it goes through or fails. -/
theorem Guarded.outcome (h : s.Guarded τ σ) (houtcome : s.Outcome t r) :
    s.Leads t τ σ ∧ (r = .ok () → t.weight ≠ none) := by
  cases houtcome with
  | refused _ => exact ⟨Leads.refl h, fun hok => by cases hok⟩
  | stuck _ _ _ => exact ⟨h.advance, fun hok => by cases hok⟩
  | @halfway p q x w _ hpoints hweight hx hz =>
    refine ⟨?_, fun hok => by cases hok⟩
    obtain ⟨hxreal, hset⟩ := h.move hpoints hweight hx
    rw [leaveBehind]
    cases s.x.backend with
    | chunked => exact h.advance
    | memory =>
      exact {
        guarded := h.moved h.tame.advance hxreal ⟨h.grounded.dual_isReal, h.grounded.dual⟩ h.proximal
        primalTerm_eq := rfl
        weighted := id
        stays := fun hinside => hset (Or.inl hinside)
        enters := fun hfull _ => ⟨hfull.advance, fun _ => hset (Or.inr hfull)⟩ }
  | @complete p q x z w hpoints hweight hx hz =>
    refine ⟨?_, fun _ => Option.some_ne_none w⟩
    obtain ⟨hxreal, hset⟩ := h.move hpoints hweight hx
    obtain ⟨hpreal, hpfinite, hqfinite, -, hcontained⟩ :=
      proximalPoints_contained h.data h.grounded h.indicates hpoints
    obtain ⟨w', ω, hw', hω, -, -⟩ := h.tame.weight
    rw [hweight] at hw'
    cases hw'
    have hzreal : z.kind.isReal = true ∧ z.AllFinite :=
      ⟨relax_isReal h.grounded.dual_isReal hz, relax_allFinite hω h.grounded.dual hqfinite hz⟩
    exact {
      guarded := h.moved h.tame.advance hxreal hzreal fun _ => ⟨hpreal, hpfinite, hcontained⟩
      primalTerm_eq := rfl
      weighted := fun _ => Option.some_ne_none w
      stays := fun hinside => hset (Or.inl hinside)
      enters := fun hfull _ => ⟨hfull.advance, fun _ => hset (Or.inr hfull)⟩ }

/-- A run of any length keeps the point in the set. -/
theorem Guarded.run (h : s.Guarded τ σ) (hrun : iterateMany k s = (t, r)) :
    s.Leads t τ σ ∧ (k ≠ 0 → r = .ok () → t.weight ≠ none) := by
  induction k generalizing s with
  | zero =>
    cases hrun
    exact ⟨Leads.refl h, fun hk => absurd rfl hk⟩
  | succ k ih =>
    rw [iterateMany] at hrun
    rcases hs : s.iterate with ⟨s', e | u⟩
    · rw [hs] at hrun
      cases hrun
      exact ⟨(h.outcome (outcome_of_iterate hs)).1, fun _ hok => by cases hok⟩
    · rw [hs] at hrun
      obtain ⟨hstep, hweighted⟩ := h.outcome (outcome_of_iterate hs)
      obtain ⟨hrest, -⟩ := ih hstep.guarded hrun
      exact ⟨hstep.trans hrest, fun _ _ => hrest.weighted (hweighted rfl)⟩

/-- The invariant holds when a setup has begun the run. -/
lemma start_guarded {x₀ : Value Exact} {f : Option (Smooth Exact)}
    {terms : Option (List (TermArgument Exact))} {given : Parameters Exact}
    (hstart : start x₀ f terms given = .ok s) (hdata : s.HasRealData τ σ)
    (hind : s.primalTerm.Indicates) (hpoint : s.x.AllFinite)
    (hplain : s.method = .plain → ∃ w ω, given.withDefaults.get "lambda" = .number w ∧
      w.Is ω ∧ ω ≤ 1) : s.Guarded τ σ := by
  have hsettled := start_settled hstart
  have hreal := readPoint_isReal hsettled.point
  exact ⟨hdata, hind, ⟨hreal, hpoint, LinearOperator.map_isReal hreal hsettled.image,
    LinearOperator.map_allFinite hdata.operator hpoint hsettled.image⟩,
    start_tame hstart hplain, fun h => absurd hsettled.weight h⟩

/-- **Runs of any length** keep their points in the set of the primal term.  Each proximal point lies
there, so does the point itself if the initial one does, and from the first iteration on if the weight
is one.  Then the term adds nothing to the objective.  The run may also have come to a failure. -/
theorem feasible_runs {x₀ : Value Exact} {f : Option (Smooth Exact)}
    {terms : Option (List (TermArgument Exact))} {given : Parameters Exact}
    {s₀ s : IterationState Exact} (hstart : start x₀ f terms given = .ok s₀)
    (hdata : s₀.HasRealData τ σ) (hind : s₀.primalTerm.Indicates) (hpoint : s₀.x.AllFinite)
    (hplain : s₀.method = .plain → ∃ w ω, given.withDefaults.get "lambda" = .number w ∧
      w.Is ω ∧ ω ≤ 1) (hrun : iterateMany k s₀ = (s, r)) :
    (k ≠ 0 → r = .ok () → s.weight ≠ none) ∧
      (s.weight ≠ none → s₀.primalTerm.Admits s.p) ∧
      (s₀.primalTerm.IsZeroAt s₀.x → s₀.primalTerm.Admits s.x) ∧
      (s₀.momentum.IsFull → s.weight ≠ none → s₀.primalTerm.Admits s.x) := by
  have hguarded := start_guarded hstart hdata hind hpoint hplain
  obtain ⟨hleads, hweighted⟩ := hguarded.run hrun
  have hterm := hleads.primalTerm_eq
  have hreal := hleads.guarded.grounded.point_isReal
  have hfinite := hleads.guarded.grounded.point
  refine ⟨hweighted, fun hw => ?_, fun hzero => ?_, fun hfull hw => ?_⟩
  · obtain ⟨hpreal, hpfinite, hcontained⟩ := hleads.guarded.proximal hw
    rw [hterm] at hcontained
    exact (hcontained.isZeroAt hpreal).admits hdata.primal hpreal hpfinite
  · have hinside := hleads.stays ((Proximable.isZeroAt_iff hdata.primal).mp hzero)
    rw [Inside, hterm] at hinside
    exact hinside.admits hdata.primal hreal hfinite
  · have hnone : s₀.weight = none := (start_settled hstart).weight
    have hinside := (hleads.enters hfull fun h => absurd hnone h).2 hw
    rw [Inside, hterm] at hinside
    exact hinside.admits hdata.primal hreal hfinite

/-- The numbers between zero and one. -/
def unitBox : Proximable Exact := .plain (.box (.number (.int 0)) (.number (.int 1))) none none

lemma unitBox_hasRoom :
    (Penalty.box (.number (.int 0)) (.number (.int 1)) : Penalty Exact).HasRoom := by
  refine Penalty.hasRoom_of_boundsInOrder ?_ ?_
  · show Number.atMost (.int 0 : Number Exact) (.int 1) = true
    rw [Number.atMost_eq]
    simp [Number.value]
  · rintro s L U ⟨l, u, hl, hu, hL, hU⟩ k hk b ⟨hlower, -⟩
    cases hl
    rw [← hL k hk] at hlower
    cases hlower

/-- The null functional has no bounds. -/
lemma zero_hasRoom : (Penalty.zero : Penalty Exact).HasRoom := fun _ _ _ hbounds => hbounds.elim

/-- One iteration with weight one puts the number one between its bounds. -/
theorem unitBox_feasible :
    ∃ s, iterateMany 1 (pinnedState unitBox .anyZero) = (s, .ok ()) ∧ unitBox.Admits s.p ∧
      unitBox.Admits s.x := by
  have hdata : (pinnedState unitBox .anyZero).HasRealData 1 1 :=
    ⟨trivial, trivial, unitBox_hasRoom, zero_hasRoom, ⟨_, rfl, Number.is_one⟩, one_pos,
      ⟨_, rfl, Number.is_one⟩, one_pos⟩
  have hpoint : (samplePoint 1).AllFinite := tabulate_allFinite fun _ _ => isFinite 1
  obtain ⟨s, hrun⟩ : ∃ s, iterateMany 1 (pinnedState unitBox .anyZero) = (s, .ok ()) := ⟨_, rfl⟩
  obtain ⟨hweighted, hp, -, hx⟩ := feasible_runs (pinned_start rfl rfl) hdata trivial hpoint
    (fun _ => ⟨_, 1, rfl, Number.is_one, le_refl 1⟩) hrun
  have hw := hweighted one_ne_zero rfl
  exact ⟨s, hrun, hp hw, hx ⟨_, rfl, Number.is_one⟩ hw⟩

/-! ## The box without real numbers

Both bounds may be positive infinity.  Then the first iteration moves the point there, and the second
one takes the difference of two infinities.
-/

/-- Nothing finite is a proximal point. -/
lemma farBox_prox_ok {u : NdArray Exact} {tau : Value Exact} (hu : u.kind.isReal = true)
    (h : Proximable.farBox.prox u tau = .ok p) : p.shape.Covers u.shape ∧
      ∀ k < p.size, p.realAt k = infinite false ∨ p.realAt k = notANumber := by
  have hcut : clip (some (.number (.real (infinite false)))) (some (.number (.real (infinite false))))
      u = .ok p := h
  rw [Penalty.clip_both hu] at hcut
  obtain ⟨raised, hraised, hcut⟩ := ok_of_bind hcut
  obtain ⟨hreal, F, L, hF, hL, hread⟩ := extremum_meets hu hraised
  obtain ⟨-, G, U, hG, hU, hread'⟩ := extremum_meets hreal hcut
  have hcovers : p.shape.Covers raised.shape := hG.fits
  refine ⟨hcovers.trans hF.fits, fun k hk => ?_⟩
  have hplace := Shape.project_lt hcovers hk
  rw [hread'.entry k hk, ← hU k hk, ← hG.entry k hk, hread.entry _ hplace, ← hL _ hplace]
  cases F (p.shape.project raised.shape k) with
  | finite y => exact Or.inl rfl
  | infinite b => cases b <;> exact Or.inl rfl
  | notANumber => exact Or.inr rfl

/-- From infinity, there is no way to infinity. -/
lemma farBox_loses_point {shape : Shape} (hterm : s.primalTerm = Proximable.farBox)
    (hreal : s.x.kind.isReal = true) (hmemory : s.x.backend = .memory)
    (hx : s.x.Reads shape fun _ => infinite false) (houtcome : s.Outcome t (.ok ())) :
    t.primalTerm = Proximable.farBox ∧ t.x.kind.isReal = true ∧
      t.x.Reads shape fun _ => notANumber := by
  cases houtcome with
  | @complete p q y z w hpoints hweight hmove hz =>
    obtain ⟨u, hu, h⟩ := ok_of_bind hpoints
    obtain ⟨p', hp, h⟩ := ok_of_bind h
    obtain ⟨v, hv, h⟩ := ok_of_bind h
    obtain ⟨q', hq, h⟩ := ok_of_bind h
    cases h
    obtain ⟨hureal, hcovers⟩ := primalPoint_covers hreal hu
    rw [hterm] at hp
    obtain ⟨hpcovers, hpfar⟩ := farBox_prox_ok hureal hp
    have hcovers' : p.shape.Covers s.x.shape := hpcovers.trans hcovers
    obtain ⟨-, hreceives⟩ := (relax_ok_iff hreal).mp ⟨y, hmove⟩
    rw [Receives, hmemory] at hreceives
    have hshape : p.shape = shape := by
      rw [← hx.shape_eq]
      have hback : Shape.broadcast? s.x.shape p.shape = some s.x.shape := hreceives.1
      rw [Shape.broadcast?_comm, show Shape.broadcast? p.shape s.x.shape = _ from hcovers',
        Option.some.injEq] at hback
      exact hback
    have hreads := relax_reads hreal hcovers' hmove
    rw [hshape] at hreads
    refine ⟨hterm, relax_isReal hreal hmove, hreads.congr fun k hk => ?_⟩
    rw [hx.shape_eq, Shape.project_self _ _ hk, hx.entry k hk]
    rcases hpfar k (hk.trans_eq (congrArg Shape.size hshape).symm) with hfar | hfar <;>
      rw [hfar] <;> cases w.value <;> rfl

/-- The term is infinite where the point is not a number. -/
lemma farBox_value (hx : x.Reads [1] fun _ => notANumber) (hreal : x.kind.isReal = true) :
    ∃ v, Proximable.farBox.value x = .ok v ∧ v.realAt 0 = infinite false := by
  have hbound : (Operand.number (.real (infinite false)) : Operand Exact).Meets [1]
      fun _ => infinite false := fun _ _ => rfl
  obtain ⟨above, habove, hmarks⟩ := compare_left_yields .atMost hx hbound
  obtain ⟨below, hbelow, hmarks'⟩ := compare_right_yields .atMost hx hbound
  obtain ⟨inside, hinside, hboth⟩ := Penalty.both_yields hmarks hmarks'
  refine ⟨Penalty.indicator x.kind inside.allLast, ?_, ?_⟩
  · show Penalty.value (.box (.number (.real (infinite false))) (.number (.real (infinite false)))) x
      = _
    simp only [Penalty.value, Value.toOperand, bind, Except.bind, habove, hbelow, hinside]
    rfl
  · exact (Penalty.indicator_reads hboth hreal).entry 0 Nat.one_pos

/-- The weight is one all along, and after two iterations the term adds infinity to the objective. -/
theorem farBox_adds_infinity :
    Proximable.box (.number (.real (infinite false))) (.number (.real (infinite false))) .null
        = .ok Proximable.farBox ∧
      start (.array (samplePoint 1)) none (some [.term Proximable.farBox, .term .anyZero])
        pinnedParameters = .ok (pinnedState Proximable.farBox .anyZero) ∧
      (pinnedState Proximable.farBox .anyZero).momentum.IsFull ∧
      ∃ s v, iterateMany 2 (pinnedState Proximable.farBox .anyZero) = (s, .ok ()) ∧
        s.primalTerm.value s.x = .ok v ∧ v.realAt 0 = infinite false := by
  refine ⟨rfl, pinned_start rfl rfl, ⟨_, rfl, Number.is_one⟩, ?_⟩
  obtain ⟨s₁, hfirst, hterm, hreal, hmemory, hshape, hfar⟩ : ∃ s₁,
      iterateMany 1 (pinnedState Proximable.farBox .anyZero) = (s₁, .ok ()) ∧
        s₁.primalTerm = Proximable.farBox ∧ s₁.x.kind.isReal = true ∧ s₁.x.backend = .memory ∧
          s₁.x.shape = [1] ∧ s₁.x.realAt 0 = infinite false := by
    refine ⟨_, rfl, rfl, rfl, rfl, rfl, ?_⟩
    show finite 1 + (Scalar.ofInt 1 : Exact) * (infinite false - finite 1) = infinite false
    rw [ofInt_eq, Int.cast_one]
    exact congrArg (finite 1 + ·) (finite_mul_infinite one_pos false)
  obtain ⟨s, hrun⟩ : ∃ s,
      iterateMany 2 (pinnedState Proximable.farBox .anyZero) = (s, .ok ()) := ⟨_, rfl⟩
  have hpoint : s₁.x.Reads [1] fun _ => infinite false :=
    ⟨hshape, fun k hk => by rwa [Nat.lt_one_iff.mp hk]⟩
  have hsecond : s₁.iterate = (s, .ok ()) := (iterateMany_succ 1 _ hfirst).symm.trans hrun
  obtain ⟨hterm', hreal', hlost⟩ :=
    farBox_loses_point hterm hreal hmemory hpoint (outcome_of_iterate hsecond)
  obtain ⟨v, hv, hinfinite⟩ := farBox_value hlost hreal'
  exact ⟨s, v, hrun, hterm' ▸ hv, hinfinite⟩

end IterationState

end PrimalDual
