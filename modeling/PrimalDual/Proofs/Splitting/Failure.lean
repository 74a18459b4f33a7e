import PrimalDual.Proofs.NdArray.Covering
import PrimalDual.Proofs.Operator.Kinds
import PrimalDual.Proofs.Splitting.Admission
import PrimalDual.Proofs.Splitting.Iterate
import PrimalDual.Proofs.Splitting.Setup

/-!
# What a failing iteration leaves behind

An iteration computes both proximal points and the weight before it changes anything, so it leaves the
state as it was when one of them cannot be had.  After that it advances the schedule and moves the
point and the dual point, one after the other, and nothing is taken back.

* `NdArray.Receives`, `relax_ok_iff` — when a point can be moved toward another one.
* `IterationState.Outcome`, `iterate_outcome` — what an iteration comes to.
* `IterationState.Reachable` — the states that a setup and iterations lead to, failing ones included.
* **`failed_iterate_leaves`** — what has changed at each of them.
-/

namespace PrimalDual

open Exact NdArray

variable {α : Type} [Scalar α]

/-! ## Moving a point -/

namespace NdArray

/-- A point can be moved toward `v`: an array in memory keeps its shape and cannot take what is
chunked; a chunked one is bound anew. -/
def Receives (u v : NdArray α) : Prop :=
  match u.backend with
  | .memory => u.shape.Covers v.shape ∧ v.backend = .memory
  | .chunked => ∃ s, Shape.broadcast? v.shape u.shape = some s

variable {op : Operation} {a b u v d : NdArray α} {w : Number α}

/-- An update of floating-point elements by others. -/
lemma assign_ok_iff (hu : u.kind.isReal = true) (hd : d.kind.isReal = true) :
    (∃ y, u.assign d = .ok y) ↔
      u.backend = .chunked ∨ d.shape = u.shape ∧ d.backend = .memory := by
  obtain ⟨p, hp⟩ := exists_precision hu
  obtain ⟨q, hq⟩ := exists_precision hd
  rw [assign]
  cases hb : u.backend with
  | chunked => simp
  | memory =>
    by_cases hshape : d.shape = u.shape <;> cases hc : d.backend <;>
      simp [hp, hq, Kind.storable, hshape]

end NdArray

namespace IterationState

variable {u v y : NdArray α} {w : Number α} {shape : Shape}

/-- A move is stored once the weight is a scalar and the two points have a common shape. -/
lemma relax_eq_assign (hu : u.kind.isReal = true) {r : α} (hw : w.toReal = .ok r)
    (hs : Shape.broadcast? v.shape u.shape = some shape) :
    ∃ sum, relax w u v = u.assign sum ∧ sum.shape = shape ∧
      sum.backend = u.backend.join v.backend ∧ sum.kind.isReal = true := by
  obtain ⟨p, hsub⟩ := arith_arrays_eq .sub (a := v) (b := u) (Or.inr hu)
  obtain ⟨d, hd, hdshape, hdbackend, hdreal⟩ := zipReal_yields p Operation.sub.onReal hs
  obtain ⟨q, hmul⟩ := arith_number_eq .mul w hdreal
  obtain ⟨move, hmove, hmshape, hmbackend, hmreal⟩ := zipReal_yields q Operation.mul.onReal
    (a := .tabulate .memory [] q fun _ => Scalar.narrow q r) (b := d) (s := shape)
    (by rw [hdshape, Shape.broadcast?_comm]; exact Shape.broadcast?_nil shape)
  obtain ⟨t, hadd⟩ := arith_arrays_eq .add (a := u) (b := move) (Or.inl hu)
  obtain ⟨sum, hsum, hsshape, hsbackend, hsreal⟩ := zipReal_yields t Operation.add.onReal
    (a := u) (b := move) (s := shape)
    (by rw [hmshape, Shape.broadcast?_comm]; exact (Shape.covers_of_broadcast? hs).2)
  refine ⟨sum, ?_, hsshape, ?_, hsreal⟩
  · rw [relax, hsub, hd]
    show (arith .mul (.number w) (.array d) >>= _) = _
    rw [hmul, hw]
    simp only [bind, Except.bind, hmove, update, hadd, hsum]
  · rw [hsbackend, hmbackend, hdbackend]
    cases u.backend <;> cases v.backend <;> rfl

/-- Without a scalar weight or a common shape there is no move. -/
lemma relax_ok (hu : u.kind.isReal = true) (h : relax w u v = .ok y) :
    (∃ r, w.toReal = .ok r) ∧ ∃ s, Shape.broadcast? v.shape u.shape = some s := by
  rw [relax] at h
  obtain ⟨d, hd, h⟩ := ok_of_bind h
  obtain ⟨p, hsub⟩ := arith_arrays_eq .sub (a := v) (b := u) (Or.inr hu)
  rw [hsub] at hd
  obtain ⟨hs, -, hdreal⟩ := zipReal_ok hd
  obtain ⟨move, hmove, -⟩ := ok_of_bind h
  obtain ⟨q, hmul⟩ := arith_number_eq .mul w hdreal
  rw [hmul] at hmove
  obtain ⟨r, hr, -⟩ := ok_of_bind hmove
  exact ⟨⟨r, hr⟩, d.shape, hs⟩

/-- **A point is moved toward another one** exactly when the weight is a scalar and it can take the
result. -/
theorem relax_ok_iff (hu : u.kind.isReal = true) :
    (∃ y, relax w u v = .ok y) ↔ (∃ r, w.toReal = .ok r) ∧ u.Receives v := by
  have hassign : ∀ r s, w.toReal = .ok r → Shape.broadcast? v.shape u.shape = some s →
      ((∃ y, relax w u v = .ok y) ↔ u.backend = .chunked ∨ s = u.shape ∧ v.backend = .memory) := by
    intro r s hr hs
    obtain ⟨sum, hrelax, hshape, hbackend, hreal⟩ := relax_eq_assign hu hr hs
    rw [hrelax, assign_ok_iff hu hreal, hshape, hbackend]
    cases u.backend <;> cases v.backend <;> simp [Backend.join]
  constructor
  · rintro ⟨y, hy⟩
    obtain ⟨⟨r, hr⟩, s, hs⟩ := relax_ok hu hy
    refine ⟨⟨r, hr⟩, ?_⟩
    have hstored := (hassign r s hr hs).mp ⟨y, hy⟩
    rw [Receives]
    cases hb : u.backend with
    | chunked => exact ⟨s, hs⟩
    | memory =>
      obtain ⟨rfl, hv⟩ := hstored.resolve_left (by rw [hb]; decide)
      rw [Shape.broadcast?_comm] at hs
      exact ⟨hs, hv⟩
  · rintro ⟨⟨r, hr⟩, hreceives⟩
    rw [Receives] at hreceives
    cases hb : u.backend with
    | chunked =>
      rw [hb] at hreceives
      obtain ⟨s, hs⟩ := hreceives
      exact (hassign r s hr hs).mpr (Or.inl hb)
    | memory =>
      rw [hb] at hreceives
      obtain ⟨hcovers, hv⟩ := hreceives
      refine (hassign r u.shape hr ?_).mpr (Or.inr ⟨rfl, hv⟩)
      rw [Shape.broadcast?_comm]
      exact hcovers

lemma relax_isReal (hu : u.kind.isReal = true) (h : relax w u v = .ok y) : y.kind.isReal = true := by
  rw [relax] at h
  obtain ⟨d, -, h⟩ := ok_of_bind h
  obtain ⟨move, -, h⟩ := ok_of_bind h
  exact update_isReal hu h

/-! ## One iteration -/

variable {s t : IterationState α} {e : Fault}

/-- What an iteration comes to, by the place at which it fails. -/
inductive Outcome (s : IterationState α) : IterationState α → Except Fault Unit → Prop
  /-- A proximal point or the weight cannot be had. -/
  | refused {e : Fault} (h : ∀ P w, s.proximalPoints = .ok P → s.momentum.weight ≠ .ok w) :
      Outcome s s (.error e)
  /-- The point cannot be moved. -/
  | stuck {p q : NdArray α} {w : Number α} {e : Fault} (hpoints : s.proximalPoints = .ok (p, q))
      (hweight : s.momentum.weight = .ok w) (hx : relax w s.x p = .error e) :
      Outcome s { s with momentum := s.momentum.advance } (.error e)
  /-- The point has been moved, and the dual point cannot be. -/
  | halfway {p q x : NdArray α} {w : Number α} {e : Fault}
      (hpoints : s.proximalPoints = .ok (p, q)) (hweight : s.momentum.weight = .ok w)
      (hx : relax w s.x p = .ok x) (hz : relax w s.z q = .error e) :
      Outcome s ({ s with momentum := s.momentum.advance }.leaveBehind x) (.error e)
  /-- Nothing fails. -/
  | complete {p q x z : NdArray α} {w : Number α} (hpoints : s.proximalPoints = .ok (p, q))
      (hweight : s.momentum.weight = .ok w) (hx : relax w s.x p = .ok x)
      (hz : relax w s.z q = .ok z) :
      Outcome s { s with
        momentum := s.momentum.advance, x := x, z := z, p := p, q := q, dual := z, weight := some w }
        (.ok ())

lemma iterate_outcome (s : IterationState α) : s.Outcome s.iterate.1 s.iterate.2 := by
  rw [iterate]
  rcases hpoints : s.proximalPoints with e | ⟨p, q⟩
  · exact .refused fun P w hP => by
      rw [hpoints] at hP
      cases hP
  rcases hweight : s.momentum.weight with e | w
  · exact .refused fun P w _ hw => by
      rw [hweight] at hw
      cases hw
  rcases hx : relax w s.x p with e | x
  · simp only [hx]
    exact .stuck hpoints hweight hx
  rcases hz : relax w s.z q with e | z
  · simp only [hx, hz]
    exact .halfway hpoints hweight hx hz
  · simp only [hx, hz]
    exact .complete hpoints hweight hx hz

lemma outcome_of_iterate {r : Except Fault Unit} (h : s.iterate = (t, r)) : s.Outcome t r := by
  have houtcome := s.iterate_outcome
  rwa [h] at houtcome

/-! ## Reachable states -/

/-- The states that a setup and iterations lead to, whether these go through or fail. -/
inductive Reachable : IterationState α → Prop
  | start {x₀ : Value α} {f : Option (Smooth α)} {terms : Option (List (TermArgument α))}
      {given : Parameters α} {s : IterationState α} (h : start x₀ f terms given = .ok s) :
      Reachable s
  | iterate {s : IterationState α} (h : Reachable s) : Reachable s.iterate.1

lemma readPoint_isReal {x₀ : Value α} {x : NdArray α} (h : readPoint x₀ = .ok x) :
    x.kind.isReal = true := by
  cases x₀ with
  | array a =>
    cases h
    split
    · assumption
    · rw [convert]
      split
      · rename_i hreal hkind
        exact absurd (by rw [hkind]; rfl) hreal
      · rfl
  | _ => cases h

omit [Scalar α] in
lemma leaveBehind_isReal {x : NdArray α} (hx : s.x.kind.isReal = true)
    (hx' : x.kind.isReal = true) : (s.leaveBehind x).x.kind.isReal = true := by
  rw [leaveBehind]
  cases s.x.backend
  · exact hx'
  · exact hx

omit [Scalar α] in
lemma leaveBehind_z (s : IterationState α) (x : NdArray α) : (s.leaveBehind x).z = s.z := by
  rw [leaveBehind]
  cases s.x.backend <;> rfl

lemma Outcome.isReal {r : Except Fault Unit} (h : s.Outcome t r) (hx : s.x.kind.isReal = true)
    (hz : s.z.kind.isReal = true) : t.x.kind.isReal = true ∧ t.z.kind.isReal = true := by
  cases h with
  | refused _ => exact ⟨hx, hz⟩
  | stuck _ _ _ => exact ⟨hx, hz⟩
  | halfway _ _ hrelax _ =>
    rw [leaveBehind_z]
    exact ⟨leaveBehind_isReal hx (relax_isReal hx hrelax), hz⟩
  | complete _ _ hrelax hrelax' => exact ⟨relax_isReal hx hrelax, relax_isReal hz hrelax'⟩

/-- Points and dual points consist of floating-point numbers. -/
lemma Reachable.isReal (h : s.Reachable) : s.x.kind.isReal = true ∧ s.z.kind.isReal = true := by
  induction h with
  | start h =>
    have hx := readPoint_isReal (start_settled h).point
    exact ⟨hx, LinearOperator.map_isReal hx (start_settled h).image⟩
  | iterate _ ih => exact (iterate_outcome _).isReal ih.1 ih.2

/-! ## What is left behind -/

/-- The point and the dual point can take the moves toward `p` and `q`. -/
structure Takes (s : IterationState α) (w : Number α) (p q : NdArray α) : Prop where
  scalar : ∃ r, w.toReal = .ok r
  point : s.x.Receives p
  dual : s.z.Receives q

/-- **A failing iteration** never changes anything but the point and the schedule, and nothing at all
unless both proximal points and the weight are there and one of the iterates cannot take its move.
Then the schedule has been advanced, and the point is the old one if it could not be moved.  If the
dual point could not, a point in memory has been moved by then; a chunked one is still the old one. -/
theorem failed_iterate_leaves (hs : s.Reachable) (h : s.iterate = (t, .error e)) :
    t = { s with x := t.x, momentum := t.momentum } ∧
      ((∀ p q w, s.proximalPoints = .ok (p, q) → s.momentum.weight = .ok w → s.Takes w p q) →
        t = s) ∧
      ∀ p q w, s.proximalPoints = .ok (p, q) → s.momentum.weight = .ok w →
        t.momentum = s.momentum.advance ∧
          ((¬ ((∃ r, w.toReal = .ok r) ∧ s.x.Receives p) ∧ t.x = s.x) ∨
            (∃ x, relax w s.x p = .ok x ∧ ¬ s.z.Receives q ∧
              t.x = match s.x.backend with
                | .memory => x
                | .chunked => s.x)) := by
  obtain ⟨hxreal, hzreal⟩ := hs.isReal
  have hunique : ∀ {p q w p' q' w'}, s.proximalPoints = .ok (p, q) → s.momentum.weight = .ok w →
      s.proximalPoints = .ok (p', q') → s.momentum.weight = .ok w' → p' = p ∧ q' = q ∧ w' = w := by
    intro p q w p' q' w' hpoints hweight hpoints' hweight'
    rw [hpoints] at hpoints'
    rw [hweight] at hweight'
    cases hpoints'
    cases hweight'
    exact ⟨rfl, rfl, rfl⟩
  cases outcome_of_iterate h with
  | refused hnone =>
    exact ⟨rfl, fun _ => rfl, fun p q w hpoints hweight => absurd hweight (hnone _ w hpoints)⟩
  | @stuck p q w _ hpoints hweight hx =>
    have hrefused : ¬ ((∃ r, w.toReal = .ok r) ∧ s.x.Receives p) := by
      rw [← relax_ok_iff hxreal, hx]
      rintro ⟨y, hy⟩
      cases hy
    refine ⟨rfl, fun htakes => ?_, fun p' q' w' hpoints' hweight' => ?_⟩
    · have htake := htakes p q w hpoints hweight
      exact absurd ⟨htake.scalar, htake.point⟩ hrefused
    · obtain ⟨rfl, rfl, rfl⟩ := hunique hpoints hweight hpoints' hweight'
      exact ⟨rfl, Or.inl ⟨hrefused, rfl⟩⟩
  | @halfway p q x w _ hpoints hweight hx hz =>
    have hscalar := ((relax_ok_iff hxreal).mp ⟨x, hx⟩).1
    have hrefused : ¬ s.z.Receives q := by
      intro hreceives
      obtain ⟨z, hz'⟩ := (relax_ok_iff hzreal).mpr ⟨hscalar, hreceives⟩
      rw [hz] at hz'
      cases hz'
    refine ⟨?_, fun htakes => absurd (htakes p q w hpoints hweight).dual hrefused,
      fun p' q' w' hpoints' hweight' => ?_⟩
    · rw [leaveBehind]
      cases s.x.backend <;> rfl
    · obtain ⟨rfl, rfl, rfl⟩ := hunique hpoints hweight hpoints' hweight'
      rw [leaveBehind]
      cases s.x.backend
      · exact ⟨rfl, Or.inr ⟨x, hx, hrefused, rfl⟩⟩
      · exact ⟨rfl, Or.inr ⟨x, hx, hrefused, rfl⟩⟩

/-! ## A box that is too wide

The dual proximal point of a box with three bounds has three numbers, and the dual point has one.
-/

/-- The iteration at the number one for two terms and steps of length one. -/
noncomputable def pinnedState (first second : Proximable Exact) : IterationState Exact :=
  { sampleState (.constant (some (.int 1))) 1 with
    smooth := .anyZero
    first := first
    second := second
    tau := .number (.int 1)
    sigma := .number (.int 1) }

/-- The parameters that pin both steps and the weight. -/
def pinnedParameters : Parameters Exact :=
  [("tau", .number (.int 1)), ("sigma", .number (.int 1)), ("lambda", .number (.int 1))]

lemma pinned_start {first second : Proximable Exact} (hfirst : first.operator = none)
    (hsecond : second.operator = none) :
    start (.array (samplePoint 1)) none (some [.term first, .term second]) pinnedParameters
      = .ok (pinnedState first second) := by
  have hmethod : Method.ofTag (.text Method.plain.tag : Value Exact) = .ok .plain :=
    Method.ofTag_tag .plain
  have hweight : Momentum.ofMethod .plain (.number (.int 1))
      = .ok (.constant (some (.int 1)) : Momentum Exact) := by
    rw [Momentum.ofMethod, Momentum.ofWeight,
      if_pos ((Number.isPositive_iff Number.is_one).mpr one_pos)]
  have hsides : chooseSides first second = .ok (.direct, .anyIdentity) := by
    rw [chooseSides, hfirst, hsecond]
  show (do
    let sides ← chooseSides first second
    let steps ← stepSizes (.number (.real Scalar.zero)) (.number (.int 1)) (.number (.int 1))
      (.number (.int 1))
    let method ← Method.ofTag (.text Method.plain.tag)
    let momentum ← Momentum.ofMethod method (.number (.int 1))
    let x ← readPoint (.array (samplePoint 1))
    let z ← sides.2.map x
    pure { pinnedState first second with
      tau := steps.1, sigma := steps.2, method := method, momentum := momentum, order := sides.1,
      operator := sides.2, x := x, z := z, p := x, q := z.zerosLike, dual := z }
      : Except Fault (IterationState Exact)) = _
  rw [stepSizes_both_eq Number.is_one one_pos, hsides]
  simp only [bind, Except.bind, hmethod, hweight]
  rfl

/-- The numbers between zero and one, three at a time. -/
noncomputable def wideBox : Proximable Exact :=
  let bound (y : ℝ) : Value Exact := .array (.tabulate .memory [3] .double fun _ => finite y)
  .plain (.box (bound 0) (bound 1)) none none

/-- A setup with the box on the dual side: the sizes of bounds are not looked at. -/
lemma wideBox_reachable : (pinnedState .anyZero wideBox).Reachable :=
  .start (pinned_start rfl rfl)

/-- The iteration fails there, and keeps all but the point and the schedule. -/
theorem wideBox_keeps_dual :
    ∃ t, (pinnedState .anyZero wideBox).Reachable ∧
      (pinnedState .anyZero wideBox).iterate = (t, .error .shapeMismatch) ∧
      t = { pinnedState .anyZero wideBox with x := t.x, momentum := t.momentum } :=
  ⟨_, wideBox_reachable, rfl, (failed_iterate_leaves wideBox_reachable rfl).1⟩

/-- The iteration fails there after the point has been moved from one to zero. -/
theorem wideBox_moves_point :
    ∃ t, (pinnedState .anyZero wideBox).Reachable ∧
      (pinnedState .anyZero wideBox).iterate = (t, .error .shapeMismatch) ∧
      (pinnedState .anyZero wideBox).x.realAt 0 = finite 1 ∧ t.x.realAt 0 = finite 0 ∧
      t.x ≠ (pinnedState .anyZero wideBox).x := by
  obtain ⟨t, hiterate, hread⟩ : ∃ t, (pinnedState .anyZero wideBox).iterate
      = (t, .error .shapeMismatch) ∧ t.x.realAt 0 = finite 0 := by
    refine ⟨_, rfl, ?_⟩
    show finite (1 + _ * (_ - 1)) = finite 0
    norm_num
  refine ⟨t, wideBox_reachable, hiterate, rfl, hread, fun hsame => ?_⟩
  rw [hsame] at hread
  exact one_ne_zero (finite.inj hread)

end IterationState

end PrimalDual
