import PrimalDual.Proofs.Splitting.Admission
import PrimalDual.Proofs.Splitting.Driver
import PrimalDual.Proofs.Splitting.Failure
import PrimalDual.Proofs.Splitting.Objections
import PrimalDual.Proofs.Splitting.Sizes

/-!
# How a setup ends

A setup blames its caller if and only if one of its checks has something to object to, and then for
the first objection.  The steps are computed on the way, and whatever numbers they are pinned to, their
arithmetic fails for nothing else.  The point comes last, and is never blamed on the parameters.

* `stepSizes_failsBy` — steps are refused by the checks of the steps only.
* `LinearOperator.map_failsBy` — an operator that cannot take a point is not the parameters' fault.
* `Parameters.HandedBack`, `sanitized_handedBack` — the parameters that are handed back.
* `IterationState.NeverMoves`, `neverMoves_of_missing` — without a weight the iteration stays where it
  is.
* `IterationState.ReportsFirst`, `reportsFirst` — who is to blame, and for what.
* `IterationState.LeadsTo`, `leadsTo_of_unobjected` — what a setup begins with if nothing objects.
* `IterationState.Judged`, `JudgedExactly` — the whole verdict, in any arithmetic and in an exact one.
* **`IterationState.setup_judged`** — every setup is judged like this.
-/

namespace PrimalDual

open Exact

/-! ## Steps -/

/-- The cause is one that the caller has to repair. -/
def Fault.IsConfiguration (e : Fault) : Prop := e.category = .configuration

/-- A curvature is a real number that is not negative, or infinite. -/
def Exact.IsCurvature (e : Exact) : Prop := (∃ β, e = finite β ∧ 0 ≤ β) ∨ e = infinite false

/-- A step is left open, or pinned to any number. -/
def Value.IsStep (v : Value Exact) : Prop := v = .null ∨ ∃ n, v = .number n

section

variable {beta : Exact} {nu t s : Number Exact} {tau sigma : Value Exact}

lemma readNu_failsBy (v : Value Exact) : FailsBy (readNu v) Fault.IsConfiguration := by
  cases v with
  | number n =>
    rw [readNu]
    split
    · exact .ok
    · exact .error rfl
  | _ => exact .error rfl

lemma int_two_ne_zero : (Number.int 2 : Number Exact).value ≠ finite 0 := by
  rw [Number.is_two]
  exact fun h => two_ne_zero (finite.inj h)

lemma freeSteps_failsBy (hnu : nu.isPositive = true) :
    FailsBy (freeSteps (.real beta) nu) Fault.IsConfiguration := by
  rw [freeSteps]
  split
  · rename_i hbounds
    have hbeta := Number.ne_zero_of_isPositive (Bool.and_eq_true_iff.mp hbounds).1
    refine .bind (.of_yields (Number.div_value (.int 1) hbeta)) fun tau _ => ?_
    refine .bind (.of_yields (Number.mul_value (.int 2) nu)) fun twice htwice => ?_
    have hvalue := (Number.mul_value (.int 2) nu).of_eq_ok htwice
    have htwice : twice.value ≠ finite 0 := by
      rw [hvalue, Number.is_two]
      rcases Number.isPositive_cases hnu with ⟨ν, hν, hν0⟩ | rfl
      · rw [hν, finite_mul]
        exact fun h => (by positivity : (2 : ℝ) * ν ≠ 0) (finite.inj h)
      · rw [show (Number.real (infinite false)).value = infinite false from rfl,
          finite_mul_infinite two_pos]
        exact infinite_ne_finite
    exact .bind (.of_yields (Number.div_value (.real beta) htwice)) fun sigma _ => .ok
  · exact .error rfl

/-- The dual step that goes with a primal one is only negative beside a curvature. -/
lemma curvature_ne_zero {i half gap q : Number Exact} (hbeta : beta.IsCurvature)
    (hnu : nu.isPositive = true) (ht : t.isPositive = true) (hi : i.value = finite 1 / t.value)
    (hhalf : half.value = beta / finite 2) (hgap : gap.value = i.value - half.value)
    (hq : q.value = gap.value / nu.value) (hneg : q.below (.int 0) = true) : beta ≠ finite 0 := by
  rintro rfl
  have hi' : ∃ ι, i.Is ι ∧ 0 ≤ ι := by
    rcases Number.isPositive_cases ht with ⟨τ, hτ, hτ0⟩ | rfl
    · rw [hτ, finite_div 1 hτ0.ne'] at hi
      exact ⟨_, hi, by positivity⟩
    · exact ⟨0, hi, le_refl 0⟩
  obtain ⟨ι, hι, hι0⟩ := hi'
  rw [finite_div 0 two_ne_zero, zero_div] at hhalf
  rw [hι, hhalf, finite_sub, sub_zero] at hgap
  have hq' : ∃ y, q.Is y ∧ 0 ≤ y := by
    rcases Number.isPositive_cases hnu with ⟨ν, hν, hν0⟩ | rfl
    · rw [hgap, hν, finite_div ι hν0.ne'] at hq
      exact ⟨_, hq, by positivity⟩
    · rw [hgap] at hq
      exact ⟨0, hq, le_refl 0⟩
  obtain ⟨y, hy, hy0⟩ := hq'
  have hlt := (Number.below_iff hy (Number.is_int 0)).mp hneg
  rw [Int.cast_zero] at hlt
  exact absurd hlt hy0.not_gt

lemma dualStep_failsBy (hbeta : beta.IsCurvature) (hnu : nu.isPositive = true)
    (ht : t.isPositive = true) : FailsBy (dualStep (.real beta) nu t) Fault.IsConfiguration := by
  have hinverse := Number.div_value (.int 1) (Number.ne_zero_of_isPositive ht)
  have hhalves := Number.div_value (.real beta) int_two_ne_zero
  refine .bind (.of_yields hinverse) fun i hi => ?_
  refine .bind (.of_yields hhalves) fun half hhalf => ?_
  refine .bind (.of_yields (Number.sub_value i half)) fun gap hgap => ?_
  have hquotient := Number.div_value gap (Number.ne_zero_of_isPositive hnu)
  refine .bind (.of_yields hquotient) fun q hq => ?_
  split
  · rename_i hneg
    have hivalue := hinverse.of_eq_ok hi
    rw [Number.is_one] at hivalue
    have hhalfvalue := hhalves.of_eq_ok hhalf
    rw [Number.is_two] at hhalfvalue
    have hlimit : (Number.real beta).value ≠ finite 0 :=
      curvature_ne_zero hbeta hnu ht hivalue hhalfvalue
        ((Number.sub_value i half).of_eq_ok hgap) (hquotient.of_eq_ok hq) hneg
    exact .bind (.of_yields (Number.div_value (.int 2) hlimit)) fun limit _ => .error rfl
  · exact .ok

lemma primalStep_failsBy (hbeta : beta.IsCurvature) (hnu : nu.isPositive = true)
    (hs : s.isPositive = true) : FailsBy (primalStep (.real beta) nu s) Fault.IsConfiguration := by
  rw [primalStep]
  split
  · rename_i hbounded
    rcases hbeta with ⟨β, rfl, hβ0⟩ | rfl
    swap
    · cases hbounded
    have hhalves := Number.div_value (.real (finite β)) int_two_ne_zero
    refine .bind (.of_yields (Number.mul_value s nu)) fun product hproduct => ?_
    refine .bind (.of_yields hhalves) fun half hhalf => ?_
    refine .bind (.of_yields (Number.add_value product half)) fun total htotal => ?_
    have hproduct := (Number.mul_value s nu).of_eq_ok hproduct
    have hhalf : half.value = finite (β / 2) := by
      rw [hhalves.of_eq_ok hhalf, Number.is_two]
      exact finite_div β two_ne_zero
    have htotal := (Number.add_value product half).of_eq_ok htotal
    have hne : total.value ≠ finite 0 := by
      rw [htotal, hproduct, hhalf]
      rcases Number.isPositive_cases hs with ⟨σ, hσ, hσ0⟩ | rfl
      · rcases Number.isPositive_cases hnu with ⟨ν, hν, hν0⟩ | rfl
        · rw [hσ, hν, finite_mul, finite_add]
          exact fun h => (by positivity : σ * ν + β / 2 ≠ 0) (finite.inj h)
        · rw [hσ, show (Number.real (infinite false)).value = infinite false from rfl,
            finite_mul_infinite hσ0]
          exact infinite_ne_finite
      · rcases Number.isPositive_cases hnu with ⟨ν, hν, hν0⟩ | rfl
        · have hinfinite : infinite false * finite ν = infinite false := by
            show infinityLike (if false then -ν else ν) = _
            rw [if_neg Bool.false_ne_true, infinityLike, if_pos hν0]
          rw [hν, show (Number.real (infinite false)).value = infinite false from rfl, hinfinite]
          exact infinite_ne_finite
        · exact infinite_ne_finite
    exact .of_yields (Number.div_value (.int 1) hne)
  · exact .error rfl

/-- **The steps are refused by their own checks only**, whatever numbers they are pinned to. -/
theorem stepSizes_failsBy (hbeta : beta.IsCurvature) (nu : Value Exact) (htau : tau.IsStep)
    (hsigma : sigma.IsStep) :
    FailsBy (stepSizes (.number (.real beta)) nu tau sigma) Fault.IsConfiguration := by
  unfold stepSizes
  refine .bind (readNu_failsBy nu) fun n hn => ?_
  have hpos : n.isPositive = true := by
    cases nu with
    | number k =>
      obtain ⟨rfl, hk⟩ := readNu_ok hn
      exact hk
    | _ => cases hn
  rcases htau with rfl | ⟨t, rfl⟩ <;> rcases hsigma with rfl | ⟨s, rfl⟩
  · show FailsBy (freeSteps (.real beta) n >>= _) _
    exact .bind (freeSteps_failsBy hpos) fun _ _ => .ok
  · show FailsBy (if !s.isPositive then _ else _) _
    split
    · exact .error rfl
    · rename_i hs
      show FailsBy (primalStep (.real beta) n s >>= _) _
      exact .bind (primalStep_failsBy hbeta hpos (by simpa using hs)) fun _ _ => .ok
  · show FailsBy (if !t.isPositive then _ else _) _
    split
    · exact .error rfl
    · rename_i ht
      show FailsBy (dualStep (.real beta) n t >>= _) _
      exact .bind (dualStep_failsBy hbeta hpos (by simpa using ht)) fun _ _ => .ok
  · exact .ok

/-- A primal step that has been found is a number. -/
lemma stepSizes_number {tau₀ sigma₀ nu : Value Exact} (htau : tau₀.IsStep) (hsigma : sigma₀.IsStep)
    (h : stepSizes (.number (.real beta)) nu tau₀ sigma₀ = .ok (tau, sigma)) :
    ∃ t, tau = .number t := by
  cases nu with
  | number k =>
    by_cases hfree : tau₀ = .null ∨ sigma₀ = .null
    · obtain ⟨-, t, s, ht, -⟩ := stepSizes_ok hfree h
      exact ⟨t, ht⟩
    · obtain ⟨htau', hsigma'⟩ := not_or.mp hfree
      obtain ⟨t, rfl⟩ := htau.resolve_left htau'
      obtain ⟨s, rfl⟩ := hsigma.resolve_left hsigma'
      obtain ⟨n, -, h⟩ := ok_of_bind h
      cases h
      exact ⟨t, rfl⟩
  | _ => cases h

end

/-! ## Points -/

section

variable {α : Type} [Scalar α] {K : LinearOperator α} {x y : NdArray α}

namespace NdArray

/-- The array in floating point. -/
def floating (a : NdArray α) : NdArray α := if a.kind.isReal then a else a.convert .double

lemma floating_isReal (a : NdArray α) : a.floating.kind.isReal = true := by
  have hread : IterationState.readPoint (.array a) = .ok a.floating := rfl
  exact IterationState.readPoint_isReal hread

/-- Floating-point elements are multiplied by a number in place. -/
lemma update_number_completes (op : Operation) (c : α) (hx : x.kind.isReal = true) :
    ∃ y, x.update op (.number (.real c)) = .ok y := by
  obtain ⟨p, hp⟩ := exists_precision hx
  obtain ⟨d, hd, hshape, hbackend, hreal⟩ := zipReal_yields p op.onReal (a := x)
    (b := .tabulate .memory [] p fun _ => Scalar.narrow p c) (Shape.broadcast?_nil x.shape)
  have harith : arith op (.array x) (.number (.real c)) = .ok d := by
    rw [arith, hp]
    exact hd
  have hassign : ∃ y, x.assign d = .ok y := by
    rw [assign_ok_iff hx hreal, hshape, hbackend]
    rw [show (NdArray.tabulate Backend.memory [] p fun _ => Scalar.narrow p c).backend = .memory
      from rfl, Backend.join_memory]
    cases x.backend <;> simp
  obtain ⟨y, hy⟩ := hassign
  exact ⟨y, by rw [update, harith]; exact hy⟩

lemma floating_shape (a : NdArray α) : a.floating.shape = a.shape := by
  rw [floating]
  split
  · rfl
  · rw [convert]
    split <;> rfl

/-- Elements are not changed. -/
lemma floating_realAt (a : NdArray Exact) {i : ℕ} (h : i < a.size) :
    a.floating.realAt i = a.realAt i := by
  rw [floating]
  split
  · rfl
  · rw [convert]
    split
    · rfl
    · exact realAt_tabulate _ _ _ _ _ h

end NdArray

namespace LinearOperator

lemma sparse_product_failsBy (m : SparseMatrix α) (x : NdArray α) :
    FailsBy (m.product x) (¬ Fault.IsConfiguration ·) := by
  have hreshape (s : Shape) (a : NdArray α) :
      FailsBy (a.reshape s) (¬ Fault.IsConfiguration ·) := by
    rw [NdArray.reshape]
    split
    · exact .ok
    · exact .error (by rintro ⟨⟩)
  rw [SparseMatrix.product]
  split
  · exact .error (by rintro ⟨⟩)
  · split
    · exact .error (by rintro ⟨⟩)
    · refine .bind (hreshape _ _) fun points _ => .bind ?_ fun images _ => hreshape _ _
      rw [SparseMatrix.dot]
      split
      · exact .error (by rintro ⟨⟩)
      · exact .ok

/-- **An operator that cannot take a point** is not to blame on parameters. -/
lemma map_failsBy (hx : x.kind.isReal = true) :
    FailsBy (K.map x) (¬ Fault.IsConfiguration ·) := by
  rw [map]
  split
  · exact .ok
  · obtain ⟨y, hy⟩ := x.update_number_completes .mul _ hx
    rw [hy]
    exact .ok
  · rw [differences]
    split
    · exact .error (by rintro ⟨⟩)
    · exact .error (by rintro ⟨⟩)
    · exact .ok
    · exact .ok
  · rw [product]
    split
    · exact .error (by rintro ⟨⟩)
    · split
      · exact .error (by rintro ⟨⟩)
      · exact .ok
  · exact sparse_product_failsBy _ x
  · exact .error (by rintro ⟨⟩)

end LinearOperator

lemma Method.ofTag_failsBy (tag : Value α) : FailsBy (Method.ofTag tag) Fault.IsConfiguration := by
  unfold ofTag
  dsimp only
  split
  · exact .ok
  · exact .error rfl

lemma IterationState.readPoint_failsBy (x₀ : Value α) :
    FailsBy (IterationState.readPoint x₀) (¬ Fault.IsConfiguration ·) := by
  cases x₀ with
  | array a => exact .ok
  | _ => exact .error nofun

end

/-! ## The parameters that are handed back -/

namespace Parameters

variable {α : Type} {ps : Parameters α} {name other : String} {v w : Value α}

/-- What a setup fills in, the policy aside. -/
def setupDefaults : Parameters α :=
  [("rescale", .number (.bool false)), ("nu", .number (.int 1)), ("abs_tol", .number (.bool true)),
    ("use_dual", .number (.bool true))]

/-- The parameters `back` are the given ones with the defaults, but for the policy, which takes the
place of its tag. -/
def HandedBack (given back : Parameters α) (method : Method) : Prop :=
  ∀ name w, back.getD name w = if name = "method" then method.asValue
    else given.getD name (setupDefaults.getD name w)

lemma getD_setDefault : (ps.setDefault other v).getD name w
    = if name = other then ps.getD name v else ps.getD name w := by
  split_ifs with h
  · subst h
    exact getD_setDefault_self
  · exact getD_setDefault_of_ne (Ne.symm h)

lemma getD_set : (ps.set other v).getD name w = if name = other then v else ps.getD name w := by
  rw [set]
  split
  · rename_i hhas
    -- no entry changes its name
    have hname : ((fun entry : String × Value α => entry.1 == name) ∘ fun entry =>
        if entry.1 == other then (other, v) else entry) = fun entry => entry.1 == name := by
      funext entry
      by_cases hentry : entry.1 = other
      · simp [hentry]
      · simp [hentry]
    rw [getD, List.find?_map, hname, getD]
    cases hfound : ps.find? (fun entry => entry.1 == name) with
    | some entry =>
      have hentry : entry.1 = name := by simpa using List.find?_some hfound
      by_cases h : name = other
      · simp [hentry, h]
      · simp [hentry, h]
    | none =>
      have hother : name ≠ other := by
        rintro rfl
        obtain ⟨entry, hmem, hentry⟩ := List.any_eq_true.mp hhas
        exact List.find?_eq_none.mp hfound entry hmem hentry
      rw [if_neg hother]
      rfl
  · rename_i hhas
    have hset : ps ++ [(other, v)] = ps.setDefault other v := by rw [setDefault, if_neg hhas]
    rw [hset, getD_setDefault]
    split_ifs with h
    · subst h
      rw [getD_of_not_mem]
      intro hmem
      obtain ⟨entry, hentry, hname⟩ := List.mem_map.mp hmem
      exact hhas (List.any_eq_true.mpr ⟨entry, hentry, by rw [hname, beq_self_eq_true]⟩)
    · rfl

/-- **The parameters that are handed back** are the given ones and the defaults. -/
lemma sanitized_handedBack (given : Parameters α) (method : Method) :
    given.HandedBack (given.sanitized method) method := by
  intro name w
  simp only [sanitized, withHints, withDefaults, getD_setDefault, getD_set]
  by_cases hrescale : name = "rescale"
  · subst hrescale
    rfl
  by_cases hnu : name = "nu"
  · subst hnu
    rfl
  by_cases hmethod : name = "method"
  · subst hmethod
    rfl
  by_cases habs : name = "abs_tol"
  · subst habs
    rfl
  by_cases hdual : name = "use_dual"
  · subst hdual
    rfl
  simp only [hrescale, hnu, hmethod, habs, hdual, if_false]
  rw [setupDefaults, getD_cons_of_ne (Ne.symm hrescale), getD_cons_of_ne (Ne.symm hnu),
    getD_cons_of_ne (Ne.symm habs), getD_cons_of_ne (Ne.symm hdual)]
  rfl

end Parameters

namespace IterationState

/-! ## Without a weight -/

/-- The plain method has been chosen, and no weight for it. -/
def LacksWeight {α : Type} (s : IterationState α) (given : Parameters α) : Prop :=
  s.method = .plain ∧ given.get "lambda" = .null

/-- However often an iteration is attempted, it fails and leaves the state alone.  It is the missing
weight that is reported if nothing else is in the way. -/
structure NeverMoves {α : Type} [Scalar α] (s : IterationState α) : Prop where
  stays : ∀ j, (fun u : IterationState α => u.iterate.1)^[j] s = s
  fails : ∃ e, s.iterate = (s, .error e) ∧ ∀ points, s.proximalPoints = .ok points → e = .lambdaMissing

section

lemma neverMoves_of_missing {α : Type} [Scalar α] {s : IterationState α}
    (h : s.momentum = .constant none) : s.NeverMoves where
  stays j := by
    obtain ⟨e, he, -⟩ := iterate_of_missing h
    exact Function.iterate_fixed (congrArg Prod.fst he) j
  fails := iterate_of_missing h

variable {s : IterationState Exact} {lead : Shape} {m n : ℕ} {t k : Number Exact}

/-- Where the sizes match, an iteration fails for the weight and for nothing else. -/
lemma iterate_of_sizesMatch (h : s.momentum = .constant none) (hsizes : s.SizesMatch lead m n)
    (ht : s.tau = .number t) (hk : s.sigma = .number k) (hpos : k.isPositive = true) :
    s.iterate = (s, .error .lambdaMissing) := by
  obtain ⟨r, hr, -⟩ := Number.div_value (.int 1) (Number.ne_zero_of_isPositive hpos)
  obtain ⟨P, hP⟩ := hsizes.proximalPoints ht hk hr
  obtain ⟨e, he, hmissing⟩ := iterate_of_missing h
  rw [he, hmissing P hP]

end

/-! ## The setup -/

/-- The state begins at the point `v` and its image `z`, for what has been asked: both proximal points
are put at the beginning, and there is no weight yet. -/
structure Begins {α : Type} [Scalar α] (s : IterationState α) (f : Option (Smooth α))
    (a b : TermArgument α) (given : Parameters α) (v z : NdArray α) : Prop where
  smooth : s.smooth = f.getD .anyZero
  terms : s.first = a.filled ∧ s.second = b.filled
  sides : (s.order, s.operator) = sides a.filled b.filled
  steps : given.askedSteps f = .ok (s.tau, s.sigma)
  method : given.askedMethod = .ok s.method
  momentum : Momentum.ofMethod s.method (given.get "lambda") = .ok s.momentum
  point : s.x = v
  image : s.z = z
  dual : s.dual = z
  p : s.p = v
  q : s.q = z.zerosLike
  weight : s.weight = none

/-! ## Verdicts -/

section

variable {α : Type} [Scalar α]

/-- The setup is refused, and its caller is to blame. -/
def BlamesCaller (x₀ : Value α) (f : Option (Smooth α)) (terms : List (TermArgument α))
    (given : Parameters α) : Prop :=
  ∃ e, setup x₀ f (some terms) given = .error e ∧ e.IsConfiguration

/-- No check has anything to object to. -/
def Unobjected (f : Option (Smooth α)) (terms : List (TermArgument α)) (given : Parameters α) : Prop :=
  ∀ c e, ¬ Objects f terms given c e

/-- What is reported is what the first check objects to that objects to anything, and the caller is to
blame if and only if this objection blames it. -/
structure ReportsFirst (x₀ : Value α) (f : Option (Smooth α)) (terms : List (TermArgument α))
    (given : Parameters α) : Prop where
  reported : ∀ c e, FirstObjection f terms given c e → setup x₀ f (some terms) given = .error e
  blames_iff : BlamesCaller x₀ f terms given ↔
    ∃ c e, FirstObjection f terms given c e ∧ e.IsConfiguration
  /-- All objections blame the caller, but for those of the arithmetic of the steps. -/
  steps_or : ∀ c e, Objects f terms given c e → c = .steps ∨ e.IsConfiguration

/-- The setup goes through and leads to the state `s`, which begins at the point `v` and its image
`z`. -/
structure LeadsTo (x₀ : Value α) (f : Option (Smooth α)) (a b : TermArgument α)
    (given : Parameters α) (v z : NdArray α) (s : IterationState α) : Prop where
  returned : setup x₀ f (some [a, b]) given = .ok (s, given.sanitized s.method)
  begins : s.Begins f a b given v z

/-- The verdict on a setup, in any arithmetic. -/
structure Judged (x₀ : Value α) (f : Option (Smooth α)) (terms : List (TermArgument α))
    (given : Parameters α) : Prop where
  refusal : ReportsFirst x₀ f terms given
  /-- It begins at the point in floating point, if the operator takes that. -/
  beginning : Unobjected f terms given → ∃ a b, terms = [a, b] ∧ ∀ v z, x₀ = .array v →
    (sides a.filled b.filled).2.map v.floating = .ok z →
      ∃ s, LeadsTo x₀ f a b given v.floating z s ∧ (s.LacksWeight given → s.NeverMoves)
  handedBack : ∀ method, given.HandedBack (given.sanitized method) method

/-- The verdict on a setup, in exact arithmetic. -/
structure JudgedExactly (x₀ : Value Exact) (f : Option (Smooth Exact))
    (terms : List (TermArgument Exact)) (given : Parameters Exact) : Prop where
  blames_iff : BlamesCaller x₀ f terms given ↔ ∃ c e, Objects f terms given c e
  /-- The operator takes every point of its size, the elements of which are kept.  Where the sizes
  match and the dual step is positive, nothing but a missing weight is in the way. -/
  beginning : Unobjected f terms given → ∃ a b, terms = [a, b] ∧ ∀ v lead m n,
    x₀ = .array v → v.shape = lead ++ [n] → (sides a.filled b.filled).2.rule.Takes m n →
      ∃ s z, (sides a.filled b.filled).2.map v.floating = .ok z ∧
        LeadsTo x₀ f a b given v.floating z s ∧
        (∀ i < v.size, v.floating.realAt i = v.realAt i) ∧
        (s.LacksWeight given → s.SizesMatch lead m n →
          ∀ k, s.sigma = .number k → k.isPositive = true → s.iterate = (s, .error .lambdaMissing))

variable {x₀ : Value α} {f : Option (Smooth α)} {terms : List (TermArgument α)}
  {given : Parameters α} {c : Check} {e : Fault}

/-- A plain method that has been given no weight has none. -/
lemma Begins.weightless {s : IterationState α} {a b : TermArgument α} {v z : NdArray α}
    (h : s.Begins f a b given v z) (hlacks : s.LacksWeight given) : s.momentum = .constant none := by
  have hasked := h.momentum
  rw [hlacks.1, hlacks.2] at hasked
  exact (Except.ok.inj hasked).symm

lemma setup_eq_error (h : start x₀ f (some terms) given = .error e) :
    setup x₀ f (some terms) given = .error e := by
  rw [setup, h]
  rfl

/-- The first objection is reported. -/
lemma setup_of_first (hterms : ∀ t ∈ terms, t.IsTerm) (h : FirstObjection f terms given c e) :
    setup x₀ f (some terms) given = .error e := by
  rcases start_cases x₀ f given hterms with
    ⟨c', e', hfirst, hstart⟩ | ⟨hpassed, -⟩
  · rw [h.unique hfirst]
    exact setup_eq_error hstart
  · exact absurd h.objects (hpassed.none c e)

/-- A setup that its checks let through is refused for the point only. -/
lemma failsBy_of_unobjected (x₀ : Value α) (hterms : ∀ t ∈ terms, t.IsTerm)
    (h : Unobjected f terms given) :
    FailsBy (setup x₀ f (some terms) given) (¬ Fault.IsConfiguration ·) := by
  rcases start_cases x₀ f given hterms with
    ⟨c', e', hfirst, -⟩ | ⟨-, a, b, steps, method, momentum, rfl, -, -, -, hstart⟩
  · exact absurd hfirst.objects (h c' e')
  · rw [setup, hstart]
    refine .bind (.bind (readPoint_failsBy x₀) fun x hx => ?_) fun s _ => .ok
    exact .bind (LinearOperator.map_failsBy (readPoint_isReal hx)) fun z _ => .ok

/-- It leads to the state that begins at the point, if the operator takes that. -/
lemma leadsTo_of_unobjected (x₀ : Value α) (hterms : ∀ t ∈ terms, t.IsTerm)
    (h : Unobjected f terms given) :
    ∃ a b, terms = [a, b] ∧ ∀ v z, x₀ = .array v →
      (sides a.filled b.filled).2.map v.floating = .ok z →
        ∃ s, LeadsTo x₀ f a b given v.floating z s := by
  rcases start_cases x₀ f given hterms with
    ⟨c', e', hfirst, -⟩ | ⟨-, a, b, steps, method, momentum, rfl, hsteps, hmethod, hmomentum, hstart⟩
  · exact absurd hfirst.objects (h c' e')
  refine ⟨a, b, rfl, ?_⟩
  rintro v z rfl hz
  have hpoint : readPoint (.array v) = .ok v.floating := rfl
  have hreturned : setup (.array v) f (some [a, b]) given
      = .ok (beginning f a.filled b.filled steps method momentum v.floating z,
        given.sanitized method) := by
    rw [setup, hstart, hpoint]
    simp only [bind, Except.bind, hz]
    rfl
  exact ⟨_, hreturned, rfl, ⟨rfl, rfl⟩, rfl, hsteps, hmethod, hmomentum, rfl, rfl, rfl, rfl, rfl, rfl⟩

/-- Every objection is to something that the caller asked for, but for what the arithmetic of the steps
runs into. -/
lemma steps_or_isConfiguration (h : Objects f terms given c e) : c = .steps ∨ e.IsConfiguration := by
  cases h with
  | steps h => exact Or.inl rfl
  | method h => exact Or.inr (Method.ofTag_failsBy _ e h)
  | _ => exact Or.inr rfl

/-- The caller is blamed for the first objection only. -/
lemma blamesCaller_iff (x₀ : Value α) (hterms : ∀ t ∈ terms, t.IsTerm) :
    BlamesCaller x₀ f terms given ↔
      ∃ c e, FirstObjection f terms given c e ∧ e.IsConfiguration := by
  constructor
  · rintro ⟨e, herror, he⟩
    rcases start_cases x₀ f given hterms with ⟨c, e', hfirst, hstart⟩ | ⟨hpassed, -⟩
    · cases herror.symm.trans (setup_eq_error hstart)
      exact ⟨c, e, hfirst, he⟩
    · exact absurd he (failsBy_of_unobjected x₀ hterms hpassed.none e herror)
  · rintro ⟨c, e, hfirst, he⟩
    exact ⟨e, setup_of_first hterms hfirst, he⟩

/-- **The first objection is reported.** -/
lemma reportsFirst (x₀ : Value α) (hterms : ∀ t ∈ terms, t.IsTerm) :
    ReportsFirst x₀ f terms given where
  reported _ _ := setup_of_first hterms
  blames_iff := blamesCaller_iff x₀ hterms
  steps_or _ _ := steps_or_isConfiguration

/-- Where something objects, something objects first. -/
lemma exists_firstObjection (hterms : ∀ t ∈ terms, t.IsTerm) (h : Objects f terms given c e) :
    ∃ c e, FirstObjection f terms given c e := by
  rcases start_cases .null f given hterms with ⟨c, e, hfirst, -⟩ | ⟨hpassed, -⟩
  · exact ⟨c, e, hfirst⟩
  · exact absurd h (hpassed.none c e)

end

variable {f : Option (Smooth Exact)} {terms : List (TermArgument Exact)} {given : Parameters Exact}

/-- The steps of real numbers run into nothing. -/
lemma isConfiguration_of_objects (hf : (f.getD .anyZero).curvature.IsCurvature)
    (hτ : (given.get "tau").IsStep) (hσ : (given.get "sigma").IsStep) {c : Check} {e : Fault}
    (h : Objects f terms given c e) : e.IsConfiguration := by
  rcases steps_or_isConfiguration h with rfl | he
  · cases h with
    | steps h => exact stepSizes_failsBy hf _ hτ hσ e h
  · exact he

/-- In exact arithmetic the caller is to blame for every objection. -/
lemma blamesCaller_iff_objects (x₀ : Value Exact) (hterms : ∀ t ∈ terms, t.IsTerm)
    (hf : (f.getD .anyZero).curvature.IsCurvature) (hτ : (given.get "tau").IsStep)
    (hσ : (given.get "sigma").IsStep) :
    BlamesCaller x₀ f terms given ↔ ∃ c e, Objects f terms given c e := by
  rw [blamesCaller_iff x₀ hterms]
  constructor
  · rintro ⟨c, e, hfirst, -⟩
    exact ⟨c, e, hfirst.objects⟩
  · rintro ⟨c, e, hobjects⟩
    obtain ⟨c, e, hfirst⟩ := exists_firstObjection hterms hobjects
    exact ⟨c, e, hfirst, isConfiguration_of_objects hf hτ hσ hfirst.objects⟩

/--
**A setup blames its caller for the first objection, and if there is none, for nothing.**  For any
terms, each of them absent or not, any smooth term and any parameters, in any arithmetic (`Judged`):

* what is reported is what the first check objects to that objects to anything, and the caller is to
  blame if and only if this objection blames it; all of them do, but for those of the arithmetic of the
  steps;
* otherwise, for a point that the operator takes, the setup goes through.  The iteration begins at
  that point in floating point and at its image, which also stands in for the dual variable, with the
  first proximal point at the point, the second one at zero, and without a last weight;
* a plain method that is given no weight keeps the state as it is, however often an iteration is
  attempted, and each attempt fails, for the missing weight if nothing else is in its way;
* the parameters that are handed back are the given ones and the defaults of what has not been given,
  but for the policy, which takes the place of its tag.

In exact arithmetic, for a smooth term of any curvature, and steps that are left open or pinned to any
numbers (`JudgedExactly`):

* the caller is to blame if and only if one of the checks has something to object to;
* otherwise the setup goes through for every point of a size that the operator takes, and does not
  change its elements;
* without a weight each attempt is blamed on it if the sizes match and the dual step is positive.

The point and the parameters are values, which no setup can change.
-/
theorem setup_judged :
    (∀ {α : Type} [Scalar α] (x₀ : Value α) (f : Option (Smooth α)) (terms : List (TermArgument α))
      (given : Parameters α), (∀ t ∈ terms, t.IsTerm) → Judged x₀ f terms given) ∧
    ∀ (x₀ : Value Exact) (f : Option (Smooth Exact)) (terms : List (TermArgument Exact))
      (given : Parameters Exact), (∀ t ∈ terms, t.IsTerm) →
      (f.getD .anyZero).curvature.IsCurvature → (given.get "tau").IsStep →
      (given.get "sigma").IsStep → JudgedExactly x₀ f terms given := by
  constructor
  · intro α _ x₀ f terms given hterms
    refine ⟨reportsFirst x₀ hterms, fun hnone => ?_, given.sanitized_handedBack⟩
    obtain ⟨a, b, hab, hleads⟩ := leadsTo_of_unobjected x₀ hterms hnone
    refine ⟨a, b, hab, fun v z hv hz => ?_⟩
    obtain ⟨s, hs⟩ := hleads v z hv hz
    exact ⟨s, hs, fun hlacks => neverMoves_of_missing (hs.begins.weightless hlacks)⟩
  · intro x₀ f terms given hterms hf hτ hσ
    refine ⟨blamesCaller_iff_objects x₀ hterms hf hτ hσ, fun hnone => ?_⟩
    obtain ⟨a, b, hab, hleads⟩ := leadsTo_of_unobjected x₀ hterms hnone
    refine ⟨a, b, hab, fun v lead m n hv hshape hK => ?_⟩
    have hpoint : v.floating.Stacked v.floating.backend lead n :=
      NdArray.stacked_of_shape (v.floating_shape.trans hshape) v.floating_isReal
    obtain ⟨z, hz, -⟩ := LinearOperator.map_stacked hK hpoint
    obtain ⟨s, hs⟩ := hleads v z hv hz
    refine ⟨s, z, hz, hs, fun i hi => v.floating_realAt hi, ?_⟩
    intro hlacks hsizes k hk hpos
    obtain ⟨t, ht⟩ := stepSizes_number hτ hσ hs.begins.steps
    exact iterate_of_sizesMatch (hs.begins.weightless hlacks) hsizes ht hk hpos

/-- Two absent terms leave the parameters alone to object to. -/
lemma absent_unobjected {steps : Value Exact × Value Exact}
    (hrescale : (given.getD "rescale" (.number (.bool false))).truthy = false)
    (hsteps : given.askedSteps none = .ok steps) (hmethod : given.askedMethod = .ok .plain)
    (hweight : given.get "lambda" = .null ∨
      ∃ w, given.get "lambda" = .number w ∧ w.isPositive = true) :
    Unobjected none [.absent, .absent] given := by
  intro c e h
  cases h with
  | rescaling h => exact absurd h (by rw [hrescale]; decide)
  | count h => exact absurd rfl h
  | operators h ha hb =>
    cases h
    cases ha
  | steps h =>
    rw [hsteps] at h
    cases h
  | method h =>
    rw [hmethod] at h
    cases h
  | weight _ hgiven h =>
    obtain ⟨w, hw, hpos⟩ := hweight.resolve_left hgiven
    rw [h w hw] at hpos
    cases hpos

/-- Both steps are pinned, and no weight is given. -/
def weightlessParameters : Parameters Exact := [("tau", .number (.int 1)), ("sigma", .number (.int 1))]

/-- Without a weight the setup of the null problem goes through, and no iteration ever does. -/
theorem weightless_never_moves :
    ∃ s, setup (.array (samplePoint 1)) none (some [.absent, .absent]) weightlessParameters
        = .ok (s, weightlessParameters.sanitized s.method) ∧
      ∀ j, ((fun u : IterationState Exact => u.iterate.1)^[j] s).iterate
        = (s, .error .lambdaMissing) := by
  have hmethod : weightlessParameters.askedMethod = .ok .plain := Method.ofTag_tag .plain
  have hsteps : weightlessParameters.askedSteps none = .ok (.number (.int 1), .number (.int 1)) :=
    stepSizes_both_eq Number.is_one one_pos
  have hnone := absent_unobjected (by decide) hsteps hmethod (Or.inl rfl)
  have hterms : ∀ t ∈ [TermArgument.absent, .absent], t.IsTerm (α := Exact) := by
    simp [TermArgument.IsTerm]
  obtain ⟨hany, hexact⟩ := setup_judged
  have hjudged := hexact (.array (samplePoint 1)) none _ weightlessParameters hterms
    (Or.inl ⟨0, zero_eq, le_refl 0⟩) (Or.inr ⟨_, rfl⟩) (Or.inr ⟨_, rfl⟩)
  obtain ⟨a, b, hab, hbegins⟩ := hjudged.beginning hnone
  cases hab
  obtain ⟨s, z, hz, ⟨hsetup, hs⟩, -, hmissing⟩ := hbegins (samplePoint 1) [] 1 1 rfl rfl rfl
  cases hz
  have hjudged' := hany (.array (samplePoint 1)) none _ weightlessParameters hterms
  obtain ⟨a, b, hab, hbegins'⟩ := hjudged'.beginning hnone
  cases hab
  obtain ⟨s', ⟨hsetup', -⟩, hnever⟩ := hbegins' (samplePoint 1) (samplePoint 1) rfl rfl
  cases hsetup.symm.trans hsetup'
  have hplain : s.method = .plain := Except.ok.inj (hs.method.symm.trans hmethod)
  have hsigma : s.sigma = .number (.int 1) :=
    congrArg Prod.snd (Except.ok.inj (hs.steps.symm.trans hsteps))
  have hterm : ∀ t : Proximable Exact, t = .anyZero → t.elementary.Fits [] 1 := by
    rintro _ rfl
    exact trivial
  have hpoint : (samplePoint 1).Stacked .memory [] 1 :=
    NdArray.stacked_of_shape rfl rfl
  have hsizes : s.SizesMatch [] 1 1 :=
    { operator := by rw [(Prod.mk.inj hs.sides).2]; rfl
      smooth := by rw [Smooth.Takes, hs.smooth]; trivial
      primal := hterm _ (by rw [primalTerm, hs.terms.1, hs.terms.2]; cases s.order <;> rfl)
      dual := hterm _ (by rw [dualTerm, hs.terms.1, hs.terms.2]; cases s.order <;> rfl)
      point := ⟨_, by rw [hs.point]; exact hpoint⟩
      dualPoint := ⟨_, by rw [hs.image]; exact hpoint⟩ }
  have hlacks : s.LacksWeight weightlessParameters := ⟨hplain, rfl⟩
  refine ⟨s, hsetup, fun j => ?_⟩
  rw [(hnever hlacks).stays j]
  exact hmissing hlacks hsizes (.int 1) hsigma ((Number.isPositive_iff Number.is_one).mpr one_pos)

/-- The plain method under its other name, with everything that it needs. -/
def aliasedParameters : Parameters Exact := pinnedParameters ++ [("method", .text "ista")]

/-- The tag that the policy was asked for by is not in the parameters that are handed back. -/
theorem alias_replaced :
    aliasedParameters.get "method" = .text "ista" ∧
      ∃ s ps, setup (.array (samplePoint 0)) none (some [.absent, .absent]) aliasedParameters
          = .ok (s, ps) ∧ ps.get "method" = Method.plain.asValue ∧
        ps.get "method" ≠ aliasedParameters.get "method" := by
  have hmethod : aliasedParameters.askedMethod = .ok .plain := by
    have hnamed : Method.named? (strip "ista").toLower = some .plain := by decide +kernel
    show Method.ofTag (.text "ista") = .ok .plain
    rw [Method.ofTag, hnamed]
  have hsteps : aliasedParameters.askedSteps none = .ok (.number (.int 1), .number (.int 1)) :=
    stepSizes_both_eq Number.is_one one_pos
  have hnone := absent_unobjected (by decide) hsteps hmethod
    (Or.inr ⟨.int 1, rfl, (Number.isPositive_iff Number.is_one).mpr one_pos⟩)
  have hterms : ∀ t ∈ [TermArgument.absent, .absent], t.IsTerm (α := Exact) := by
    simp [TermArgument.IsTerm]
  obtain ⟨a, b, hab, hleads⟩ := leadsTo_of_unobjected (.array (samplePoint 0)) hterms hnone
  cases hab
  obtain ⟨s, hsetup, hs⟩ := hleads (samplePoint 0) (samplePoint 0) rfl rfl
  have hplain : s.method = .plain := Except.ok.inj (hs.method.symm.trans hmethod)
  have hget : (aliasedParameters.sanitized s.method).get "method" = Method.plain.asValue := by
    rw [Parameters.get, Parameters.sanitized_handedBack, if_pos rfl, hplain]
  refine ⟨rfl, s, _, hsetup, hget, ?_⟩
  rw [hget]
  rintro ⟨⟩

end IterationState

end PrimalDual
