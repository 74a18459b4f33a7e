import Mathlib.Data.List.Basic
import PrimalDual.Proofs.Splitting.Setup

/-!
# What a setup objects to

The caller of a setup may have asked for several things at once that it cannot give.  Its checks are
spread over functions of their own, and the first one that finds something decides what the caller
gets to see.  This file lists the checks in their order.

* `Check`, `Objects` — the checks, and what each of them has to object to.
* `Passed`, `FirstObjection` — the checks before one have nothing to object to, and it has.
* `IterationState.beginning` — the state at a point, for what has been asked.
* **`IterationState.start_cases`** — the first objection is reported, or only the point is left.
-/

namespace PrimalDual

variable {α : Type}

/-! ## The checks -/

/-- What a setup checks. -/
inductive Check where
  /-- Whether rescaling is asked for. -/
  | rescaling
  /-- The number of terms. -/
  | count
  /-- Which of the terms carry an operator. -/
  | operators
  /-- The steps. -/
  | steps
  /-- The tag of the policy. -/
  | method
  /-- The weight of the plain method. -/
  | weight

/-- The place of a check among all of them. -/
def Check.rank : Check → ℕ
  | rescaling => 0
  | count => 1
  | operators => 2
  | steps => 3
  | method => 4
  | weight => 5

lemma Check.eq_of_rank_eq {c c' : Check} (h : c.rank = c'.rank) : c = c' := by
  cases c <;> cases c' <;> first | rfl | cases h

namespace TermArgument

/-- The argument is a term, or absent. -/
def IsTerm : TermArgument α → Prop
  | foreign _ => False
  | _ => True

/-- The operator that a term carries; an absent one carries none. -/
def operator : TermArgument α → Option (LinearOperator α)
  | term t => t.operator
  | _ => none

variable {t : TermArgument α}

/-- The term that an argument stands for. -/
def filled : TermArgument α → Proximable α
  | term t => t
  | _ => .anyZero

lemma fill_require (h : t.IsTerm) : t.fill.require = .ok t.filled := by
  cases t with
  | foreign v => exact h.elim
  | absent => rfl
  | term t => rfl

lemma filled_operator (t : TermArgument α) : t.filled.operator = t.operator := by
  cases t <;> rfl

end TermArgument

variable [Scalar α]

namespace Parameters

/-- The steps that are asked for. -/
def askedSteps (given : Parameters α) (f : Option (Smooth α)) :
    Except Fault (Value α × Value α) :=
  stepSizes (.number (.real (f.getD .anyZero).curvature)) (given.getD "nu" (.number (.int 1)))
    (given.get "tau") (given.get "sigma")

/-- The policy that is asked for. -/
def askedMethod (given : Parameters α) : Except Fault Method :=
  Method.ofTag (given.getD "method" (.text Method.plain.tag))

end Parameters

/-- What each check of a setup has to object to: the terms `terms`, the smooth term `f`, or the
parameters. -/
inductive Objects (f : Option (Smooth α)) (terms : List (TermArgument α)) (given : Parameters α) :
    Check → Fault → Prop
  | rescaling (h : (given.getD "rescale" (.number (.bool false))).truthy = true) :
      Objects f terms given .rescaling .rescaleUnsupported
  | count (h : terms.length ≠ 2) : Objects f terms given .count (.termCount terms.length)
  | operators {a b : TermArgument α} (h : terms = [a, b]) (ha : a.operator.isSome = true)
      (hb : b.operator.isSome = true) : Objects f terms given .operators .twoOperators
  | steps {e : Fault} (h : given.askedSteps f = .error e) : Objects f terms given .steps e
  | method {e : Fault} (h : given.askedMethod = .error e) : Objects f terms given .method e
  | weight (hplain : given.askedMethod = .ok .plain) (hgiven : given.get "lambda" ≠ .null)
      (h : ∀ w, given.get "lambda" = .number w → w.isPositive = false) :
      Objects f terms given .weight (.lambdaNotPositive (given.get "lambda").shown)

/-- The checks before place `k` have nothing to object to. -/
def Passed (f : Option (Smooth α)) (terms : List (TermArgument α)) (given : Parameters α) (k : ℕ) :
    Prop :=
  ∀ c e, Objects f terms given c e → k ≤ c.rank

/-- A check has something to object to, and none before it has. -/
structure FirstObjection (f : Option (Smooth α)) (terms : List (TermArgument α))
    (given : Parameters α) (c : Check) (e : Fault) : Prop where
  objects : Objects f terms given c e
  passed : Passed f terms given c.rank

section

variable {f : Option (Smooth α)} {terms : List (TermArgument α)} {given : Parameters α} {c c' : Check}
  {e e' : Fault}

/-- A check that has nothing to object to is passed. -/
lemma Passed.next (h : Passed f terms given c.rank) (hc : ∀ e, ¬ Objects f terms given c e) :
    Passed f terms given (c.rank + 1) := by
  intro c' e' hobjects
  refine Nat.lt_of_le_of_ne (h c' e' hobjects) fun hrank => ?_
  obtain rfl := Check.eq_of_rank_eq hrank
  exact hc e' hobjects

/-- All checks are passed when the last one is. -/
lemma Passed.none (h : Passed f terms given 6) (c : Check) (e : Fault) :
    ¬ Objects f terms given c e := by
  intro hobjects
  have hrank := h c e hobjects
  cases c <;> exact absurd hrank (by decide)

/-- A check objects to one thing. -/
lemma Objects.unique (h : Objects f terms given c e) (h' : Objects f terms given c e') : e = e' := by
  cases h with
  | steps h | method h =>
    cases h'
    rename_i h'
    rw [h] at h'
    exact Except.error.inj h'
  | _ =>
    cases h'
    rfl

/-- There is at most one first objection. -/
lemma FirstObjection.unique (h : FirstObjection f terms given c e)
    (h' : FirstObjection f terms given c' e') : e = e' := by
  obtain rfl : c = c' := Check.eq_of_rank_eq
    (Nat.le_antisymm (h.passed c' e' h'.objects) (h'.passed c e h.objects))
  exact h.objects.unique h'.objects

end

/-! ## The setup, one check after the other -/

/-- The sides of two terms of which at most one carries an operator, and the operator. -/
def sides (first second : Proximable α) : Order × LinearOperator α :=
  match first.operator with
  | some K => (.swapped, K)
  | none => (.direct, second.operator.getD .anyIdentity)

lemma chooseSides_eq {first second : Proximable α}
    (h : ¬ (first.operator.isSome = true ∧ second.operator.isSome = true)) :
    chooseSides first second = .ok (sides first second) := by
  rw [chooseSides, sides]
  cases hfirst : first.operator <;> cases hsecond : second.operator
  · rfl
  · rfl
  · rfl
  · exact absurd ⟨by rw [hfirst]; rfl, by rw [hsecond]; rfl⟩ h

lemma chooseSides_refuses {first second : Proximable α} (hfirst : first.operator.isSome = true)
    (hsecond : second.operator.isSome = true) :
    chooseSides first second = .error .twoOperators := by
  obtain ⟨K, hK⟩ := Option.isSome_iff_exists.mp hfirst
  obtain ⟨L, hL⟩ := Option.isSome_iff_exists.mp hsecond
  rw [chooseSides, hK, hL]

namespace IterationState

variable {x₀ : Value α} {f : Option (Smooth α)} {terms : List (TermArgument α)}
  {given : Parameters α} {a b : TermArgument α}

/-- The state at a point and its image, for what has been asked. -/
def beginning (f : Option (Smooth α)) (first second : Proximable α) (steps : Value α × Value α)
    (method : Method) (momentum : Momentum α) (x z : NdArray α) : IterationState α where
  smooth := f.getD .anyZero
  first := first
  second := second
  tau := steps.1
  sigma := steps.2
  method := method
  momentum := momentum
  order := (sides first second).1
  operator := (sides first second).2
  x := x
  z := z
  p := x
  q := z.zerosLike
  dual := z
  weight := none

/-- What is left of a setup when the first two checks have been passed. -/
lemma start_of_terms (ha : a.IsTerm) (hb : b.IsTerm)
    (hrescale : ¬ (given.getD "rescale" (.number (.bool false))).truthy = true) :
    start x₀ f (some [a, b]) given = (do
      let chosen ← chooseSides a.filled b.filled
      let steps ← given.askedSteps f
      let method ← given.askedMethod
      let momentum ← Momentum.ofMethod method (given.get "lambda")
      let x ← readPoint x₀
      let z ← chosen.2.map x
      pure { beginning f a.filled b.filled steps method momentum x z with
        order := chosen.1, operator := chosen.2 }) := by
  unfold start
  dsimp only
  rw [Parameters.withDefaults_rescale, if_neg hrescale, Parameters.withDefaults_nu,
    Parameters.withDefaults_method]
  rw [Parameters.withDefaults_get (by decide) (by decide) (by decide),
    Parameters.withDefaults_get (by decide) (by decide) (by decide),
    Parameters.withDefaults_get (by decide) (by decide) (by decide)]
  simp only [TermArgument.fill_require ha, TermArgument.fill_require hb]
  rfl

/-- A plain method objects to a weight that is given and not positive, and to nothing else. -/
lemma ofMethod_cases (method : Method) (lambda : Value α) :
    (∃ momentum, Momentum.ofMethod method lambda = .ok momentum ∧
      ¬ (method = .plain ∧ lambda ≠ .null ∧ ∀ w, lambda = .number w → w.isPositive = false)) ∨
    method = .plain ∧ lambda ≠ .null ∧ (∀ w, lambda = .number w → w.isPositive = false) ∧
      Momentum.ofMethod method lambda = .error (.lambdaNotPositive lambda.shown) := by
  cases method with
  | accelerated => exact Or.inl ⟨_, rfl, fun h => absurd h.1 nofun⟩
  | plain =>
    cases lambda with
    | null => exact Or.inl ⟨_, rfl, fun h => h.2.1 rfl⟩
    | number w =>
      rw [Momentum.ofMethod, Momentum.ofWeight]
      by_cases hw : w.isPositive = true
      · exact Or.inl ⟨_, if_pos hw, fun h => by simp [h.2.2 w rfl] at hw⟩
      · refine Or.inr ⟨rfl, nofun, ?_, if_neg hw⟩
        rintro _ ⟨⟩
        exact Bool.eq_false_iff.mpr hw
    | _ => exact Or.inr ⟨rfl, nofun, nofun, rfl⟩

/-- **The first objection is reported.**  If there is none, only the point is left to be refused. -/
theorem start_cases (x₀ : Value α) (f : Option (Smooth α)) (given : Parameters α)
    (hterms : ∀ t ∈ terms, t.IsTerm) :
    (∃ c e, FirstObjection f terms given c e ∧ start x₀ f (some terms) given = .error e) ∨
    Passed f terms given 6 ∧ ∃ a b steps method momentum, terms = [a, b] ∧
      given.askedSteps f = .ok steps ∧ given.askedMethod = .ok method ∧
      Momentum.ofMethod method (given.get "lambda") = .ok momentum ∧
      start x₀ f (some terms) given = (do
        let x ← readPoint x₀
        let z ← (sides a.filled b.filled).2.map x
        pure (beginning f a.filled b.filled steps method momentum x z)) := by
  have hpassed₀ : Passed f terms given 0 := fun _ _ _ => Nat.zero_le _
  by_cases hrescale : (given.getD "rescale" (.number (.bool false))).truthy = true
  · refine Or.inl ⟨_, _, ⟨.rescaling hrescale, hpassed₀⟩, ?_⟩
    unfold start
    dsimp only
    rw [Parameters.withDefaults_rescale, if_pos hrescale]
    rfl
  have hpassed₁ : Passed f terms given 1 := hpassed₀.next (c := .rescaling) fun e h => by
    cases h
    contradiction
  by_cases hcount : terms.length ≠ 2
  · refine Or.inl ⟨_, _, ⟨.count hcount, hpassed₁⟩, ?_⟩
    unfold start
    dsimp only
    rw [Parameters.withDefaults_rescale, if_neg hrescale]
    match terms, hcount with
    | [], _ => rfl
    | [a], _ => rfl
    | [a, b], hcount => exact absurd rfl hcount
    | a :: b :: c :: rest, _ => rfl
  have hpassed₂ : Passed f terms given 2 := hpassed₁.next (c := .count) fun e h => by
    cases h
    contradiction
  obtain ⟨a, b, rfl⟩ := List.length_eq_two.mp (Decidable.not_not.mp hcount)
  have ha : a.IsTerm := hterms a (by simp)
  have hb : b.IsTerm := hterms b (by simp)
  rw [start_of_terms ha hb hrescale]
  by_cases hboth : a.operator.isSome = true ∧ b.operator.isSome = true
  · refine Or.inl ⟨_, _, ⟨.operators rfl hboth.1 hboth.2, hpassed₂⟩, ?_⟩
    rw [← a.filled_operator, ← b.filled_operator] at hboth
    rw [chooseSides_refuses hboth.1 hboth.2]
    rfl
  have hpassed₃ : Passed f [a, b] given 3 := hpassed₂.next (c := .operators) fun e h => by
    cases h with
    | operators h ha hb =>
      cases h
      exact hboth ⟨ha, hb⟩
  rw [← a.filled_operator, ← b.filled_operator] at hboth
  rw [chooseSides_eq hboth]
  cases hsteps : given.askedSteps f with
  | error e => exact Or.inl ⟨_, _, ⟨.steps hsteps, hpassed₃⟩, rfl⟩
  | ok steps =>
  have hpassed₄ : Passed f [a, b] given 4 := hpassed₃.next (c := .steps) fun e h => by
    cases h with
    | steps h =>
      rw [hsteps] at h
      cases h
  cases hmethod : given.askedMethod with
  | error e => exact Or.inl ⟨_, _, ⟨.method hmethod, hpassed₄⟩, rfl⟩
  | ok method =>
  have hpassed₅ : Passed f [a, b] given 5 := hpassed₄.next (c := .method) fun e h => by
    cases h with
    | method h =>
      rw [hmethod] at h
      cases h
  rcases ofMethod_cases method (given.get "lambda") with
    ⟨momentum, hmomentum, hweight⟩ | ⟨rfl, hgiven, hweight, hmomentum⟩
  · refine Or.inr ⟨hpassed₅.next (c := .weight) fun e h => ?_, a, b, steps, method, momentum, rfl,
      rfl, rfl, hmomentum, ?_⟩
    · cases h with
      | weight hplain hgiven h =>
        rw [hmethod] at hplain
        exact hweight ⟨Except.ok.inj hplain, hgiven, h⟩
    · simp only [bind, Except.bind, hmomentum]
      rfl
  · refine Or.inl ⟨_, _, ⟨.weight hmethod hgiven hweight, hpassed₅⟩, ?_⟩
    simp only [bind, Except.bind, hmomentum]

end IterationState

end PrimalDual
