import Mathlib.Tactic.Lemma
import PrimalDual.Fault

/-!
# What a fallible computation yields

A computation that may be refused is described by what it yields: it is not refused, and its result
has a given property.  Each operation of the library gets one such description, and a chain of
operations is described by following it from one step to the next.  Two computations that go through
the same steps are compared in the same way.

* `Yields` — the computation is not refused and its result has a property.
* `Yields.bind` — one step after the other.
* `ok_of_bind` — the same, backwards.
* `FailsBy` — the computation is not refused but for causes of a kind.
* `Parallel` — two computations are refused alike, or their results are related.
-/

namespace PrimalDual

/-- The computation is not refused, and its result has the property `P`. -/
def Yields {β : Type} (x : Except Fault β) (P : β → Prop) : Prop := ∃ b, x = .ok b ∧ P b

namespace Yields

variable {β γ : Type} {x : Except Fault β} {P Q : β → Prop} {R : γ → Prop}

lemma ok {b : β} (h : P b) : Yields (.ok b) P := ⟨b, rfl, h⟩

lemma pure {b : β} (h : P b) : Yields (Pure.pure b) P := ⟨b, rfl, h⟩

/-- What the first step yields is what the second one starts from. -/
lemma bind {f : β → Except Fault γ} (hx : Yields x P) (hf : ∀ b, P b → Yields (f b) R) :
    Yields (x >>= f) R := by
  obtain ⟨b, rfl, hb⟩ := hx
  exact hf b hb

lemma mono (hx : Yields x P) (h : ∀ b, P b → Q b) : Yields x Q := by
  obtain ⟨b, hb, hP⟩ := hx
  exact ⟨b, hb, h b hP⟩

/-- A result that is known has every property that the computation yields. -/
lemma of_eq_ok (hx : Yields x P) {b : β} (h : x = .ok b) : P b := by
  obtain ⟨c, hc, hP⟩ := hx
  rw [hc, Except.ok.injEq] at h
  exact h ▸ hP

end Yields

/-- A chain that is not refused has not been refused at its first step. -/
lemma ok_of_bind {β γ : Type} {x : Except Fault β} {f : β → Except Fault γ} {d : γ}
    (h : (x >>= f) = .ok d) : ∃ b, x = .ok b ∧ f b = .ok d := by
  cases x with
  | error e => cases h
  | ok b => exact ⟨b, rfl, h⟩

/-- If the computation is refused, its cause has the property `C`. -/
def FailsBy {β : Type} (x : Except Fault β) (C : Fault → Prop) : Prop := ∀ e, x = .error e → C e

namespace FailsBy

variable {β γ : Type} {x : Except Fault β} {P : β → Prop} {C : Fault → Prop}

lemma ok {b : β} : FailsBy (.ok b) C := nofun

lemma error {e : Fault} (h : C e) : FailsBy (.error e : Except Fault β) C := by
  rintro _ ⟨⟩
  exact h

/-- What yields a result is not refused at all. -/
lemma of_yields (hx : Yields x P) : FailsBy x C := by
  obtain ⟨b, rfl, -⟩ := hx
  exact ok

/-- A chain is refused at its first step or after it. -/
lemma bind {f : β → Except Fault γ} (hx : FailsBy x C) (hf : ∀ b, x = .ok b → FailsBy (f b) C) :
    FailsBy (x >>= f) C := by
  cases x with
  | error e => exact error (hx e rfl)
  | ok b => exact hf b rfl

end FailsBy

/-- Two computations are refused for the same reason, or both succeed with related results. -/
inductive Parallel {β γ : Type} (R : β → γ → Prop) : Except Fault β → Except Fault γ → Prop
  | refused (e : Fault) : Parallel R (.error e) (.error e)
  | ok {b : β} {c : γ} (h : R b c) : Parallel R (.ok b) (.ok c)

namespace Parallel

variable {β γ β' γ' : Type} {R : β → γ → Prop} {T : β' → γ' → Prop} {x : Except Fault β}
  {y : Except Fault γ}

lemma pure {b : β} {c : γ} (h : R b c) : Parallel R (Pure.pure b) (Pure.pure c) := ok h

/-- Related results are carried on alike. -/
lemma bind {f : β → Except Fault β'} {g : γ → Except Fault γ'} (hxy : Parallel R x y)
    (hfg : ∀ b c, R b c → Parallel T (f b) (g c)) : Parallel T (x >>= f) (y >>= g) := by
  cases hxy with
  | refused e => exact refused e
  | ok h => exact hfg _ _ h

/-- Related results are related in another way after both have been changed. -/
lemma map {f : β → β'} {g : γ → γ'} (hxy : Parallel R x y) (hfg : ∀ b c, R b c → T (f b) (g c)) :
    Parallel T (x.map f) (y.map g) := by
  cases hxy with
  | refused e => exact refused e
  | ok h => exact ok (hfg _ _ h)

lemma refl {R : β → β → Prop} (h : ∀ b, R b b) (x : Except Fault β) : Parallel R x x := by
  cases x with
  | error e => exact refused e
  | ok b => exact ok (h b)

/-- A computation beside itself: what its result is known to be can be used. -/
lemma bind_self {f : β → Except Fault β'} {g : β → Except Fault γ'} (x : Except Fault β)
    (hfg : ∀ b, x = .ok b → Parallel T (f b) (g b)) : Parallel T (x >>= f) (x >>= g) := by
  cases x with
  | error e => exact refused e
  | ok b => exact hfg b rfl

lemma error_iff (hxy : Parallel R x y) (e : Fault) : x = .error e ↔ y = .error e := by
  cases hxy with
  | refused e' => simp
  | ok h => simp

lemma exists_ok (hxy : Parallel R x y) {b : β} (hx : x = .ok b) : ∃ c, y = .ok c ∧ R b c := by
  cases hxy with
  | refused e => cases hx
  | ok h =>
    cases hx
    exact ⟨_, rfl, h⟩

end Parallel

end PrimalDual
