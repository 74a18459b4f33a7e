import Mathlib.Tactic.Positivity
import PrimalDual.Proofs.Exact.Real
import PrimalDual.Proofs.Outcome
import PrimalDual.Number

/-!
# Parameters as real numbers

A parameter is a truth value, a whole number or a scalar.  In exact arithmetic each of them is just
a real number: `Number.Is n x` says which one.  Conversions never overflow, arithmetic is that of
the real numbers, and comparisons are exact in every combination.
-/

namespace PrimalDual.Number

open Exact

/-- The parameter stands for the real number `x`. -/
def Is (n : Number Exact) (x : ℝ) : Prop := n.value = finite x

variable {m n : Number Exact} {x y : ℝ}

lemma is_real (x : ℝ) : (real (finite x)).Is x := rfl

lemma is_int (k : Int) : (int k : Number Exact).Is k := ofInt_eq k

lemma is_one : (int 1 : Number Exact).Is 1 := by simpa using is_int 1

lemma is_two : (int 2 : Number Exact).Is 2 := by simpa using is_int 2

/-- Nothing overflows in exact arithmetic. -/
lemma toReal_eq (n : Number Exact) : n.toReal = .ok n.value := by
  cases n with
  | bool b => rfl
  | int k => simp [toReal, value]
  | real a => rfl

/-- A parameter stands for one real number. -/
lemma Is.unique (h : n.Is x) (h' : n.Is y) : x = y := finite.inj (Eq.trans (Eq.symm h) h')

/-- The whole number behind a parameter is its value. -/
lemma value_of_whole? {k : Int} (h : n.whole? = some k) : n.value = finite k := by
  cases n with
  | bool b => cases b <;> simp_all [whole?, value] <;> simp [← h]
  | int k' => simp_all [whole?, value]
  | real a => simp [whole?] at h

lemma Is.eq_intCast {k : Int} (h : n.Is x) (hk : n.whole? = some k) : x = k :=
  h.unique (value_of_whole? hk)

lemma eq_real_of_whole? (h : n.whole? = none) : n = real n.value := by
  cases n with
  | bool b => simp [whole?] at h
  | int k => simp [whole?] at h
  | real a => rfl

/-! ## Arithmetic -/

/-- An operation that agrees on whole numbers and on scalars is the operation on real numbers. -/
lemma combine_yields {onInt : Int → Int → Int} {onReal : Exact → Exact → Exact} {z : ℝ}
    (hm : m.Is x) (hn : n.Is y) (hint : ∀ j k : Int, x = j → y = k → z = onInt j k)
    (hreal : onReal (finite x) (finite y) = finite z) :
    Yields (combine onInt onReal m n) (·.Is z) := by
  rw [combine]
  split
  · rename_i j k hj hk
    refine Yields.ok ?_
    have hx : x = j := hm.eq_intCast hj
    have hy : y = k := hn.eq_intCast hk
    rw [hint j k hx hy]
    exact is_int _
  · refine ⟨real (finite z), ?_, is_real z⟩
    rw [toReal_eq, toReal_eq, hm, hn]
    show Except.ok (real (onReal (finite x) (finite y))) = _
    rw [hreal]

lemma add_yields (hm : m.Is x) (hn : n.Is y) : Yields (m.add n) (·.Is (x + y)) :=
  combine_yields hm hn (fun j k hj hk => by rw [hj, hk]; push_cast; rfl) (finite_add x y)

lemma sub_yields (hm : m.Is x) (hn : n.Is y) : Yields (m.sub n) (·.Is (x - y)) :=
  combine_yields hm hn (fun j k hj hk => by rw [hj, hk]; push_cast; rfl) (finite_sub x y)

lemma mul_yields (hm : m.Is x) (hn : n.Is y) : Yields (m.mul n) (·.Is (x * y)) :=
  combine_yields hm hn (fun j k hj hk => by rw [hj, hk]; push_cast; rfl) (finite_mul x y)

lemma neg_is (hn : n.Is x) : n.neg.Is (-x) := by
  cases n with
  | bool b =>
    have hx : x = if b then 1 else 0 := by
      cases b <;> simpa [Is, value] using hn.symm
    cases b <;> simp [Is, value, neg, hx]
  | int k =>
    have hx : x = k := by simpa [Is, value] using hn.symm
    rw [hx]
    simp [Is, value, neg]
  | real a =>
    have ha : a = finite x := hn
    simp [Is, value, neg, ha]

/-! ## Comparisons

A whole number is compared with a scalar through the floor of the scalar, which loses nothing.
-/

lemma intAtMost_eq (k : Int) (a : Exact) : intAtMost k a = Scalar.atMost (finite k) a := by
  cases a with
  | finite x => simp [intAtMost, Int.le_floor]
  | infinite s => simp only [intAtMost, zero_eq]; rfl
  | notANumber => simp only [intAtMost, zero_eq]; rfl

lemma atMostInt_eq (a : Exact) (k : Int) : atMostInt a k = Scalar.atMost a (finite k) := by
  cases a with
  | finite x =>
    have h : -k ≤ ⌊-x⌋ ↔ x ≤ k := by
      rw [Int.le_floor]
      push_cast
      exact neg_le_neg_iff
    simp [atMostInt, h]
  | infinite s => simp only [atMostInt, zero_eq]; rfl
  | notANumber => simp only [atMostInt, zero_eq]; rfl

/-- Parameters compare as their values do, whatever they are made of. -/
lemma atMost_eq (m n : Number Exact) : m.atMost n = Scalar.atMost m.value n.value := by
  rcases hj : m.whole? with _ | j
  · rw [eq_real_of_whole? hj]
    rcases hk : n.whole? with _ | k
    · rw [eq_real_of_whole? hk]
      rfl
    · have hatMost : atMost (real m.value) n = atMostInt m.value k := by
        cases n with
        | bool b => simp [atMost, hk]
        | int k' => simp [atMost, hk]
        | real a => simp [whole?] at hk
      rw [hatMost, atMostInt_eq, value_of_whole? hk]
      rfl
  · rcases hk : n.whole? with _ | k
    · rw [eq_real_of_whole? hk]
      have hatMost : atMost m (real n.value) = intAtMost j n.value := by
        cases m with
        | bool b => simp [atMost, hj]
        | int k' => simp [atMost, hj]
        | real a => simp [whole?] at hj
      rw [hatMost, intAtMost_eq, value_of_whole? hj]
      rfl
    · have hatMost : atMost m n = decide (j ≤ k) := by
        cases m <;> cases n <;> simp_all [atMost, whole?]
      rw [hatMost, value_of_whole? hj, value_of_whole? hk, atMost_finite]
      simp

/-- Comparisons of real numbers. -/
lemma atMost_iff (hm : m.Is x) (hn : n.Is y) : m.atMost n = true ↔ x ≤ y := by
  rw [atMost_eq, hm, hn, atMost_finite, decide_eq_true_eq]

lemma isNan_eq_false (hn : n.Is x) : n.isNan = false := by
  cases n with
  | bool b => rfl
  | int k => rfl
  | real a =>
    have ha : a = finite x := hn
    simp [isNan, ha]

lemma below_iff (hm : m.Is x) (hn : n.Is y) : m.below n = true ↔ x < y := by
  have h := atMost_iff hn hm
  rw [below, isNan_eq_false hm, isNan_eq_false hn, ← not_le, ← h]
  simp

lemma isPositive_iff (hn : n.Is x) : n.isPositive = true ↔ 0 < x := by
  have h := below_iff (is_int 0) hn
  rwa [Int.cast_zero] at h

lemma isZero_iff (hn : n.Is x) : n.isZero = true ↔ x = 0 := by
  have h₁ := atMost_iff hn (is_int 0)
  have h₂ := atMost_iff (is_int 0) hn
  rw [Int.cast_zero] at h₁ h₂
  rw [isZero, equals, Bool.and_eq_true, h₁, h₂, le_antisymm_iff]

/-- Division by anything but zero is the division of real numbers. -/
lemma div_yields (hm : m.Is x) (hn : n.Is y) (hy : y ≠ 0) : Yields (m.div n) (·.Is (x / y)) := by
  have hz : n.isZero = false := by
    rw [← Bool.not_eq_true, isZero_iff hn]
    exact hy
  rw [div, hz, if_neg Bool.false_ne_true]
  split
  · rename_i j k hj hk
    have hx : x = j := hm.eq_intCast hj
    have hy' : y = k := hn.eq_intCast hk
    refine ⟨real (finite (x / y)), ?_, is_real _⟩
    simp [hx, hy']
  · refine ⟨real (finite (x / y)), ?_, is_real _⟩
    rw [toReal_eq, toReal_eq, hm, hn]
    show Except.ok (real (finite x / finite y)) = _
    rw [finite_div x hy]

/-- A positive parameter is a positive real number or infinite. -/
lemma isPositive_cases (h : n.isPositive = true) :
    (∃ x, n.Is x ∧ 0 < x) ∨ n = real (infinite false) := by
  rcases hv : n.value with x | s | _
  · exact Or.inl ⟨x, hv, (isPositive_iff hv).mp h⟩
  · right
    cases n with
    | bool b => cases b <;> simp [value] at hv
    | int k => simp [value] at hv
    | real a =>
      have ha : a = infinite s := hv
      subst ha
      cases s with
      | false => rfl
      | true => exact absurd h (by decide)
  · exfalso
    cases n with
    | bool b => cases b <;> simp [value] at hv
    | int k => simp [value] at hv
    | real a =>
      have ha : a = notANumber := hv
      subst ha
      exact absurd h (by decide)

/-! ## Infinite parameters -/

/-- Nothing is left of a real number once an infinity is taken away. -/
lemma sub_infinite (hm : m.Is x) : m.sub (real (infinite false)) = .ok (real (infinite true)) := by
  rw [sub, combine]
  split
  · rename_i j k _ hk
    cases hk
  · rw [toReal_eq, toReal_eq, hm]
    rfl

/-- What is divided by an infinity vanishes. -/
lemma div_infinite (hm : m.Is x) (s : Bool) :
    m.div (real (infinite s)) = .ok (real (finite 0)) := by
  have hz : (real (infinite s) : Number Exact).isZero = false := by cases s <;> decide
  rw [div, hz, if_neg Bool.false_ne_true]
  split
  · rename_i j k _ hk
    cases hk
  · rw [toReal_eq, toReal_eq, hm]
    rfl

/-- An infinity divided by a positive number stays infinite. -/
lemma infinite_div (hn : n.Is y) (hy : 0 < y) (s : Bool) :
    (real (infinite s)).div n = .ok (real (infinite s)) := by
  have hz : n.isZero = false := by
    rw [← Bool.not_eq_true, isZero_iff hn]
    exact hy.ne'
  have hquot : (infinite s : Exact) / finite y = infinite s := by
    show infinite (s != decide (y < 0)) = _
    rw [decide_eq_false hy.not_gt, Bool.bne_false]
  rw [div, hz, if_neg Bool.false_ne_true]
  split
  · rename_i j k hj _
    cases hj
  · rw [toReal_eq, toReal_eq, hn]
    show Except.ok (real (infinite s / finite y)) = _
    rw [hquot]

/-! ## Any parameters

Also where a parameter is infinite or not a number, the result is that of the scalars behind.
-/

/-- An operation that agrees on whole numbers and on scalars is the operation on scalars. -/
lemma combine_value {onInt : Int → Int → Int} {onReal : Exact → Exact → Exact}
    (h : ∀ j k : Int, onReal (finite j) (finite k) = finite (onInt j k)) (m n : Number Exact) :
    Yields (combine onInt onReal m n) (·.value = onReal m.value n.value) := by
  rw [combine]
  split
  · rename_i j k hj hk
    refine Yields.ok ?_
    rw [value_of_whole? hj, value_of_whole? hk, h]
    exact is_int _
  · rw [toReal_eq, toReal_eq]
    exact Yields.ok rfl

lemma add_value (m n : Number Exact) : Yields (m.add n) (·.value = m.value + n.value) :=
  combine_value (fun j k => by push_cast; rfl) m n

lemma sub_value (m n : Number Exact) : Yields (m.sub n) (·.value = m.value - n.value) :=
  combine_value (fun j k => by push_cast; rfl) m n

lemma mul_value (m n : Number Exact) : Yields (m.mul n) (·.value = m.value * n.value) :=
  combine_value (fun j k => by push_cast; rfl) m n

lemma isZero_eq_false (h : n.value ≠ finite 0) : n.isZero = false := by
  rcases hv : n.value with x | s | _
  · rw [← Bool.not_eq_true, isZero_iff hv]
    rintro rfl
    exact h hv
  · rw [isZero, equals, atMost_eq, atMost_eq, hv]
    cases s <;> simp only [value, ofInt_eq] <;> rfl
  · rw [isZero, equals, atMost_eq, atMost_eq, hv]
    rfl

/-- Division is refused by zero only. -/
lemma div_value (m : Number Exact) (h : n.value ≠ finite 0) :
    Yields (m.div n) (·.value = m.value / n.value) := by
  rw [div, isZero_eq_false h, if_neg Bool.false_ne_true]
  split
  · rename_i j k hj hk
    have hk' : (k : ℝ) ≠ 0 := by
      rintro hk'
      rw [value_of_whole? hk, hk'] at h
      exact h rfl
    refine ⟨real (finite (j / k)), by simp, ?_⟩
    rw [value_of_whole? hj, value_of_whole? hk, finite_div _ hk']
    rfl
  · rw [toReal_eq, toReal_eq]
    exact Yields.ok rfl

lemma square_finite (L : ℝ) :
    (real (finite L)).square = .ok (real (finite (L * L))) := by
  rw [square, finite_mul, isInfinite_finite, Bool.false_and, if_neg Bool.false_ne_true]

/-- A positive parameter is not zero. -/
lemma ne_zero_of_isPositive (h : n.isPositive = true) : n.value ≠ finite 0 := by
  intro hzero
  exact lt_irrefl _ ((isPositive_iff hzero).mp h)

end PrimalDual.Number
