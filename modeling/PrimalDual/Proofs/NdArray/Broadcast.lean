import Mathlib.Tactic.Ring
import PrimalDual.NdArray.Shape

/-!
# Operands that are spread over a shape

An operand fits a shape when broadcasting the two gives the shape back: each of its axes has the
length of the shape's axis or length one.  What an element of the shape reads is then found axis by
axis, from the last one on.

* `broadcast?_append_eq_left_iff` — fitting, one trailing axis at a time.
* `project_self`, `project_nil`, `project_append_one` — what an operand of the same shape, a number,
  and a column are read at.
-/

namespace PrimalDual.Shape

/-! ## From the last axis -/

lemma broadcastRev?_nil (s : List ℕ) : broadcastRev? s [] = some s := by
  cases s <;> rfl

lemma projectRev_nil (t : List ℕ) (k : ℕ) : projectRev t [] k = 0 := by
  cases t <;> rfl

/-- Which of two shapes comes first does not matter. -/
lemma broadcastRev?_comm : ∀ s t : List ℕ, broadcastRev? s t = broadcastRev? t s
  | [], t => (broadcastRev?_nil t).symm
  | m :: s, [] => rfl
  | m :: s, n :: t => by
      rw [broadcastRev?, broadcastRev?, broadcastRev?_comm s t]
      by_cases h : m = n
      · rw [if_pos h, if_pos h.symm, h]
      · rw [if_neg h, if_neg (Ne.symm h)]
        by_cases hm : m = 1
        · have hn : n ≠ 1 := fun hn => h (hm.trans hn.symm)
          rw [if_pos hm, if_neg hn, if_pos hm]
        · rw [if_neg hm, if_neg hm]

/-- An operand fits a shape when its last axis does and the others do. -/
lemma broadcastRev?_cons_eq_left_iff (n m : ℕ) (t s : List ℕ) :
    broadcastRev? (n :: t) (m :: s) = some (n :: t)
      ↔ (m = n ∨ m = 1) ∧ broadcastRev? t s = some t := by
  rw [broadcastRev?]
  by_cases h : n = m
  · simp [h]
  · rw [if_neg h]
    have hmn : m ≠ n := Ne.symm h
    by_cases hn : n = 1
    · have hm : m ≠ 1 := fun hm => h (hn.trans hm.symm)
      simp [hn, hm]
    · by_cases hm : m = 1
      · simp [hn, hm]
      · simp [hn, hm, hmn]

/-! ## From the first axis -/

lemma broadcast?_eq_some_iff (s t u : Shape) :
    broadcast? s t = some u ↔ broadcastRev? s.reverse t.reverse = some u.reverse := by
  rw [broadcast?, Option.map_eq_some_iff]
  constructor
  · rintro ⟨v, hv, rfl⟩
    rw [hv, List.reverse_reverse]
  · intro h
    exact ⟨u.reverse, h, List.reverse_reverse u⟩

lemma broadcast?_comm (s t : Shape) : broadcast? s t = broadcast? t s := by
  rw [broadcast?, broadcast?, broadcastRev?_comm]

@[simp] lemma broadcast?_nil (s : Shape) : broadcast? s [] = some s := by
  rw [broadcast?_eq_some_iff]
  exact broadcastRev?_nil _

@[simp] lemma project_nil (t : Shape) (k : ℕ) : project t [] k = 0 := projectRev_nil _ _

/-- Fitting, one trailing axis at a time. -/
lemma broadcast?_append_eq_left_iff (t s : Shape) (n m : ℕ) :
    broadcast? (t ++ [n]) (s ++ [m]) = some (t ++ [n])
      ↔ (m = n ∨ m = 1) ∧ broadcast? t s = some t := by
  simp only [broadcast?_eq_some_iff, List.reverse_append, List.reverse_singleton,
    List.singleton_append]
  exact broadcastRev?_cons_eq_left_iff n m _ _

/-- Trailing axes meet by themselves when the others have been brought together. -/
lemma broadcast?_append {s t u : Shape} (h : broadcast? s t = some u) (m k : ℕ) :
    broadcast? (s ++ [m]) (t ++ [k]) = (broadcast? [m] [k]).map (u ++ ·) := by
  rw [broadcast?_eq_some_iff] at h
  simp only [broadcast?, List.reverse_append, List.singleton_append, broadcastRev?, h,
    Option.map_some, apply_ite (Option.map List.reverse), Option.map_none, List.reverse_cons,
    List.reverse_reverse, List.reverse_nil, List.nil_append, apply_ite (Option.map (u ++ ·))]

/-- Two axes that meet have the common length or length one. -/
lemma singleton_of_broadcast? {m k : ℕ} {s : Shape} (h : broadcast? [m] [k] = some s) :
    ∃ t, s = [t] ∧ (m = t ∨ m = 1) ∧ (k = t ∨ k = 1) := by
  simp only [broadcast?, List.reverse_singleton, broadcastRev?, Option.map_some] at h
  split_ifs at h with hmk hm hk
  · cases h
    exact ⟨m, rfl, Or.inl rfl, Or.inl hmk.symm⟩
  · cases h
    exact ⟨k, rfl, Or.inr hm, Or.inl rfl⟩
  · cases h
    exact ⟨m, rfl, Or.inl rfl, Or.inr hk⟩
  · cases h

/-- What fits a single axis is a number, or an axis of the same length or of length one. -/
lemma broadcast?_singleton_eq_left_iff (n : ℕ) (s : Shape) :
    broadcast? [n] s = some [n] ↔ s = [] ∨ ∃ m, s = [m] ∧ (m = n ∨ m = 1) := by
  rcases List.eq_nil_or_concat s with rfl | ⟨s, m, rfl⟩
  · simp
  · rw [List.concat_eq_append]
    have h := broadcast?_append_eq_left_iff [] s n m
    rw [List.nil_append] at h
    rw [h, broadcast?_comm, broadcast?_nil, Option.some.injEq]
    constructor
    · rintro ⟨hm, rfl⟩
      exact Or.inr ⟨m, rfl, hm⟩
    · rintro (hnil | ⟨k, hk, hkn⟩)
      · exact absurd hnil (by simp)
      · obtain ⟨rfl, hmk⟩ := List.append_eq_singleton_iff.mp hk |>.resolve_right (by simp)
        rw [List.singleton_inj.mp hmk]
        exact ⟨hkn, rfl⟩

/-- A single axis is spread over all leading axes. -/
lemma broadcast?_append_singleton (t : Shape) {n m : ℕ} (h : m = n ∨ m = 1) :
    broadcast? (t ++ [n]) [m] = some (t ++ [n]) :=
  (broadcast?_append_eq_left_iff t [] n m).mpr ⟨h, broadcast?_nil t⟩

/-- An operand with a single axis is read at the place along the trailing axis. -/
lemma project_append_singleton (t : Shape) (n m k : ℕ) :
    project (t ++ [n]) [m] k = if m = 1 then 0 else k % n := by
  simp only [project, List.reverse_append, List.reverse_singleton, List.singleton_append,
    projectRev, projectRev_nil, Nat.mul_zero, Nat.add_zero]

/-- An operand with one number for each point is read at the number of the point. -/
lemma project_append_one (t : Shape) (n k : ℕ) (hk : k < size (t ++ [n])) :
    project (t ++ [n]) (t ++ [1]) k = k / n := by
  rw [size_append] at hk
  have hdiv : k / n < size t.reverse := by
    rw [size_reverse]
    refine Nat.div_lt_of_lt_mul ?_
    simpa [size, Nat.mul_comm] using hk
  simp only [project, List.reverse_append, List.reverse_singleton, List.singleton_append,
    projectRev]
  rw [projectRev_self _ _ hdiv]
  simp

/-! ## Stacked points

Element `j` of point `r` stands at place `r n + j`, where `n` is the length of the trailing axis.
-/

lemma size_stack (lead : Shape) (n : ℕ) : size (lead ++ [n]) = size lead * n := by
  rw [size_append]
  simp [size]

lemma place_lt {lead : Shape} {n r j : ℕ} (hr : r < size lead) (hj : j < n) :
    r * n + j < size (lead ++ [n]) := by
  rw [size_stack]
  calc r * n + j < r * n + n := by omega
    _ = (r + 1) * n := by ring
    _ ≤ size lead * n := Nat.mul_le_mul_right n hr

lemma place_div {n r j : ℕ} (hj : j < n) : (r * n + j) / n = r := by
  rw [Nat.mul_comm, Nat.mul_add_div (by omega), Nat.div_eq_of_lt hj, Nat.add_zero]

lemma place_mod {n r j : ℕ} (hj : j < n) : (r * n + j) % n = j := by
  rw [Nat.mul_comm, Nat.mul_add_mod, Nat.mod_eq_of_lt hj]

/-- Element `j` of point `r` meets the same element of another stack, or its only one. -/
lemma project_place {lead : Shape} {t k r j : ℕ} (hr : r < size lead) (hj : j < t) :
    project (lead ++ [t]) (lead ++ [k]) (r * t + j) = r * k + if k = 1 then 0 else j := by
  have hlead : projectRev lead.reverse lead.reverse r = r :=
    projectRev_self _ _ (by rwa [size_reverse])
  simp only [project, List.reverse_append, List.reverse_singleton, List.singleton_append, projectRev,
    place_mod hj, place_div hj, hlead]
  rw [Nat.mul_comm, Nat.add_comm]

@[simp] lemma lead_stack (lead : Shape) (n : ℕ) : Shape.lead (lead ++ [n]) 1 = lead := by
  simp [Shape.lead]

@[simp] lemma tail_stack (lead : Shape) (n : ℕ) : Shape.tail (lead ++ [n]) 1 = [n] := by
  simp [Shape.tail]

@[simp] lemma size_singleton (n : ℕ) : size [n] = n := by simp [size]

lemma replaceTail_stack (lead : Shape) (n m : ℕ) :
    Shape.replaceTail (lead ++ [n]) 1 [m] = lead ++ [m] := by
  rw [Shape.replaceTail, lead_stack]

end PrimalDual.Shape
