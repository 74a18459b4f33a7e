import PrimalDual.Proofs.Criterion.Composition
import PrimalDual.Proofs.Criterion.Norm

/-!
# Criteria on changes

A criterion on the change of a variable compares the value that the variable has now with the one that
it had when the criterion was evaluated last.  It keeps a copy of that value, so what happens to the
variable in between does not matter.  The decision compares the change with the threshold times the
previous norm; the statistic that is reported divides the change by the previous norm.  The two are
computed separately, and agree also where the previous norm is zero.

* `NormRule.Sound` — the threshold is positive and nothing leaves exact arithmetic.
* `NormRule.Sees` — what the rule measures of a value.
* `NormRule.moved`, `Passes`, `statistic` — the change of a point, whether it is small, and what is
  reported of it.
* **`statistic_iff`** — a point passes exactly if its statistic is at most the threshold.
* **`evaluateChange_reads`** — one evaluation.
* **`change_decides`** — all evaluations since the start.
-/

namespace PrimalDual

open Exact NdArray

variable {s : Shape} {f g : ℕ → ℝ} {T : ℕ → Bool} {ε : ℝ} {kind : ChangeKind} {r : NormRule Exact}
  {x y : NdArray Exact} {v w : Value Exact} {k : ℕ}

/-! ## Conjunctions and disjunctions over all points -/

namespace NdArray.Marks

lemma toInts_eq (hx : x.Marks s T) :
    x.toInts = (List.range s.size).map fun k => if T k then 1 else 0 := by
  rw [toInts, NdArray.size, hx.shape_eq]
  exact List.map_congr_left fun k hk => hx.entry k (List.mem_range.mp hk)

lemma allTrue_iff (hx : x.Marks s T) : x.allTrue = true ↔ ∀ k < s.size, T k = true := by
  rw [allTrue, hx.toInts_eq]
  simp

lemma anyTrue_iff (hx : x.Marks s T) : x.anyTrue = true ↔ ∃ k < s.size, T k = true := by
  rw [anyTrue, hx.toInts_eq]
  simp

end NdArray.Marks

namespace NormRule

/-! ## What a rule accepts -/

/-- Either all points pass, or some, as the rule demands. -/
def Accepts (r : NormRule Exact) (s : Shape) (pass : ℕ → Prop) : Prop :=
  if r.satisfyAll then ∀ k < (s.lead r.rank.toNat).size, pass k
  else ∃ k < (s.lead r.rank.toNat).size, pass k

lemma decides_iff (hx : x.Marks (s.collapsed r.rank.toNat) T) :
    r.decides x = true ↔ r.Accepts s fun k => T k = true := by
  rw [decides, Accepts, ← Shape.size_collapsed]
  cases r.satisfyAll with
  | true => exact hx.allTrue_iff
  | false => exact hx.anyTrue_iff

/--
The threshold is the positive number `ε`, the order is not negative, the norms are exact, and the
product of a whole threshold and a count is a 64-bit integer.
-/
structure Sound (r : NormRule Exact) (kind : ChangeKind) (ε : ℝ) (s : Shape) : Prop where
  threshold : r.threshold.Is ε
  positive : 0 < ε
  order : (Number.int 0).atMost r.order = true
  measures : r.order.Measures r.rank s
  room : kind = .relative → r.order.Is 0 → ∀ i, r.threshold.whole? = some i →
    i ≤ WholeKind.int64.greatest ∧ i * (s.tail r.rank.toNat).size ≤ WholeKind.int64.greatest

/-- The value is an array, and what is measured of it are the real numbers `f`, of shape `s`. -/
def Sees (r : NormRule Exact) (s : Shape) (f : ℕ → ℝ) (v : Value Exact) : Prop :=
  ∃ x y, v = .array x ∧ r.feature v = .ok (.array y) ∧ y.kind.isReal = true ∧
    y.Reads s fun i => finite (f i)

/-! ## Changes -/

/-- The norm of point `k`. -/
noncomputable def norm (r : NormRule Exact) (s : Shape) (f : ℕ → ℝ) (k : ℕ) : ℝ :=
  lpNorm r.order.order (blockOf f (s.tail r.rank.toNat).size k)

/-- How far point `k` has moved from `f` to `g`. -/
noncomputable def moved (r : NormRule Exact) (s : Shape) (f g : ℕ → ℝ) (k : ℕ) : ℝ :=
  r.norm s (fun i => g i - f i) k

/-- Point `k` has moved by no more than is allowed. -/
def Passes (r : NormRule Exact) (kind : ChangeKind) (ε : ℝ) (s : Shape) (f g : ℕ → ℝ) (k : ℕ) : Prop :=
  match kind with
  | .absolute => r.moved s f g k ≤ ε
  | .relative => r.moved s f g k ≤ ε * r.norm s f k

open Classical in
/-- What is reported of point `k`: a change from nothing is infinite, unless there is none. -/
noncomputable def statistic (r : NormRule Exact) (kind : ChangeKind) (s : Shape) (f g : ℕ → ℝ)
    (k : ℕ) : Exact :=
  match kind with
  | .absolute => finite (r.moved s f g k)
  | .relative =>
    if r.norm s f k = 0 then if r.moved s f g k = 0 then finite 0 else infinite false
    else finite (r.moved s f g k / r.norm s f k)

lemma norm_nonneg (r : NormRule Exact) (s : Shape) (f : ℕ → ℝ) (k : ℕ) : 0 ≤ r.norm s f k :=
  lpNorm_nonneg _

/-- **The statistic and the decision agree**, also where the previous norm is zero. -/
theorem statistic_iff (r : NormRule Exact) (kind : ChangeKind) (ε : ℝ) (s : Shape) (f g : ℕ → ℝ)
    (k : ℕ) (hε : 0 < ε) :
    Scalar.atMost (r.statistic kind s f g k) (finite ε) = true ↔ r.Passes kind ε s f g k := by
  cases kind with
  | absolute =>
    rw [statistic, atMost_finite, decide_eq_true_eq]
    rfl
  | relative =>
    have hmoved : 0 ≤ r.moved s f g k := norm_nonneg _ _ _ _
    rw [statistic, Passes]
    split_ifs with hnorm hstill
    · rw [atMost_finite, decide_eq_true_eq, hnorm, hstill, mul_zero]
      exact iff_of_true hε.le (le_refl _)
    · rw [hnorm, mul_zero]
      exact iff_of_false Bool.false_ne_true fun hle => hstill (le_antisymm hle hmoved)
    · have hpos : 0 < r.norm s f k := (norm_nonneg r s f k).lt_of_ne' hnorm
      rw [atMost_finite, decide_eq_true_eq, div_le_iff₀ hpos]

/-! ## One evaluation -/

lemma Sound.measure_reads (hr : r.Sound kind ε s) (hy : y.Reads s fun i => finite (f i)) :
    Yields (r.measure (.array y)) fun z =>
      (z.kind.isReal = true ∨ r.order.Is 0 ∧ z.kind = .whole .int64) ∧
      z.Reads (s.collapsed r.rank.toNat) fun k => finite (r.norm s f k) :=
  blockNorm_reads hr.order hr.measures hy

/-- The threshold times the previous norms. -/
lemma Sound.bound_reads (hr : r.Sound .relative ε s)
    (hkind : y.kind.isReal = true ∨ r.order.Is 0 ∧ y.kind = .whole .int64)
    (hy : y.Reads (s.collapsed r.rank.toNat) fun k => finite (r.norm s f k)) :
    Yields (arith .mul (.number r.threshold) (.array y))
      (·.Reads (s.collapsed r.rank.toNat) fun k => finite (ε * r.norm s f k)) := by
  have hroom : y.kind.isReal = true ∨ y.kind = .whole .int64 ∧
      ∀ i, r.threshold.whole? = some i → WholeKind.int64.holds i = true ∧
        ∀ k < (s.collapsed r.rank.toNat).size,
          WholeKind.int64.holds (i * y.wholeAt k) = true := by
    refine hkind.imp_right fun ⟨hcounts, hwhole⟩ => ⟨hwhole, fun i hi => ?_⟩
    obtain ⟨hfits, hproduct⟩ := hr.room rfl hcounts i hi
    have hpos : 0 < i := by
      have hε := hr.positive
      rw [hr.threshold.eq_intCast hi] at hε
      exact_mod_cast hε
    have hholds : ∀ j : ℤ, 0 ≤ j → j ≤ WholeKind.int64.greatest → WholeKind.int64.holds j = true := by
      intro j hj hle
      rw [WholeKind.holds, Bool.and_eq_true, decide_eq_true_eq, decide_eq_true_eq]
      exact ⟨le_trans (by decide) hj, hle⟩
    refine ⟨hholds i hpos.le hfits, fun k hk => ?_⟩
    -- a count is at most the size of the block
    have hcount : ∃ c : ℕ, y.wholeAt k = c ∧ c ≤ (s.tail r.rank.toNat).size := by
      have hread := hy.entry k hk
      rw [realAt_whole hwhole, norm, Number.order_of_is hcounts, ENNReal.ofReal_zero, lpNorm_zero,
        finite.injEq] at hread
      refine ⟨_, by exact_mod_cast hread, (Finset.card_le_univ _).trans ?_⟩
      rw [Fintype.card_fin]
    obtain ⟨c, hc, hle⟩ := hcount
    rw [hc]
    refine hholds _ (by positivity) (le_trans ?_ hproduct)
    exact mul_le_mul_of_nonneg_left (Int.ofNat_le.mpr hle) hpos.le
  refine (arith_mul_reads hy hroom).mono fun z hz => hz.congr fun k _ => ?_
  rw [hr.threshold, finite_mul]

/-- The quotient of two norms, with zero in place of what is not a number. -/
lemma zeroForNan_reads {D N : ℕ → ℝ} (hy : y.Reads s fun k => finite (D k) / finite (N k))
    (hk : y.kind.isReal = true) (hD : ∀ k < s.size, 0 ≤ D k) :
    (Criterion.zeroForNan y).Reads s fun k =>
      if N k = 0 then if D k = 0 then finite 0 else infinite false else finite (D k / N k) := by
  obtain ⟨p, hp⟩ := exists_precision hk
  simp only [Criterion.zeroForNan, hp, hy.shape_eq]
  refine (tabulate_reads p _).congr fun k hk => ?_
  rw [hy.entry k hk]
  split_ifs with hnan hN hD0 hN hD0
  · exact zero_eq
  · rw [hN, div_zero_finite ((hD k hk).lt_of_ne' hD0)] at hnan
    cases hnan
  · rw [finite_div _ hN] at hnan
    cases hnan
  · rw [hN, hD0, zero_div_zero] at hnan
    exact absurd rfl hnan
  · rw [hN, div_zero_finite ((hD k hk).lt_of_ne' hD0)]
  · rw [finite_div _ hN]

/-- The statistics of a change, and the points that pass. -/
lemma Sound.compareChange_reads (hr : r.Sound kind ε s) {delta : NdArray Exact}
    (hdelta : delta.Reads (s.collapsed r.rank.toNat) fun k => finite (r.moved s f g k))
    (hy : y.Reads s fun i => finite (f i)) :
    Yields (Criterion.compareChange kind r delta (.array y)) fun z =>
      z.1.Reads (s.collapsed r.rank.toNat) (r.statistic kind s f g) ∧
      ∃ T, z.2.Marks (s.collapsed r.rank.toNat) T ∧ ∀ k, T k = true ↔ r.Passes kind ε s f g k := by
  cases kind with
  | absolute =>
    refine (compare_number_marks .atMost hdelta r.threshold).bind fun passed hpassed => ?_
    refine Yields.pure ⟨hdelta, _, hpassed, fun k => ?_⟩
    rw [hr.threshold]
    show Scalar.atMost (finite _) (finite ε) = true ↔ _
    rw [atMost_finite, decide_eq_true_eq]
    rfl
  | relative =>
    refine (hr.measure_reads hy).bind fun scale ⟨hkind, hscale⟩ => ?_
    refine (hr.bound_reads hkind hscale).bind fun bound hbound => ?_
    refine (compare_marks .atMost hdelta hbound).bind fun passed hpassed => ?_
    refine (arith_div_reads hdelta hscale).bind fun ratio ⟨hreal, hratio⟩ => ?_
    refine Yields.pure ⟨?_, _, hpassed, fun k => ?_⟩
    · refine (zeroForNan_reads hratio hreal fun k _ => norm_nonneg _ _ _ _).congr fun k _ => ?_
      rw [statistic]
    · show Scalar.atMost (finite _) (finite _) = true ↔ _
      rw [atMost_finite, decide_eq_true_eq]
      rfl

/-- **One evaluation** compares the previous value with the current one. -/
theorem Sound.evaluateChange_reads (hr : r.Sound kind ε s) (hv : r.Sees s f v) (hw : r.Sees s g w) :
    Yields (Criterion.evaluateChange kind r v w) fun z =>
      z.1.Reads (s.collapsed r.rank.toNat) (r.statistic kind s f g) ∧
      (z.2 = true ↔ r.Accepts s (r.Passes kind ε s f g)) := by
  obtain ⟨x, y, rfl, hfeature, -, hy⟩ := hv
  obtain ⟨x', y', rfl, hfeature', hreal', hy'⟩ := hw
  rw [Criterion.evaluateChange, hfeature, hfeature']
  refine (Yields.ok (b := x') trivial : Yields _ fun _ => True).bind fun _ _ => ?_
  have hdifference : Yields (Value.arith .sub (.array y') (.array y)) fun d => ∃ z, d = .array z ∧
      z.Reads s fun i => finite (g i - f i) := by
    refine (arith_sub_reads hy' hy (Or.inl hreal')).bind fun z hz => Yields.pure ⟨z, rfl, ?_⟩
    exact hz.2.congr fun i _ => finite_sub _ _
  refine hdifference.bind fun d hd => ?_
  obtain ⟨z, rfl, hz⟩ := hd
  refine (hr.measure_reads hz).bind fun delta ⟨_, hdelta⟩ => ?_
  refine (hr.compareChange_reads hdelta hy).bind fun ⟨norms, passed⟩ ⟨hnorms, T, hpassed, hT⟩ => ?_
  refine Yields.pure ⟨hnorms, (decides_iff hpassed).trans ?_⟩
  simp only [hT]

end NormRule

namespace Criterion

/-! ## All evaluations -/

variable {o : ℕ → Observation Exact} {u : ℕ → Value Exact} {F : ℕ → ℕ → ℝ}

/-- The first evaluation has nothing to compare with. -/
lemma stop_first (kind : ChangeKind) {o : Observation Exact} (hv : o.get r.var = .ok v)
    (hf : r.Sees s f v) :
    ∃ norms, norms.shape = NormRule.leadingAxes r.rank s ++ [1] ∧
      (ofChange kind r).stop o = (change kind r norms (some v), .ok false) := by
  obtain ⟨x, y, rfl, hfeature, -, hy⟩ := hf
  have hfirst : firstNorms r (.array x)
      = .ok (zeroNorms (NormRule.leadingAxes r.rank y.shape)) := by
    rw [firstNorms, hfeature]
    rfl
  have hcopy : (o.get r.var).bind copyOf = .ok (.array x) := by
    rw [hv]
    rfl
  refine ⟨zeroNorms (NormRule.leadingAxes r.rank y.shape), by rw [← hy.shape_eq]; rfl, ?_⟩
  rw [ofChange, stop, hcopy]
  dsimp only
  rw [hfirst]

/-- A later one compares with what was there before, and keeps what is there now. -/
lemma stop_later (hr : r.Sound kind ε s) (norms : NdArray Exact) (hv : r.Sees s f v)
    {o : Observation Exact} (hw : o.get r.var = .ok w) (hg : r.Sees s g w) :
    ∃ V decision, (change kind r norms (some v)).stop o = (change kind r V (some w), .ok decision) ∧
      V.Reads (s.collapsed r.rank.toNat) (r.statistic kind s f g) ∧
      (decision = true ↔ r.Accepts s (r.Passes kind ε s f g)) := by
  obtain ⟨⟨V, decision⟩, hevaluate, hV, hdecision⟩ := hr.evaluateChange_reads hv hg
  refine ⟨V, decision, ?_, hV, hdecision⟩
  rw [stop, hw]
  dsimp only
  rw [hevaluate]

/-- After an evaluation, the criterion keeps the value that it has seen. -/
lemma after_change (hr : r.Sound kind ε s) (hget : ∀ i ≤ k, (o i).get r.var = .ok (u i))
    (hsees : ∀ i ≤ k, r.Sees s (F i) (u i)) :
    ∃ norms, (ofChange kind r).after o (k + 1) = change kind r norms (some (u k)) := by
  induction k with
  | zero =>
    obtain ⟨norms, -, hstop⟩ := stop_first kind (hget 0 le_rfl) (hsees 0 le_rfl)
    exact ⟨norms, congrArg Prod.fst hstop⟩
  | succ k ih =>
    obtain ⟨norms, hafter⟩ := ih (fun i hi => hget i (by omega)) fun i hi => hsees i (by omega)
    obtain ⟨V, decision, hstop, -⟩ := stop_later hr norms (hsees k (by omega))
      (hget (k + 1) le_rfl) (hsees (k + 1) le_rfl)
    refine ⟨V, ?_⟩
    rw [after, hafter, hstop]

/-- The first evaluation does not stop. -/
lemma decides_first (hv : (o 0).get r.var = .ok v) (hf : r.Sees s f v) :
    (ofChange kind r).decides o 0 = .ok false := by
  obtain ⟨norms, -, hstop⟩ := stop_first kind hv hf
  exact congrArg Prod.snd hstop

/-- What a later one decides and reports, as far as the variable has been seen. -/
lemma decides_later (hr : r.Sound kind ε s) (hget : ∀ i ≤ k + 1, (o i).get r.var = .ok (u i))
    (hsees : ∀ i ≤ k + 1, r.Sees s (F i) (u i)) :
    ∃ V decision, (ofChange kind r).after o (k + 2) = change kind r V (some (u (k + 1))) ∧
      (ofChange kind r).decides o (k + 1) = .ok decision ∧
      V.Reads (s.collapsed r.rank.toNat) (r.statistic kind s (F k) (F (k + 1))) ∧
      (decision = true ↔ r.Accepts s (r.Passes kind ε s (F k) (F (k + 1)))) := by
  obtain ⟨norms, hafter⟩ := after_change (k := k) hr (fun i hi => hget i (by omega))
    fun i hi => hsees i (by omega)
  obtain ⟨V, decision, hstop, hV, hdecision⟩ := stop_later hr norms (hsees k (by omega))
    (hget (k + 1) le_rfl) (hsees (k + 1) le_rfl)
  refine ⟨V, decision, ?_, ?_, hV, hdecision⟩
  · rw [after, hafter, hstop]
  · rw [decides, hafter, hstop]

/--
**A criterion on changes decides by two successive values.**  Started afresh it is as new, and its
first evaluation does not stop.  Every later one compares the value that the variable has with the one
that it had at the evaluation before, whatever became of the array in the meantime: it stops when all
points pass, or any one, as the rule demands.  A point passes exactly if the statistic that is
reported of it is at most the threshold.
-/
theorem change_decides (hr : r.Sound kind ε s) (hget : ∀ k, (o k).get r.var = .ok (u k))
    (hsees : ∀ k, r.Sees s (F k) (u k)) :
    (∀ norms previous now, (change kind r norms previous).clear now = ofChange kind r) ∧
    (ofChange kind r).decides o 0 = .ok false ∧
    ∀ k, ∃ V decision, (ofChange kind r).after o (k + 2) = change kind r V (some (u (k + 1))) ∧
      (ofChange kind r).decides o (k + 1) = .ok decision ∧
      (decision = true ↔ r.Accepts s (r.Passes kind ε s (F k) (F (k + 1)))) ∧
      (∀ m, ((ofChange kind r).after o (k + 2)).info m
        = summary (labelOf (changeLabel kind) r.var) V) ∧
      ∀ p < (s.lead r.rank.toNat).size, V.realAt p = r.statistic kind s (F k) (F (k + 1)) p ∧
        (Scalar.atMost (V.realAt p) (finite ε) = true
          ↔ r.Passes kind ε s (F k) (F (k + 1)) p) := by
  refine ⟨fun _ _ _ => rfl, decides_first (hget 0) (hsees 0), fun k => ?_⟩
  obtain ⟨V, decision, hafter, hdecides, hV, hdecision⟩ :=
    decides_later (k := k) hr (fun i _ => hget i) fun i _ => hsees i
  refine ⟨V, decision, hafter, hdecides, hdecision, fun m => by rw [hafter, info], fun p hp => ?_⟩
  rw [hV.entry p (by rwa [Shape.size_collapsed])]
  exact ⟨rfl, r.statistic_iff kind ε s (F k) (F (k + 1)) p hr.positive⟩

/-- A variable that counts up from zero. -/
noncomputable def countingUp (k : ℕ) : Observation Exact :=
  ⟨⟨#[.tabulate .memory [1] .double fun _ => finite k]⟩, [("x", .array 0)], 0⟩

/-- Changes by no more than half. -/
noncomputable def halfRule : NormRule Exact :=
  ⟨.real (finite (1 / 2)), "x", 1, .ok, .int 2, true⟩

lemma halfRule_sound : halfRule.Sound .relative (1 / 2) [1] where
  threshold := rfl
  positive := one_half_pos
  order := by decide
  measures := ⟨by decide, fun _ => by decide, fun _ => by decide⟩
  room _ _ i hi := by cases hi

lemma halfRule_norm (c : ℝ) (p : ℕ) : halfRule.norm [1] (fun _ => c) p = |c| := by
  show lpNorm (Number.int 2).order (fun _ : Fin 1 => c) = |c|
  rw [Number.order_of_is Number.is_two, lpNorm_two, Fin.sum_univ_one, Real.sqrt_mul_self_eq_abs,
    abs_abs]

/-- A step of one is no more than half of what has been reached from the third evaluation on. -/
theorem countingUp_decides :
    (ofChange .relative halfRule).decides countingUp 0 = .ok false ∧
    ∀ k : ℕ, ∃ decision, (ofChange .relative halfRule).decides countingUp (k + 1) = .ok decision ∧
      (decision = true ↔ 2 ≤ k) := by
  have hsees : ∀ k : ℕ, halfRule.Sees [1] (fun _ => (k : ℝ))
      (.array (.tabulate .memory [1] .double fun _ => finite k)) := fun k =>
    ⟨_, _, rfl, rfl, rfl, tabulate_reads .double _⟩
  obtain ⟨-, hfirst, hlater⟩ := change_decides halfRule_sound (o := countingUp)
    (u := fun k => .array (.tabulate .memory [1] .double fun _ => finite k)) (fun k => rfl) hsees
  refine ⟨hfirst, fun k => ?_⟩
  obtain ⟨V, decision, -, hdecides, hdecision, -⟩ := hlater k
  refine ⟨decision, hdecides, hdecision.trans ?_⟩
  have hpasses : ∀ p, halfRule.Passes .relative (1 / 2) [1] (fun _ => k) (fun _ => (k + 1 : ℕ)) p
      ↔ 2 ≤ k := by
    intro p
    rw [NormRule.Passes, NormRule.moved, halfRule_norm, halfRule_norm, Nat.cast_add_one,
      add_sub_cancel_left, abs_one, Nat.abs_cast, ← Nat.cast_le (α := ℝ), Nat.cast_ofNat]
    constructor <;> intro h <;> linarith
  show (∀ p < 1, halfRule.Passes .relative (1 / 2) [1] (fun _ => k) (fun _ => (k + 1 : ℕ)) p) ↔ _
  constructor
  · intro h
    exact (hpasses 0).mp (h 0 Nat.one_pos)
  · intro h p _
    exact (hpasses p).mpr h

end Criterion

end PrimalDual
