import PrimalDual.Proofs.Criterion.Change
import PrimalDual.Proofs.NdArray.Finiteness

/-!
# Criteria on changes of points that diverge

A point diverges when some element of it is infinite or not a number.  A criterion on changes that
compares the change with its threshold never takes a diverged point for one that has come to rest.
One that compares it with the previous norm does, in two ways.  The product of the threshold with an
infinite norm is infinite, and an infinite change is at most that.  And the statistic puts zero in
place of every quotient that is not a number: it is meant for no change of nothing, but hits each
change of which nothing is known as well.

So the decision is right wherever the previous value was finite, and the statistic where moreover no
element of the current value fails to be a number.

* `NormRule.Diverges`, `NormRule.HasNan` — what can be wrong with a point.
* `NormRule.PassesTest`, `NormRule.reported` — the test of a point, and what is reported of it, with
  the rules for what is not finite.
* `NormRule.evaluateChange_extended` — one evaluation.
* **`NormRule.passesTest_iff`**, **`NormRule.reported_iff`** — the verdict on a point that diverges.
* **`Criterion.divergence_decides`** — two evaluations in succession.
-/

namespace PrimalDual

open Exact NdArray

variable {s : Shape} {F G : ℕ → Exact} {ε : ℝ} {kind : ChangeKind} {r : NormRule Exact} {k m : ℕ}
  {u : Fin m → Exact} {d e : Exact} {v w : Value Exact}

/-! ## Differences and norms of what is not finite -/

namespace Exact

lemma sub_isFinite_iff : (d - e).IsFinite ↔ d.IsFinite ∧ e.IsFinite := by
  constructor
  · rintro ⟨x, hx⟩
    cases d with
    | finite y =>
      cases e with
      | finite z => exact ⟨isFinite y, isFinite z⟩
      | infinite t => cases hx
      | notANumber => cases hx
    | infinite t =>
      cases e with
      | finite z => cases hx
      | infinite t' => cases t <;> cases t' <;> cases hx
      | notANumber => cases hx
    | notANumber => cases e <;> cases hx
  · rintro ⟨hd, he⟩
    exact hd.sub he

lemma sub_nan_right (d : Exact) : d - notANumber = notANumber := by cases d <;> rfl

lemma sub_nan_left (e : Exact) : notANumber - e = notANumber := by cases e <;> rfl

lemma eq_nan_of_sub {x : ℝ} (h : d - finite x = notANumber) : d = notANumber := by
  cases d <;> first | rfl | cases h

lemma gather_of_nan (h : ∃ j, u j = notANumber) (x : ℝ) : gather u x = notANumber := by
  rw [gather, if_pos h]

lemma gather_of_infinite (hnan : ¬∃ j, u j = notANumber) (h : ∃ j, ¬(u j).IsFinite) (x : ℝ) :
    gather u x = infinite false := by
  obtain ⟨j, hj⟩ := h
  rw [gather, if_neg hnan, if_pos]
  cases hu : u j with
  | finite y => exact absurd ⟨y, hu⟩ hj
  | infinite t => exact ⟨j, t, hu⟩
  | notANumber => exact absurd ⟨j, hu⟩ hnan

end Exact

namespace NormRule

/-! ## Points -/

/-- Some element of point `k` is infinite or not a number. -/
def Diverges (r : NormRule Exact) (s : Shape) (F : ℕ → Exact) (k : ℕ) : Prop :=
  ∃ j, ¬(blockOf F (s.tail r.rank.toNat).size k j).IsFinite

/-- Some element of point `k` is not a number. -/
def HasNan (r : NormRule Exact) (s : Shape) (F : ℕ → Exact) (k : ℕ) : Prop :=
  ∃ j, blockOf F (s.tail r.rank.toNat).size k j = notANumber

/-- The norm of point `k`. -/
noncomputable def measured (r : NormRule Exact) (s : Shape) (F : ℕ → Exact) (k : ℕ) : Exact :=
  extendedNorm r.order.order (blockOf F (s.tail r.rank.toNat).size k)

/-- The norm of the change of point `k` from `F` to `G`. -/
noncomputable def changed (r : NormRule Exact) (s : Shape) (F G : ℕ → Exact) (k : ℕ) : Exact :=
  r.measured s (fun i => G i - F i) k

/-- The change of point `k` stands the test. -/
def PassesTest (r : NormRule Exact) (kind : ChangeKind) (ε : ℝ) (s : Shape) (F G : ℕ → Exact)
    (k : ℕ) : Prop :=
  match kind with
  | .absolute => Scalar.atMost (r.changed s F G k) (finite ε) = true
  | .relative => Scalar.atMost (r.changed s F G k) (finite ε * r.measured s F k) = true

/-- What is reported of point `k`. -/
noncomputable def reported (r : NormRule Exact) (kind : ChangeKind) (s : Shape) (F G : ℕ → Exact)
    (k : ℕ) : Exact :=
  match kind with
  | .absolute => r.changed s F G k
  | .relative =>
    let ratio := r.changed s F G k / r.measured s F k
    if Scalar.isNan ratio then finite 0 else ratio

/-- A point that does not diverge has a norm that is a number. -/
lemma measured_of_finite (h : ¬ r.Diverges s F k) : ∃ x, 0 ≤ x ∧ r.measured s F k = finite x := by
  have hfinite : ∀ j, ∃ x, blockOf F (s.tail r.rank.toNat).size k j = finite x := fun j =>
    not_not.mp fun hj => h ⟨j, hj⟩
  choose v hv using hfinite
  exact ⟨_, lpNorm_nonneg _, extendedNorm_of_finite _ hv⟩

lemma measured_of_nan (h : r.HasNan s F k) : r.measured s F k = notANumber := gather_of_nan h _

lemma measured_of_infinite (hnan : ¬ r.HasNan s F k) (h : r.Diverges s F k) :
    r.measured s F k = infinite false := gather_of_infinite hnan h _

lemma diverges_sub_iff :
    r.Diverges s (fun i => G i - F i) k ↔ r.Diverges s F k ∨ r.Diverges s G k := by
  simp only [Diverges, blockOf, sub_isFinite_iff, not_and_or, exists_or]
  exact or_comm

lemma HasNan.sub_left (h : r.HasNan s F k) : r.HasNan s (fun i => G i - F i) k := by
  obtain ⟨j, hj⟩ := h
  refine ⟨j, ?_⟩
  show G _ - blockOf F _ k j = _
  rw [hj, sub_nan_right]

lemma HasNan.sub_right (h : r.HasNan s G k) : r.HasNan s (fun i => G i - F i) k := by
  obtain ⟨j, hj⟩ := h
  refine ⟨j, ?_⟩
  show blockOf G _ k j - F _ = _
  rw [hj, sub_nan_left]

/-- What is not a number after a finite value has been taken away, was none before. -/
lemma HasNan.of_sub (h : r.HasNan s (fun i => G i - F i) k) (hF : ¬ r.Diverges s F k) :
    r.HasNan s G k := by
  obtain ⟨j, hj⟩ := h
  obtain ⟨x, hx⟩ := not_not.mp fun hj => hF ⟨j, hj⟩
  refine ⟨j, eq_nan_of_sub (x := x) ?_⟩
  rw [← hx]
  exact hj

/-! ## The verdict on a point that diverges -/

/-- The change of a point that diverges is infinite or not a number. -/
lemma changed_of_diverges (h : r.Diverges s F k ∨ r.Diverges s G k) :
    r.HasNan s (fun i => G i - F i) k ∧ r.changed s F G k = notANumber ∨
      ¬ r.HasNan s (fun i => G i - F i) k ∧ r.changed s F G k = infinite false := by
  by_cases hnan : r.HasNan s (fun i => G i - F i) k
  · exact Or.inl ⟨hnan, measured_of_nan hnan⟩
  · exact Or.inr ⟨hnan, measured_of_infinite hnan (diverges_sub_iff.mpr h)⟩

/--
**The test lets a point that diverges pass** only where the change is compared with the previous norm,
and there exactly if the previous value diverges and no element of the difference fails to be a number.
-/
theorem passesTest_iff (hε : 0 < ε) (h : r.Diverges s F k ∨ r.Diverges s G k) :
    r.PassesTest kind ε s F G k ↔
      kind = .relative ∧ r.Diverges s F k ∧ ¬ r.HasNan s (fun i => G i - F i) k := by
  obtain ⟨hnan, hchanged⟩ | ⟨hnan, hchanged⟩ := changed_of_diverges h
  · -- a change that is not a number is at most nothing
    refine iff_of_false ?_ fun h => h.2.2 hnan
    cases kind <;> rw [PassesTest, hchanged] <;> exact Bool.false_ne_true
  · cases kind with
    | absolute =>
      rw [PassesTest, hchanged]
      exact iff_of_false Bool.false_ne_true nofun
    | relative =>
      rw [PassesTest, hchanged]
      by_cases hF : r.Diverges s F k
      · have hprevious : r.measured s F k = infinite false :=
          measured_of_infinite (fun hF => hnan hF.sub_left) hF
        rw [hprevious, finite_mul_infinite hε]
        exact iff_of_true rfl ⟨rfl, hF, hnan⟩
      · obtain ⟨x, -, hx⟩ := measured_of_finite hF
        rw [hx, finite_mul]
        exact iff_of_false Bool.false_ne_true fun h => hF h.2.1

/--
**What is reported of a point that diverges** is at most the threshold only where the change is divided
by the previous norm, and there exactly if the previous value diverges or an element of the current
one is not a number.
-/
theorem reported_iff (hε : 0 < ε) (h : r.Diverges s F k ∨ r.Diverges s G k) :
    Scalar.atMost (r.reported kind s F G k) (finite ε) = true ↔
      kind = .relative ∧ (r.Diverges s F k ∨ r.HasNan s G k) := by
  cases kind with
  | absolute =>
    obtain ⟨-, hchanged⟩ | ⟨-, hchanged⟩ := changed_of_diverges h <;> rw [reported, hchanged] <;>
      exact iff_of_false Bool.false_ne_true nofun
  | relative =>
    have hzero : Scalar.atMost (finite 0) (finite ε) = true := by
      rw [atMost_finite, decide_eq_true hε.le]
    obtain ⟨hnan, hchanged⟩ | ⟨hnan, hchanged⟩ := changed_of_diverges h
    · have hratio : Scalar.isNan ((notANumber : Exact) / r.measured s F k) = true := by
        cases r.measured s F k <;> rfl
      rw [reported, hchanged]
      simp only [hratio, if_true]
      refine iff_of_true hzero ⟨trivial, ?_⟩
      by_cases hF : r.Diverges s F k
      · exact Or.inl hF
      · exact Or.inr (hnan.of_sub hF)
    · rw [reported, hchanged]
      by_cases hF : r.Diverges s F k
      · have hprevious : r.measured s F k = infinite false :=
          measured_of_infinite (fun hF => hnan hF.sub_left) hF
        rw [hprevious]
        exact iff_of_true hzero ⟨rfl, Or.inl hF⟩
      · obtain ⟨x, hx0, hx⟩ := measured_of_finite hF
        have hratio : (infinite false : Exact) / finite x = infinite false := by
          show infinite (false != decide (x < 0)) = _
          rw [decide_eq_false hx0.not_gt]
          rfl
        rw [hx, hratio]
        refine iff_of_false Bool.false_ne_true fun h => ?_
        rcases h.2 with hF' | hG
        · exact hF hF'
        · exact hnan hG.sub_right

/-! ## One evaluation -/

/-- The threshold is the positive number `ε`, the order of the norm is positive, and there are as many
axes as make up a point. -/
structure Tests (r : NormRule Exact) (ε : ℝ) (s : Shape) : Prop where
  threshold : r.threshold.Is ε
  positive : 0 < ε
  order : r.order.isPositive = true
  axes : r.rank.toNat ≤ s.length

/-- The value is an array, and what is measured of it are the numbers `F`, finite or not, of shape
`s`. -/
def Observes (r : NormRule Exact) (s : Shape) (F : ℕ → Exact) (v : Value Exact) : Prop :=
  ∃ x y, v = .array x ∧ r.feature v = .ok (.array y) ∧ y.Reads s F

/-- Some point diverges, before or after. -/
def SomeDiverges (r : NormRule Exact) (s : Shape) (F G : ℕ → Exact) : Prop :=
  ∃ k < (s.lead r.rank.toNat).size, r.Diverges s F k ∨ r.Diverges s G k

lemma Tests.measures (hr : r.Tests ε s) (h : r.SomeDiverges s F G) :
    r.order.Measures r.rank s where
  axes := hr.axes
  countable hzero := absurd ((Number.isPositive_iff hzero).mp hr.order) (lt_irrefl 0)
  inhabited _ := by
    obtain ⟨k, -, ⟨j, -⟩ | ⟨j, -⟩⟩ := h <;> exact j.pos

/-- Whole numbers do not diverge. -/
lemma isReal_of_diverges {y : NdArray Exact} (hy : y.Reads s F)
    (hk : k < (s.lead r.rank.toNat).size) (h : r.Diverges s F k) : y.kind.isReal = true := by
  cases hkind : y.kind with
  | real p => rfl
  | whole w =>
    obtain ⟨j, hj⟩ := h
    have hplace := Shape.block_lt (s := s) (r := r.rank.toNat) (Shape.size_collapsed s _ ▸ hk) j.isLt
    exact absurd ⟨_, (hy.entry _ hplace).symm.trans (realAt_whole hkind _)⟩ hj

/-- The quotients that are reported, with zero in place of what is not a number. -/
lemma zeroForNan_extended {y : NdArray Exact} {H : ℕ → Exact} (hy : y.Reads s H)
    (hk : y.kind.isReal = true) : (Criterion.zeroForNan y).Reads s fun k =>
      if Scalar.isNan (H k) then finite 0 else H k := by
  obtain ⟨p, hp⟩ := exists_precision hk
  simp only [Criterion.zeroForNan, hp, hy.shape_eq, zero_eq]
  exact (tabulate_reads p _).congr fun k hk => by rw [hy.entry k hk]

lemma Tests.measure_extended (hr : r.Tests ε s) (h : r.SomeDiverges s F G) {a : NdArray Exact}
    {H : ℕ → Exact} (ha : a.Reads s H) :
    Yields (r.measure (.array a)) fun z => z.kind.isReal = true ∧
      z.Reads (s.collapsed r.rank.toNat) (r.measured s H) :=
  blockNorm_extended hr.order (hr.measures h) ha

/-- The statistics of a change, and the points that pass. -/
lemma Tests.compareChange_extended (hr : r.Tests ε s) (h : r.SomeDiverges s F G)
    {delta y : NdArray Exact} (hdelta : delta.Reads (s.collapsed r.rank.toNat) (r.changed s F G))
    (hy : y.Reads s F) :
    Yields (Criterion.compareChange kind r delta (.array y)) fun z =>
      z.1.Reads (s.collapsed r.rank.toNat) (r.reported kind s F G) ∧
      ∃ T, z.2.Marks (s.collapsed r.rank.toNat) T ∧
        ∀ k, T k = true ↔ r.PassesTest kind ε s F G k := by
  have hthreshold : r.threshold.value = finite ε := hr.threshold
  cases kind with
  | absolute =>
    refine (compare_number_marks .atMost hdelta r.threshold).bind fun passed hpassed => ?_
    refine Yields.pure ⟨hdelta, _, hpassed, fun k => ?_⟩
    rw [hthreshold]
    rfl
  | relative =>
    refine (hr.measure_extended h hy).bind fun scale ⟨hkind, hscale⟩ => ?_
    refine (arith_mul_reads (x := r.threshold) hscale (Or.inl hkind)).bind fun bound hbound => ?_
    refine (compare_marks .atMost hdelta hbound).bind fun passed hpassed => ?_
    refine (arith_div_reads hdelta hscale).bind fun ratio ⟨hreal, hratio⟩ => ?_
    refine Yields.pure ⟨zeroForNan_extended hratio hreal, _, hpassed, fun k => ?_⟩
    rw [hthreshold]
    rfl

/-- **One evaluation**, where some point diverges. -/
theorem Tests.evaluateChange_extended (kind : ChangeKind) (hr : r.Tests ε s) (hv : r.Observes s F v)
    (hw : r.Observes s G w) (h : r.SomeDiverges s F G) :
    Yields (Criterion.evaluateChange kind r v w) fun z =>
      z.1.Reads (s.collapsed r.rank.toNat) (r.reported kind s F G) ∧
      (z.2 = true ↔ r.Accepts s (r.PassesTest kind ε s F G)) := by
  obtain ⟨x, y, rfl, hfeature, hy⟩ := hv
  obtain ⟨x', y', rfl, hfeature', hy'⟩ := hw
  have hreal : y'.kind.isReal = true ∨ y.kind.isReal = true := by
    obtain ⟨k, hk, hF | hG⟩ := h
    · exact Or.inr (isReal_of_diverges hy hk hF)
    · exact Or.inl (isReal_of_diverges hy' hk hG)
  rw [Criterion.evaluateChange, hfeature, hfeature']
  refine (Yields.ok (b := x') trivial : Yields _ fun _ => True).bind fun _ _ => ?_
  have hdifference : Yields (Value.arith .sub (.array y') (.array y)) fun d => ∃ z, d = .array z ∧
      z.Reads s fun i => G i - F i :=
    (arith_sub_reads hy' hy hreal).bind fun z hz => Yields.pure ⟨z, rfl, hz.2⟩
  refine hdifference.bind fun d hd => ?_
  obtain ⟨z, rfl, hz⟩ := hd
  refine (hr.measure_extended h hz).bind fun delta hdelta => ?_
  refine (hr.compareChange_extended h hdelta.2 hy).bind fun compared hcompared => ?_
  obtain ⟨hnorms, T, hpassed, hT⟩ := hcompared
  refine Yields.pure ⟨hnorms, (decides_iff hpassed).trans ?_⟩
  simp only [hT]

end NormRule

namespace Criterion

/-! ## Two evaluations in succession -/

variable {norms : NdArray Exact} {previous : Option (Value Exact)} {o o' : Observation Exact}
  {b : Bool}

/-- An evaluation that comes to a decision keeps the value that it has seen. -/
lemma stop_keeps (hv : o.get r.var = .ok v) (harray : ∃ x, v = .array x)
    (hstop : ((change kind r norms previous).stop o).2 = .ok b) :
    ∃ V, ((change kind r norms previous).stop o).1 = change kind r V (some v) := by
  obtain ⟨x, rfl⟩ := harray
  cases previous with
  | none =>
    have hcopy : (o.get r.var).bind copyOf = .ok (.array x) := by
      rw [hv]
      rfl
    rw [stop, hcopy] at hstop ⊢
    dsimp only at hstop ⊢
    cases hfirst : firstNorms r (.array x) with
    | ok V => exact ⟨V, rfl⟩
    | error e =>
      rw [hfirst] at hstop
      cases hstop
  | some p =>
    rw [stop, hv] at hstop ⊢
    dsimp only at hstop ⊢
    cases hevaluate : evaluateChange kind r p (.array x) with
    | ok z => exact ⟨z.1, rfl⟩
    | error e =>
      rw [hevaluate] at hstop
      cases hstop

/--
**What two evaluations in succession make of points that diverge.**  Whatever a criterion on changes
has seen before, once it has come to a decision on a value, and some point diverges there or in the
value that it is shown next, it comes to a decision again.  Compared with the threshold itself, a
point that diverges never passes the test, and what is reported of it is never at most the threshold.
Compared with the previous norm, it passes exactly if it diverged before and no element of the
difference fails to be a number; and what is reported of it is at most the threshold exactly if it
diverged before or has an element that is not a number now.
-/
theorem divergence_decides (hr : r.Tests ε s) (hv : o.get r.var = .ok v)
    (hw : o'.get r.var = .ok w) (hF : r.Observes s F v) (hG : r.Observes s G w)
    (hstop : ((change kind r norms previous).stop o).2 = .ok b) (h : r.SomeDiverges s F G) :
    ∃ V decision, ((change kind r norms previous).stop o).1.stop o'
        = (change kind r V (some w), .ok decision) ∧
      (decision = true ↔ r.Accepts s (r.PassesTest kind ε s F G)) ∧
      (∀ m, (change kind r V (some w)).info m = summary (labelOf (changeLabel kind) r.var) V) ∧
      V.shape = s.collapsed r.rank.toNat ∧
      ∀ k < (s.lead r.rank.toNat).size, r.Diverges s F k ∨ r.Diverges s G k →
        (r.PassesTest kind ε s F G k ↔
          kind = .relative ∧ r.Diverges s F k ∧ ¬ r.HasNan s (fun i => G i - F i) k) ∧
        (Scalar.atMost (V.realAt k) (finite ε) = true ↔
          kind = .relative ∧ (r.Diverges s F k ∨ r.HasNan s G k)) := by
  have harray : ∃ x, v = .array x := by
    obtain ⟨x, _, rfl, _⟩ := hF
    exact ⟨x, rfl⟩
  obtain ⟨U, hkept⟩ := stop_keeps hv harray hstop
  obtain ⟨⟨V, decision⟩, hevaluate, hV, hdecision⟩ :=
    hr.evaluateChange_extended kind hF hG h
  refine ⟨V, decision, ?_, hdecision, fun m => rfl, hV.shape_eq, fun k hk hdiverges => ⟨?_, ?_⟩⟩
  · rw [hkept, stop, hw]
    dsimp only
    rw [hevaluate]
  · exact NormRule.passesTest_iff hr.positive hdiverges
  · rw [hV.entry k (by rwa [Shape.size_collapsed])]
    exact NormRule.reported_iff hr.positive hdiverges

/-- A variable with a single element. -/
noncomputable def single (e : Exact) : Observation Exact :=
  ⟨⟨#[.tabulate .memory [1] .double fun _ => e]⟩, [("x", .array 0)], 0⟩

lemma halfRule_tests : halfRule.Tests (1 / 2) [1] := ⟨rfl, one_half_pos, by decide, by decide⟩

lemma single_observed (e : Exact) :
    halfRule.Observes [1] (fun _ => e) (.array (.tabulate .memory [1] .double fun _ => e)) :=
  ⟨_, _, rfl, rfl, tabulate_reads .double _⟩

lemma infinite_diverges (k : ℕ) : halfRule.Diverges [1] (fun _ => infinite false) k :=
  ⟨(0 : Fin 1), nofun⟩

/-- A finite number that becomes infinite has not come to rest. -/
theorem single_overflows : ∃ V, ((ofChange .relative halfRule).stop (single (finite 1))).1.stop
      (single (infinite false)) = (change .relative halfRule V
        (some (.array (.tabulate .memory [1] .double fun _ => infinite false))), .ok false) ∧
    Scalar.atMost (V.realAt 0) (finite (1 / 2)) = false := by
  have hdiverges := infinite_diverges 0
  have hbefore : (single (finite 1)).get halfRule.var
      = .ok (.array (.tabulate .memory [1] .double fun _ => finite 1)) := rfl
  have hafter : (single (infinite false)).get halfRule.var
      = .ok (.array (.tabulate .memory [1] .double fun _ => infinite false)) := rfl
  have hfirst : ((change .relative halfRule NormRule.initialNorms none).stop (single (finite 1))).2
      = .ok false := rfl
  obtain ⟨V, decision, hstop, hdecision, -, -, hpoints⟩ :=
    divergence_decides halfRule_tests hbefore hafter (single_observed (finite 1))
      (single_observed (infinite false)) hfirst
      ⟨0, Nat.one_pos, Or.inr hdiverges⟩
  obtain ⟨hpasses, hreported⟩ := hpoints 0 Nat.one_pos (Or.inr hdiverges)
  have hfinite : ¬ halfRule.Diverges [1] (fun _ => finite 1) 0 := by
    rintro ⟨j, hj⟩
    exact hj ⟨1, rfl⟩
  have hrefused : decision = false := by
    rw [← Bool.not_eq_true, hdecision]
    exact fun hall => hfinite (hpasses.mp (hall 0 Nat.one_pos)).2.1
  refine ⟨V, hrefused ▸ hstop, ?_⟩
  rw [← Bool.not_eq_true, hreported]
  rintro ⟨-, hF | ⟨j, hj⟩⟩
  · exact hfinite hF
  · cases hj

/-- An infinite number that becomes finite is taken for one that has not changed. -/
theorem single_returns : halfRule.Diverges [1] (fun _ => infinite false) 0 ∧
    ∃ V, ((ofChange .relative halfRule).stop (single (infinite false))).1.stop (single (finite 1))
      = (change .relative halfRule V
        (some (.array (.tabulate .memory [1] .double fun _ => finite 1))), .ok true) ∧
    V.realAt 0 = finite 0 := by
  have hdiverges := infinite_diverges
  have hnumber (k : ℕ) :
      ¬ halfRule.HasNan [1] (fun i => (fun _ => finite 1) i - (fun _ => infinite false) i) k := by
    rintro ⟨j, hj⟩
    cases hj
  obtain ⟨⟨V, decision⟩, hevaluate, hV, hdecision⟩ :=
    halfRule_tests.evaluateChange_extended .relative (single_observed (infinite false))
      (single_observed (finite 1)) ⟨0, Nat.one_pos, Or.inl (hdiverges 0)⟩
  have haccepted : decision = true := hdecision.mpr fun k _ =>
    (NormRule.passesTest_iff one_half_pos (Or.inl (hdiverges k))).mpr
      ⟨rfl, hdiverges k, hnumber k⟩
  have hkept : ((ofChange .relative halfRule).stop (single (infinite false))).1
      = change .relative halfRule (zeroNorms (NormRule.leadingAxes 1 [1]))
        (some (.array (.tabulate .memory [1] .double fun _ => infinite false))) := rfl
  have hget : (single (finite 1)).get halfRule.var
      = .ok (.array (.tabulate .memory [1] .double fun _ => finite 1)) := rfl
  refine ⟨hdiverges 0, V, ?_, ?_⟩
  · rw [hkept, stop, hget]
    dsimp only
    rw [hevaluate, haccepted]
  · have hchanged : halfRule.changed [1] (fun _ => infinite false) (fun _ => finite 1) 0
        = infinite false :=
      NormRule.measured_of_infinite (hnumber 0)
        (NormRule.diverges_sub_iff.mpr (Or.inl (hdiverges 0)))
    have hprevious : halfRule.measured [1] (fun _ => infinite false) 0 = infinite false :=
      NormRule.measured_of_infinite (fun h => hnumber 0 h.sub_left) (hdiverges 0)
    rw [hV.entry 0 Nat.one_pos, NormRule.reported, hchanged, hprevious]
    rfl

end Criterion

end PrimalDual
