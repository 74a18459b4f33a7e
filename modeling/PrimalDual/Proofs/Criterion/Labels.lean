import PrimalDual.Proofs.Criterion.Composition
import PrimalDual.Proofs.Criterion.Renewal
import PrimalDual.Proofs.NdArray.Entries
import PrimalDual.Proofs.NdArray.Shapes

/-!
# The labels of statistics

A criterion reports one number when it has measured a single point, and the extremes when it has
measured several.  So its labels depend on the number of points, and they are the same after every
evaluation if this number is.  All it takes are variables whose shapes do not change, and functions
that map points to points.

A change cannot be measured in the first evaluation.  The zeros that are reported instead have the
shape of the leading axes, which is cut off by a slice.  Where there are no trailing axes to leave out,
the slice is empty and there is a single zero, however many points there are.

* `NormRule.Points`, `exists_points` — the points that a rule finds in an array.
* `Criterion.Labelled` — the labels of a criterion, from the shapes of its variables.
* `Criterion.Sees`, `Criterion.Remembers` — these shapes in what is evaluated, and in what is kept.
* `blockNorm_shape`, `evaluateSize_size`, `firstNorms_size`, `evaluateChange_size` — the number of norms.
* **`stop_labels`**, `remembers_stop` — an evaluation leaves these labels, and may be followed by another.
-/

namespace PrimalDual

variable {α : Type}

/-! ## Shapes of variables -/

namespace Value

/-- The value is an array of shape `s`. -/
def OfShape (v : Value α) (s : Shape) : Prop := ∃ a, v = .array a ∧ a.shape = s

/-- The value is an array of shape `s`, or a number, which has no axes. -/
def Fills (v : Value α) (s : Shape) : Prop := v.OfShape s ∨ s = [] ∧ ∃ n, v = .number n

end Value

/-! ## Labels -/

/-- The labels of the statistics of `n` norms. -/
def summaryLabels (label : String) (n : ℕ) : List String :=
  if n = 1 then [label] else [label ++ "_min", label ++ "_max"]

/-- Adds a label at the end, unless it is there. -/
def putLabel (labels : List String) (label : String) : List String :=
  if label ∈ labels then labels else labels ++ [label]

/-- The labels of two sides. -/
def mergeLabels (left right : List String) : List String := right.foldl putLabel left

namespace Criterion

lemma labels_putStatistic (a : List (String × Number α)) (e : String × Number α) :
    (putStatistic a e).map (·.1) = putLabel (a.map (·.1)) e.1 := by
  have hany : (a.any fun x => x.1 == e.1) = true ↔ e.1 ∈ a.map (·.1) := by
    simp only [List.any_eq_true, beq_iff_eq, List.mem_map]
  rw [putStatistic, putLabel]
  by_cases h : e.1 ∈ a.map (·.1)
  · rw [if_pos (hany.mpr h), if_pos h, List.map_map]
    refine List.map_congr_left fun x _ => ?_
    simp only [Function.comp_apply, beq_iff_eq]
    split_ifs with hx
    · exact hx.symm
    · rfl
  · rw [if_neg (mt hany.mp h), if_neg h, List.map_append, List.map_singleton]

lemma labels_mergeStatistics (a b : List (String × Number α)) :
    (mergeStatistics a b).map (·.1) = mergeLabels (a.map (·.1)) (b.map (·.1)) := by
  rw [mergeStatistics, mergeLabels, List.foldl_map]
  induction b generalizing a with
  | nil => rfl
  | cons e b ih => rw [List.foldl_cons, List.foldl_cons, ih, labels_putStatistic]

end Criterion

variable [Scalar α]

lemma summary_labels (label : String) {v : NdArray α} {n : ℕ} (hv : v.size = n) (h : n ≠ 0) :
    Yields (summary label v) fun entries => entries.map (·.1) = summaryLabels label n := by
  subst hv
  have hgreatest : v.greatest = .ok (NdArray.largest v.toScalars) := if_neg h
  have hleast : v.least = .ok (NdArray.smallest v.toScalars) := if_neg h
  rw [summary, summaryLabels]
  split_ifs with hone
  · rw [hgreatest]
    exact Yields.ok rfl
  · rw [hgreatest, hleast]
    exact Yields.ok rfl

/-! ## Norms -/

/-- There is one norm for each point of the leading axes. -/
lemma blockNorm_shape {x y : NdArray α} {order : Number α} {rank : ℤ}
    (h : blockNorm x order rank = .ok y) : y.shape = x.shape.collapsed rank.toNat := by
  rw [blockNorm] at h
  split_ifs at h
  · obtain ⟨positive, hpositive, h⟩ := ok_of_bind h
    cases h
    rw [NdArray.sumTail_shape, compare_number_shape hpositive]
    rfl
  · rw [NdArray.maxTail_shape h]
    rfl
  · cases h
    exact NdArray.sumTail_shape _ _
  · cases h
    show (NdArray.sumTail _ _).shape = _
    rw [NdArray.sumTail_shape, NdArray.square_shape]
    rfl
  · obtain ⟨powers, hpowers, h⟩ := ok_of_bind h
    obtain ⟨root, -, h⟩ := ok_of_bind h
    rw [NdArray.power_shape h, NdArray.sumTail_shape, NdArray.power_shape hpowers]
    rfl

namespace NormRule

variable {r : NormRule α} {s t : Shape} {a b c y : NdArray α}

/-- In arrays of shape `s` the rule finds points that are stacked in shape `t`: what it measures of
such an array is an array whose axes before those of a point have this shape. -/
def Points (r : NormRule α) (s t : Shape) : Prop :=
  ∀ a y, a.shape = s → r.feature (.array a) = .ok y →
    ∃ b, y = .array b ∧ b.shape.lead r.rank.toNat = t

/-- The functions on offer find points in arrays of every shape. -/
lemma exists_points {f : Feature} (hf : r.feature = f.of) (s : Shape) : ∃ t, r.Points s t := by
  suffices hshape : ∃ t, ∀ a y, a.shape = s → f.of (.array a) = .ok y →
      ∃ b : NdArray α, y = .array b ∧ b.shape = t by
    obtain ⟨t, ht⟩ := hshape
    refine ⟨t.lead r.rank.toNat, fun a y ha hy => ?_⟩
    rw [hf] at hy
    obtain ⟨b, rfl, rfl⟩ := ht a y ha hy
    exact ⟨b, rfl, rfl⟩
  cases f with
  | whole =>
    refine ⟨s, fun a y ha hy => ?_⟩
    cases hy
    exact ⟨a, rfl, ha⟩
  | double =>
    refine ⟨s, fun a y ha hy => ?_⟩
    change (arith .mul (.number (.int 2)) (.array a) >>= fun d => pure (Value.array d)) = .ok y at hy
    obtain ⟨b, hb, hy⟩ := ok_of_bind hy
    cases hy
    exact ⟨b, rfl, (arith_number_shape hb).trans ha⟩
  | square =>
    refine ⟨s, fun a y ha hy => ?_⟩
    cases hy
    exact ⟨_, rfl, (NdArray.square_shape a).trans ha⟩
  | tail =>
    refine ⟨s.replaceTail 1 [s.getLast?.getD 0 - 1], fun a y ha hy => ?_⟩
    change a.dropFirst.map _ = _ at hy
    rw [NdArray.dropFirst, ha] at hy
    split at hy
    · cases hy
    · rename_i n hn
      rw [hn]
      split at hy <;>
      · cases hy
        exact ⟨_, rfl, congrArg (Shape.replaceTail · 1 [n - 1]) ha⟩
  | blockSum =>
    refine ⟨s.replaceTail 3 [1], fun a y ha hy => ?_⟩
    change a.sumBlocks.map _ = _ at hy
    rw [NdArray.sumBlocks, ha] at hy
    split at hy
    · cases hy
    · split at hy
      · rename_i b hb
        cases hy
        exact ⟨b, rfl, NdArray.reshape?_shape hb⟩
      · cases hy

/-- The shape of the norms of points that are stacked in shape `t`. -/
lemma measure_shape (hb : b.shape.lead r.rank.toNat = t) (h : r.measure (.array b) = .ok y) :
    y.shape = t ++ List.replicate r.rank.toNat 1 := by
  have hshape := blockNorm_shape (x := b) h
  rw [hshape, Shape.collapsed, Shape.replaceTail, hb]

omit [Scalar α] in
lemma size_of_shape (h : y.shape = t ++ List.replicate r.rank.toNat 1) : y.size = t.size := by
  rw [NdArray.size, h, Shape.size_append, Shape.size_ones, Nat.mul_one]

omit [Scalar α] in
/-- What a slice leaves of the shape is stacked like the points, if there are trailing axes to leave
out, or if there is only one point. -/
lemma size_leadingAxes (hb : b.shape.lead r.rank.toNat = t) (h : 0 < r.rank ∨ t.size = 1) :
    (leadingAxes r.rank b.shape).size = t.size := by
  rw [leadingAxes]
  split_ifs with hrank
  · rw [← hb]
    rfl
  · -- without trailing axes every element is a point
    have hone := h.resolve_left hrank
    have hwhole : b.shape = t := by
      rw [← hb, Int.toNat_of_nonpos (Int.not_lt.mp hrank), Shape.lead, Nat.sub_zero,
        List.take_length]
    have hparts : Shape.size (t.take r.rank.natAbs) * Shape.size (t.drop r.rank.natAbs) = 1 := by
      rw [← Shape.size_append, List.take_append_drop, hone]
    rw [hwhole, hone]
    exact Nat.eq_one_of_mul_eq_one_right hparts

end NormRule

namespace Criterion

variable {r : NormRule α} {s t : Shape} {o : Observation α} {u v : Value α} {a y : NdArray α}

lemma evaluateSize_size (hr : r.Points s t) (hv : o.get r.var = .ok v) (hs : v.OfShape s)
    {decision : Bool} (h : evaluateSize r o = .ok (y, decision)) : y.size = t.size := by
  obtain ⟨a, rfl, ha⟩ := hs
  obtain ⟨v', hv', h⟩ := ok_of_bind h
  cases hv'.symm.trans hv
  obtain ⟨fx, hfx, h⟩ := ok_of_bind h
  obtain ⟨norms, hnorms, h⟩ := ok_of_bind h
  obtain ⟨passed, -, h⟩ := ok_of_bind h
  cases h
  obtain ⟨b, rfl, hb⟩ := hr a fx ha hfx
  exact NormRule.size_of_shape (NormRule.measure_shape hb hnorms)

lemma firstNorms_size (hr : r.Points s t) (hs : v.OfShape s) (hrank : 0 < r.rank ∨ t.size = 1)
    (h : firstNorms r v = .ok y) : y.size = t.size := by
  obtain ⟨a, rfl, ha⟩ := hs
  obtain ⟨fx, hfx, h⟩ := ok_of_bind h
  obtain ⟨b, rfl, hb⟩ := hr a fx ha hfx
  cases h
  show Shape.size (_ ++ [1]) = _
  rw [Shape.size_append, NormRule.size_leadingAxes hb hrank]
  exact Nat.mul_one _

lemma zeroForNan_shape (a : NdArray α) : (zeroForNan a).shape = a.shape := by
  rw [zeroForNan]
  split <;> rfl

/-- A later statistic has one number for each point, whatever is measured of a point. -/
lemma evaluateChange_size {kind : ChangeKind} (hr : r.Points s t) (hu : u.OfShape s)
    (hv : v.OfShape s) {decision : Bool} (h : evaluateChange kind r u v = .ok (y, decision)) :
    y.size = t.size := by
  obtain ⟨a, rfl, ha⟩ := hu
  obtain ⟨c, rfl, hc⟩ := hv
  obtain ⟨_, -, h⟩ := ok_of_bind h
  obtain ⟨before, hbefore, h⟩ := ok_of_bind h
  obtain ⟨now, hnow, h⟩ := ok_of_bind h
  obtain ⟨difference, hdifference, h⟩ := ok_of_bind h
  obtain ⟨delta, hdelta, h⟩ := ok_of_bind h
  obtain ⟨⟨norms, passed⟩, hcompare, h⟩ := ok_of_bind h
  cases h
  obtain ⟨b, rfl, hb⟩ := hr a before ha hbefore
  obtain ⟨b', rfl, hb'⟩ := hr c now hc hnow
  -- the points of a difference are stacked like those of both operands
  change (arith .sub (.array b') (.array b) >>= fun d => pure (Value.array d))
    = .ok difference at hdifference
  obtain ⟨d, hd, hdifference⟩ := ok_of_bind hdifference
  cases hdifference
  have hpoints := Shape.lead_broadcast? (combineIn_shape hd) hb' hb
  have hshape := NormRule.measure_shape hpoints hdelta
  cases kind with
  | absolute =>
    obtain ⟨_, -, hcompare⟩ := ok_of_bind hcompare
    cases hcompare
    exact NormRule.size_of_shape hshape
  | relative =>
    obtain ⟨scale, hscale, hcompare⟩ := ok_of_bind hcompare
    obtain ⟨bound, -, hcompare⟩ := ok_of_bind hcompare
    obtain ⟨_, -, hcompare⟩ := ok_of_bind hcompare
    obtain ⟨ratio, hratio, hcompare⟩ := ok_of_bind hcompare
    cases hcompare
    have hquotient := combineIn_shape hratio
    rw [hshape, NormRule.measure_shape hb hscale, Shape.broadcast?_self, Option.some.injEq]
      at hquotient
    refine NormRule.size_of_shape (r := r) ?_
    rw [zeroForNan_shape, hquotient]

omit [Scalar α] in
/-- A recorder keeps an array of the variable's size. -/
lemma memoOf_size {var : String} {slot : Slot α} {memo : Memo α} (hs : (o.resolve slot).Fills s)
    (h : memoOf var o slot = .ok memo) : (memoValue o.memory memo).size = s.size := by
  cases slot with
  | array i =>
    obtain ⟨a, ha, rfl⟩ | ⟨-, n, hn⟩ := hs
    · cases ha
      rw [memoOf] at h
      split at h
      · cases h
      · split at h <;> (cases h; rfl)
    · cases hn
  | value v =>
    change v.Fills s at hs
    obtain ⟨a, rfl, rfl⟩ | ⟨rfl, n, rfl⟩ := hs
    · rw [memoOf] at h
      split at h
      · cases h
      · cases h
        rfl
    · cases n with
      | _ =>
        cases h
        rfl

/-! ## Criteria -/

/-- The labels of the statistics of a criterion whose variables have these shapes.  What it has
remembered so far makes no difference. -/
def Labelled (shapes : String → Shape) : Criterion α → List String → Prop
  | maxIter _ _, labels => labels = ["N_iter"]
  | manual, labels => labels = []
  | unspecified, _ => False
  | maxDuration _ _ _, labels => labels = ["duration"]
  | memorize var _, labels =>
    (shapes var).size ≠ 0 ∧ labels = summaryLabels (labelOf "Memorize" var) (shapes var).size
  | size r _, labels => ∃ t, r.Points (shapes r.var) t ∧ t.size ≠ 0 ∧
    labels = summaryLabels (labelOf "AbsError" r.var) t.size
  | change kind r _ _, labels => ∃ t, r.Points (shapes r.var) t ∧ t.size ≠ 0 ∧
    (0 < r.rank ∨ t.size = 1) ∧ labels = summaryLabels (labelOf (changeLabel kind) r.var) t.size
  | both left right, labels | either left right, labels =>
    ∃ l m, left.Labelled shapes l ∧ right.Labelled shapes m ∧ labels = mergeLabels l m

/-- The variables that a criterion looks at have these shapes.  Only a recorder accepts a number in
place of an array. -/
def Sees (shapes : String → Shape) (o : Observation α) : Criterion α → Prop
  | memorize var _ => ∀ v, o.get var = .ok v → v.Fills (shapes var)
  | size r _ | change _ r _ _ => ∀ v, o.get r.var = .ok v → v.OfShape (shapes r.var)
  | both left right | either left right => left.Sees shapes o ∧ right.Sees shapes o
  | _ => True

/-- The values that a criterion has kept for its next evaluation have these shapes. -/
def Remembers (shapes : String → Shape) : Criterion α → Prop
  | change _ r _ previous => ∀ v, previous = some v → v.OfShape (shapes r.var)
  | both left right | either left right => left.Remembers shapes ∧ right.Remembers shapes
  | _ => True

variable {shapes : String → Shape} {c : Criterion α} {labels : List String}

lemma labelled_clear (now : ℤ) (c : Criterion α) :
    (c.clear now).Labelled shapes = c.Labelled shapes := by
  induction c with
  | both left right hleft hright | either left right hleft hright =>
    funext labels
    rw [clear, Labelled, Labelled, hleft, hright]
  | _ => rfl

/-- An evaluation leaves the labels as they are. -/
lemma labelled_stop (o : Observation α) (c : Criterion α) :
    (c.stop o).1.Labelled shapes = c.Labelled shapes := by
  rw [← labelled_clear 0, clear_stop, labelled_clear]

lemma sees_clear (now : ℤ) (c : Criterion α) : (c.clear now).Sees shapes o = c.Sees shapes o := by
  induction c with
  | both left right hleft hright | either left right hleft hright =>
    rw [clear, Sees, Sees, hleft, hright]
  | _ => rfl

/-- A criterion goes on looking at the same variables. -/
lemma sees_congr {c' : Criterion α} {now : ℤ} (h : c'.clear now = c.clear now) :
    c'.Sees shapes o = c.Sees shapes o := by
  rw [← sees_clear now c', h, sees_clear]

lemma remembers_clear (now : ℤ) (c : Criterion α) : (c.clear now).Remembers shapes := by
  induction c with
  | both left right hleft hright | either left right hleft hright => exact ⟨hleft, hright⟩
  | change kind r norms previous =>
    intro v hv
    cases hv
  | _ => trivial

/-- Whether an evaluation succeeds or not, what it keeps is what it has seen. -/
lemma remembers_stop (hsees : c.Sees shapes o) (h : c.Remembers shapes) :
    (c.stop o).1.Remembers shapes := by
  induction c with
  | maxIter | manual | unspecified | maxDuration => trivial
  | memorize var memo | size r norms =>
    rw [stop]
    split <;> trivial
  | change kind r norms previous =>
    cases previous with
    | none =>
      rw [stop]
      split
      · exact h
      · rename_i x hx
        obtain ⟨v, hv, hcopy⟩ := ok_of_bind hx
        obtain ⟨a, rfl, ha⟩ := hsees v hv
        cases hcopy
        have hkept : ∀ v : Value α, some (.array a) = some v → v.OfShape (shapes r.var) := by
          rintro _ ⟨rfl⟩
          exact ⟨a, rfl, ha⟩
        split <;> exact hkept
    | some previous =>
      rw [stop]
      split
      · exact h
      · rename_i x hx
        split
        · rintro _ ⟨rfl⟩
          exact hsees x hx
        · exact h
  | both left right hleft hright | either left right hleft hright =>
    have hleft := hleft hsees.1 h.1
    have hright := hright hsees.2 h.2
    rw [stop]
    rcases hstop : left.stop o with ⟨left', e | d⟩
    · rw [hstop] at hleft
      exact ⟨hleft, h.2⟩
    · rw [hstop] at hleft
      exact ⟨hleft, hright⟩

omit [Scalar α] in
/-- What both sides report is reported by their combination. -/
lemma merge_labels {x y : Except Fault (List (String × Number α))} {l m : List String}
    (hx : Yields x fun entries => entries.map (·.1) = l)
    (hy : Yields y fun entries => entries.map (·.1) = m) :
    Yields (x >>= fun a => y >>= fun b => pure (mergeStatistics a b))
      fun entries => entries.map (·.1) = mergeLabels l m := by
  refine hx.bind fun a ha => hy.bind fun b hb => Yields.pure ?_
  rw [labels_mergeStatistics, ha, hb]

lemma memorize_labels {var : String} {memo : Memo α} (hsize : (shapes var).size ≠ 0)
    (hsees : (memorize var memo).Sees shapes o) {decision : Bool}
    (hstop : ((memorize var memo).stop o).2 = .ok decision) :
    Yields (((memorize var memo).stop o).1.info o.memory) fun entries =>
      entries.map (·.1) = summaryLabels (labelOf "Memorize" var) (shapes var).size := by
  rw [stop] at hstop ⊢
  split at hstop
  · rename_i memo' hmemo
    obtain ⟨slot, hslot, hmemo⟩ := ok_of_bind hmemo
    have hget : o.get var = .ok (o.resolve slot) := by
      rw [Observation.get, hslot]
      rfl
    exact summary_labels _ (memoOf_size (hsees _ hget) hmemo) hsize
  · cases hstop

lemma size_labels {norms : NdArray α} (hr : r.Points (shapes r.var) t) (hsize : t.size ≠ 0)
    (hsees : (size r norms).Sees shapes o) {decision : Bool}
    (hstop : ((size r norms).stop o).2 = .ok decision) :
    Yields (((size r norms).stop o).1.info o.memory) fun entries =>
      entries.map (·.1) = summaryLabels (labelOf "AbsError" r.var) t.size := by
  rw [stop] at hstop ⊢
  split at hstop
  · rename_i norms' d hevaluate
    obtain ⟨v, hv, -⟩ := ok_of_bind hevaluate
    exact summary_labels _ (evaluateSize_size hr hv (hsees v hv) hevaluate) hsize
  · cases hstop

/-- Whichever evaluation it is, there is one number for each point. -/
lemma change_labels {kind : ChangeKind} {norms : NdArray α} {previous : Option (Value α)}
    (hr : r.Points (shapes r.var) t) (hsize : t.size ≠ 0) (hrank : 0 < r.rank ∨ t.size = 1)
    (hsees : (change kind r norms previous).Sees shapes o)
    (h : (change kind r norms previous).Remembers shapes) {decision : Bool}
    (hstop : ((change kind r norms previous).stop o).2 = .ok decision) :
    Yields (((change kind r norms previous).stop o).1.info o.memory) fun entries =>
      entries.map (·.1) = summaryLabels (labelOf (changeLabel kind) r.var) t.size := by
  cases previous with
  | none =>
    rw [stop] at hstop ⊢
    split at hstop
    · cases hstop
    · rename_i x hx
      obtain ⟨v, hv, hcopy⟩ := ok_of_bind hx
      have hshape := hsees v hv
      obtain ⟨a, rfl, -⟩ := id hshape
      cases hcopy
      split at hstop
      · rename_i norms' hfirst
        exact summary_labels _ (firstNorms_size hr hshape hrank hfirst) hsize
      · cases hstop
  | some previous =>
    rw [stop] at hstop ⊢
    split at hstop
    · cases hstop
    · rename_i x hx
      split at hstop
      · rename_i norms' d hevaluate
        have hnorms := evaluateChange_size hr (h previous rfl) (hsees x hx) hevaluate
        exact summary_labels _ hnorms hsize
      · cases hstop

/-- **After an evaluation that comes to a decision**, the first one included, there are statistics, and
they have the labels of the criterion. -/
theorem stop_labels (hlabels : c.Labelled shapes labels) (hsees : c.Sees shapes o)
    (h : c.Remembers shapes) {decision : Bool} (hstop : (c.stop o).2 = .ok decision) :
    Yields ((c.stop o).1.info o.memory) fun entries => entries.map (·.1) = labels := by
  induction c generalizing labels decision with
  | maxIter | manual | maxDuration =>
    cases hlabels
    exact Yields.ok rfl
  | unspecified => exact hlabels.elim
  | memorize var memo =>
    obtain ⟨hsize, rfl⟩ := hlabels
    exact memorize_labels hsize hsees hstop
  | size r norms =>
    obtain ⟨t, hr, hsize, rfl⟩ := hlabels
    exact size_labels hr hsize hsees hstop
  | change kind r norms previous =>
    obtain ⟨t, hr, hsize, hrank, rfl⟩ := hlabels
    exact change_labels hr hsize hrank hsees h hstop
  | both left right hleft hright =>
    obtain ⟨l, m, hl, hm, rfl⟩ := hlabels
    obtain ⟨a, b, ha, hb, -, hsides⟩ := both_sides hstop
    rw [hsides]
    exact merge_labels (hleft hl hsees.1 h.1 ha) (hright hm hsees.2 h.2 hb)
  | either left right hleft hright =>
    obtain ⟨l, m, hl, hm, rfl⟩ := hlabels
    obtain ⟨a, b, ha, hb, -, hsides⟩ := either_sides hstop
    rw [hsides]
    exact merge_labels (hleft hl hsees.1 h.1 ha) (hright hm hsees.2 h.2 hb)

end Criterion

end PrimalDual
