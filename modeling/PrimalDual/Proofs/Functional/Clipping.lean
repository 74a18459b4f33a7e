import PrimalDual.Proofs.Functional.Minimiser
import PrimalDual.Proofs.NdArray.Finiteness
import PrimalDual.Proofs.NdArray.Spreading

/-!
# Indicators and their projections on arrays of any shape

An indicator is zero on the points of a set and infinite elsewhere, and its proximity operator puts
every point into the set.  The set is given by bounds for each element, which may be infinite, and the
arrays of bounds may have more axes than the point.  What the two formulas have in common are the
bounds that the elements of a shape meet.

* `Penalty.Bounds`, `Penalty.HasRoom` — the bounds, and that some real number lies between them.
* **`hasRoom_of_boundsInOrder`** — which boxes have room.
* **`Penalty.prox_contained`** — a projection lies in the set.
* `Penalty.IsZeroAt`, **`Contained.isZeroAt`**, **`IsZeroAt.between`** — the indicator vanishes exactly there.
-/

namespace PrimalDual

open Exact NdArray

variable {s t : Shape} {F G : ℕ → Exact} {S T : ℕ → Bool} {a c x y : NdArray Exact} {k : Kind}

/-! ## Conjunctions of truth values -/

namespace Penalty

/-- Truth values multiply. -/
lemma wrap_and (b d : Bool) : WholeKind.bool.wrap ((if b then 1 else 0) * if d then 1 else 0)
    = if b && d then 1 else 0 := by
  cases b <;> cases d <;> rfl

lemma both_eq (ha : a.Marks s S) (hc : c.Marks t T) : both a c = zipWhole .bool (· * ·) a c := by
  rw [both, arith, ha.kind_eq, hc.kind_eq]
  rfl

/-- Truth values hold together where both do. -/
lemma both_marks (ha : a.Marks s S) (hc : c.Marks t T) (h : both a c = .ok y) :
    (∀ u : Shape, u.Covers s → u.Covers t → u.Covers y.shape) ∧
      y.shape.Covers s ∧ y.shape.Covers t ∧
        y.Marks y.shape fun k => S (y.shape.project s k) && T (y.shape.project t k) := by
  obtain rfl := ha.shape_eq
  obtain rfl := hc.shape_eq
  rw [both_eq ha hc, zipWhole] at h
  cases hs : Shape.broadcast? a.shape c.shape with
  | none =>
    rw [hs] at h
    cases h
  | some u =>
    rw [hs] at h
    cases h
    obtain ⟨ha', hc'⟩ := Shape.covers_of_broadcast? hs
    refine ⟨fun v hva hvc => ?_, ha', hc', tabulateWhole_marks fun k hk => ?_⟩
    · obtain ⟨w, hw, hvw⟩ := Shape.broadcast?_of_covers hva hvc
      rw [hs, Option.some.injEq] at hw
      rw [← hw] at hvw
      exact hvw
    · rw [ha.entry _ (Shape.project_lt ha' hk), hc.entry _ (Shape.project_lt hc' hk)]
      exact wrap_and _ _

lemma both_yields (ha : a.Marks s S) (hc : c.Marks s T) :
    Yields (both a c) (·.Marks s fun k => S k && T k) := by
  have hs : Shape.broadcast? a.shape c.shape = some s := by
    rw [ha.shape_eq, hc.shape_eq, Shape.broadcast?_self]
  rw [both_eq ha hc, zipWhole, hs]
  refine Yields.ok (tabulateWhole_marks fun k hk => ?_)
  rw [ha.shape_eq, hc.shape_eq, Shape.project_self _ _ hk, ha.entry k hk, hc.entry k hk]
  exact wrap_and _ _

end Penalty

/-- All truth values of a block. -/
lemma NdArray.Marks.allLast (ha : a.Marks s T) :
    a.allLast.Marks (s.collapsed 1) fun i =>
      (List.range (s.tail 1).size).all fun j => T (i * (s.tail 1).size + j) := by
  rw [NdArray.allLast, mapTailWhole, ha.shape_eq]
  refine tabulateWhole_marks fun i hi => ?_
  have hblock : (blockInts (s.tail 1).size fun j =>
        a.wholeAt (i / Shape.size [1] * (s.tail 1).size + j)).all (· ≠ 0)
      = (List.range (s.tail 1).size).all fun j => T (i * (s.tail 1).size + j) := by
    rw [blockInts, List.all_map, Shape.size_singleton, Nat.div_one, Bool.eq_iff_iff,
      List.all_eq_true, List.all_eq_true]
    refine forall₂_congr fun j hj => ?_
    show decide (a.wholeAt (i * (s.tail 1).size + j) ≠ 0) = true ↔ _
    rw [ha.entry _ (Shape.block_lt hi (List.mem_range.mp hj))]
    cases T (i * (s.tail 1).size + j) <;> decide
  rw [hblock]

/-- A conversion between floating-point formats keeps every element. -/
lemma NdArray.Reads.convert (ha : a.Reads s F) (p : Precision) :
    (a.convert (.real p)).Reads s F := by
  rw [NdArray.convert]
  split
  · exact ha
  · rw [ha.shape_eq]
    exact (tabulate_reads p _).congr ha.entry

/-- An indicator is zero at points whose truth values all hold and infinite at all others. -/
lemma Penalty.indicator_reads (ha : a.Marks s T) (hk : k.isReal = true) :
    (indicator k a.allLast).Reads (s.collapsed 1) fun i =>
      if ((List.range (s.tail 1).size).all fun j => T (i * (s.tail 1).size + j)) = true
        then finite 0 else infinite false := by
  obtain ⟨p, rfl⟩ : ∃ p, k = .real p := by
    cases k with
    | whole w => cases hk
    | real p => exact ⟨p, rfl⟩
  refine Reads.convert ?_ p
  rw [ha.allLast.shape_eq]
  refine (tabulate_reads .double _).congr fun i hi => ?_
  rw [ha.allLast.entry i hi, zero_eq]
  cases (List.range (s.tail 1).size).all fun j => T (i * (s.tail 1).size + j) <;> rfl

/-- An indicator vanishes exactly where all truth values hold. -/
lemma Penalty.indicator_eq_zero_iff (ha : a.Marks s T) (hk : k.isReal = true) :
    (∀ i < (indicator k a.allLast).size, (indicator k a.allLast).realAt i = finite 0) ↔
      ∀ i < s.size, T i = true := by
  have hreads := indicator_reads ha hk
  rw [NdArray.size, hreads.shape_eq]
  constructor
  · intro hzero i hi
    -- the element lies in one of the blocks
    have hm : 0 < (s.tail 1).size := by
      refine Nat.pos_of_ne_zero fun h0 => ?_
      rw [← Shape.size_lead_mul_tail s 1, h0, Nat.mul_zero] at hi
      exact Nat.not_lt_zero i hi
    have hblock : i / (s.tail 1).size < (s.collapsed 1).size := by
      rw [Shape.size_collapsed]
      refine Nat.div_lt_of_lt_mul ?_
      rw [Nat.mul_comm, Shape.size_lead_mul_tail]
      exact hi
    have hall := hzero _ hblock
    rw [hreads.entry _ hblock] at hall
    split at hall
    · rename_i htrue
      have hplace := List.all_eq_true.mp htrue (i % (s.tail 1).size)
        (List.mem_range.mpr (Nat.mod_lt i hm))
      rwa [Nat.div_add_mod'] at hplace
    · cases hall
  · intro hall i hi
    rw [hreads.entry i hi, if_pos]
    refine List.all_eq_true.mpr fun j hj => ?_
    exact hall _ (Shape.block_lt hi (List.mem_range.mp hj))

/-! ## Bounds -/

namespace Penalty

variable {h : Penalty Exact} {L U : ℕ → Exact} {tau : Value Exact} {l u : Operand Exact}

/-- The bounds that the elements of shape `s` meet; only indicators have any. -/
def Bounds (h : Penalty Exact) (s : Shape) (L U : ℕ → Exact) : Prop :=
  match h with
  | orthant => (∀ k < s.size, L k = finite 0) ∧ ∀ k < s.size, U k = infinite false
  | box lower upper => ∃ l u, lower.toOperand = .ok l ∧ upper.toOperand = .ok u ∧
      l.Meets s L ∧ u.Meets s U
  | _ => False

/-- Some real number lies between the bounds of each element. -/
def HasRoom (h : Penalty Exact) : Prop :=
  ∀ s L U, h.Bounds s L U → ∀ k < s.size, ∃ y, Between (L k) (U k) y

/-- The array lies in the set: the bounds are spread over it, and each element lies between its own. -/
def Contained (h : Penalty Exact) (a : NdArray Exact) : Prop :=
  ∃ L U, h.Bounds a.shape L U ∧ ∀ k < a.size, ∃ y, a.realAt k = finite y ∧ Between (L k) (U k) y

/-- The functional vanishes at all points of the array. -/
def IsZeroAt (h : Penalty Exact) (a : NdArray Exact) : Prop :=
  ∃ v, h.value a = .ok v ∧ ∀ i < v.size, v.realAt i = finite 0

/-- What the constructor of a box accepts is in order wherever both bounds are spread. -/
lemma atMost_of_boundsInOrder {lower upper : Value Exact} (h : boundsInOrder lower upper = true)
    (hl : lower.toOperand = .ok l) (hu : upper.toOperand = .ok u) (hL : l.Meets s L)
    (hU : u.Meets s U) {k : ℕ} (hk : k < s.size) : Scalar.atMost (L k) (U k) = true := by
  unfold boundsInOrder at h
  split at h
  · -- two numbers
    cases hl
    cases hu
    rw [Number.atMost_eq] at h
    rw [← hL k hk, ← hU k hk]
    exact h
  · -- texts are no operands
    simp [Value.toOperand, Value.ofNested, Value.nested, bind, Except.bind] at hl
  · rw [hl, hu] at h
    dsimp only at h
    cases hr : compare .atMost l u with
    | error e =>
      rw [hr] at h
      cases h
    | ok r =>
      rw [hr] at h
      obtain ⟨hleast, F, G, hF, hG, hmarks⟩ := compare_meets hr
      have hcovers := hleast s hL.over hU.over
      have hplace := Shape.project_lt hcovers hk
      have htrue := List.all_eq_true.mp h (r.wholeAt (s.project r.shape k))
        (List.mem_map.mpr ⟨_, List.mem_range.mpr hplace, rfl⟩)
      rw [hmarks.entry _ hplace] at htrue
      rw [← (hF.trans hcovers).unique hL hk, ← (hG.trans hcovers).unique hU hk]
      by_contra hnot
      rw [Bool.not_eq_true] at hnot
      rw [show Relation.onReal .atMost (F _) (G _) = false from hnot] at htrue
      cases htrue

/-- **Which boxes have room.**  Bounds that the constructor accepts leave room, unless both bounds of
an element are the same infinity. -/
theorem hasRoom_of_boundsInOrder {lower upper : Value Exact} (h : boundsInOrder lower upper = true)
    (hdistinct : ∀ s L U, (box lower upper).Bounds s L U → ∀ k < s.size, ∀ b,
      ¬ (L k = infinite b ∧ U k = infinite b)) : (box lower upper).HasRoom := by
  intro s L U hbounds k hk
  have hle : Scalar.atMost (L k) (U k) = true := by
    obtain ⟨l, u, hl, hu, hL, hU⟩ := hbounds
    exact atMost_of_boundsInOrder h hl hu hL hU hk
  refine exists_between hle (fun hl => ?_) fun hu => ?_
  · rw [hl] at hle
    cases hU : U k with
    | finite y =>
      rw [hU] at hle
      cases hle
    | infinite b =>
      rw [hU] at hle
      cases b with
      | false => exact hdistinct s L U hbounds k hk false ⟨hl, hU⟩
      | true => cases hle
    | notANumber =>
      rw [hU] at hle
      cases hle
  · rw [hu] at hle
    cases hL : L k with
    | finite y =>
      rw [hL] at hle
      cases hle
    | infinite b =>
      rw [hL] at hle
      cases b with
      | false => cases hle
      | true => exact hdistinct s L U hbounds k hk true ⟨hL, hu⟩
    | notANumber =>
      rw [hL] at hle
      cases hle

/-! ## Projections -/

/-- Cutting off at both bounds one after the other. -/
lemma clip_between (hroom : ∀ s L U, l.Meets s L → u.Meets s U → ∀ k < s.size,
      ∃ y, Between (L k) (U k) y) (hreal : x.kind.isReal = true) (hx : x.AllFinite)
    (hy : clip (some l) (some u) x = .ok y) :
    y.kind.isReal = true ∧ y.shape.Covers x.shape ∧ ∃ L U, l.Meets y.shape L ∧ u.Meets y.shape U ∧
      ∀ k < y.size, ∃ z, y.realAt k = finite z ∧ Between (L k) (U k) z := by
  rw [clip_both hreal] at hy
  obtain ⟨raised, hraised, hy⟩ := ok_of_bind hy
  obtain ⟨hreal', F, L, hF, hL, hread⟩ := extremum_meets hreal hraised
  obtain ⟨hreal'', G, U, hG, hU, hread'⟩ := extremum_meets hreal' hy
  have hcovers : y.shape.Covers raised.shape := hG.fits
  refine ⟨hreal'', hcovers.trans hF.fits, _, U, hL.trans hcovers, hU, fun k hk => ?_⟩
  have hplace := Shape.project_lt hcovers hk
  obtain ⟨v, hv⟩ := hF.isFinite hx hplace
  obtain ⟨m, hm⟩ := hroom _ _ _ (hL.trans hcovers) hU k hk
  obtain ⟨a, z, ha, hz, hbetween, -⟩ := clamp_nearest hm v
  refine ⟨z, ?_, hbetween⟩
  rw [hread'.entry k hk, ← hG.entry k hk, hread.entry _ hplace, hv]
  show Scalar.minimum (Scalar.maximum (finite v) (L _)) (U k) = finite z
  rw [ha, hz]

/-- **A projection lies in the set**, whatever the point was. -/
theorem prox_contained (hh : h.Indicates) (hroom : h.HasRoom) (hreal : x.kind.isReal = true)
    (hx : x.AllFinite) (hy : h.prox x tau = .ok y) :
    y.kind.isReal = true ∧ y.shape.Covers x.shape ∧ h.Contained y := by
  cases h with
  | orthant =>
    have hcut : clip (some (.number (.int 0))) none x = .ok y := hy
    rw [clip_lower hreal] at hcut
    obtain ⟨hreal', F, G, hF, hG, hread⟩ := extremum_meets hreal hcut
    refine ⟨hreal', hF.fits, fun _ => finite 0, fun _ => infinite false, ⟨fun _ _ => rfl,
      fun _ _ => rfl⟩, fun k hk => ?_⟩
    obtain ⟨v, hv⟩ := hF.isFinite hx hk
    have hzero : finite 0 = G k := by
      rw [← hG k hk]
      exact zero_eq.symm
    refine ⟨max v 0, ?_, ?_, rfl⟩
    · rw [hread.entry k hk, hv, ← hzero]
      exact maximum_finite v 0
    · rw [atMost_finite, decide_eq_true_eq]
      exact le_max_right v 0
  | box lower upper =>
    obtain ⟨l, hl, hy⟩ := ok_of_bind hy
    obtain ⟨u, hu, hy⟩ := ok_of_bind hy
    have hroom' : ∀ s L U, l.Meets s L → u.Meets s U → ∀ k < s.size,
        ∃ y, Between (L k) (U k) y :=
      fun s L U hL hU => hroom s L U ⟨l, u, hl, hu, hL, hU⟩
    obtain ⟨hreal', hcovers, L, U, hL, hU, hbetween⟩ := clip_between hroom' hreal hx hy
    exact ⟨hreal', hcovers, L, U, ⟨l, u, hl, hu, hL, hU⟩, hbetween⟩
  | absolute | euclidean | zero | unspecified => exact hh.elim

/-! ## Membership -/

/-- **The indicator vanishes in the set.** -/
theorem Contained.isZeroAt (hreal : a.kind.isReal = true) (ha : h.Contained a) : h.IsZeroAt a := by
  obtain ⟨L, U, hbounds, hbetween⟩ := ha
  have hreads : a.Reads a.shape a.realAt := ⟨rfl, fun _ _ => rfl⟩
  cases h with
  | orthant =>
    have hzero : (Operand.number (.int 0) : Operand Exact).Meets a.shape fun _ => finite 0 :=
      fun _ _ => zero_eq
    obtain ⟨inside, hinside, hmarks⟩ := compare_left_yields .atMost hreads hzero
    refine ⟨indicator a.kind inside.allLast, ?_, ?_⟩
    · rw [value, hinside]
      rfl
    · refine (indicator_eq_zero_iff hmarks hreal).mpr fun k hk => ?_
      obtain ⟨y, hy, hle, -⟩ := hbetween k hk
      rw [hbounds.1 k hk] at hle
      show Scalar.atMost (finite 0) (a.realAt k) = true
      rw [hy]
      exact hle
  | box lower upper =>
    obtain ⟨l, u, hl, hu, hL, hU⟩ := hbounds
    obtain ⟨above, habove, hmarks⟩ := compare_left_yields .atMost hreads hL
    obtain ⟨below, hbelow, hmarks'⟩ := compare_right_yields .atMost hreads hU
    obtain ⟨inside, hinside, hboth⟩ := both_yields hmarks hmarks'
    refine ⟨indicator a.kind inside.allLast, ?_, ?_⟩
    · rw [value, hl]
      simp only [bind, Except.bind, habove, hu, hbelow, hinside]
      rfl
    · refine (indicator_eq_zero_iff hboth hreal).mpr fun k hk => ?_
      obtain ⟨y, hy, hle, hge⟩ := hbetween k hk
      show (Scalar.atMost (L k) (a.realAt k) && Scalar.atMost (a.realAt k) (U k)) = true
      rw [hy, hle, hge]
      rfl
  | absolute | euclidean | zero | unspecified => exact hbounds.elim

/-- **Where the indicator vanishes**, the elements lie between their bounds, wherever both are spread
over a common shape. -/
theorem IsZeroAt.between (hreal : a.kind.isReal = true) (hfinite : a.AllFinite)
    (ha : h.IsZeroAt a) (hF : a.Meets s F) (hbounds : h.Bounds s L U) :
    ∀ k < s.size, ∃ y, F k = finite y ∧ Between (L k) (U k) y := by
  intro k hk
  obtain ⟨y, hy⟩ := hF.isFinite hfinite hk
  refine ⟨y, hy, ?_⟩
  obtain ⟨v, hv, hzero⟩ := ha
  cases h with
  | orthant =>
    obtain ⟨inside, hinside, hv⟩ := ok_of_bind hv
    cases hv
    obtain ⟨hleast, G, F', hG, hF', hmarks⟩ := compare_meets hinside
    have hcovers := hleast s trivial hF.fits
    have htrue := (indicator_eq_zero_iff hmarks hreal).mp hzero _ (Shape.project_lt hcovers hk)
    have hpoint : F' (s.project inside.shape k) = F k := (hF'.trans hcovers).unique hF hk
    rw [← hG _ (Shape.project_lt hcovers hk), hpoint, hy] at htrue
    rw [hbounds.1 k hk, hbounds.2 k hk]
    exact ⟨by rw [← zero_eq]; exact htrue, rfl⟩
  | box lower upper =>
    obtain ⟨l, u, hl, hu, hL, hU⟩ := hbounds
    obtain ⟨l', hl', hv⟩ := ok_of_bind hv
    obtain ⟨above, habove, hv⟩ := ok_of_bind hv
    obtain ⟨u', hu', hv⟩ := ok_of_bind hv
    obtain ⟨below, hbelow, hv⟩ := ok_of_bind hv
    obtain ⟨inside, hinside, hv⟩ := ok_of_bind hv
    cases hv
    rw [hl] at hl'
    rw [hu] at hu'
    cases hl'
    cases hu'
    obtain ⟨hleast, L', F₁, hL', hF₁, hmarks⟩ := compare_meets habove
    obtain ⟨hleast', F₂, U', hF₂, hU', hmarks'⟩ := compare_meets hbelow
    obtain ⟨hleast'', hin, hin', hboth⟩ := both_marks hmarks hmarks' hinside
    have hcovers := hleast s hL.over hF.fits
    have hcovers' := hleast' s hF.fits hU.over
    have hpoint : F₁ (s.project above.shape k) = F k := (hF₁.trans hcovers).unique hF hk
    have hpoint' : F₂ (s.project below.shape k) = F k := (hF₂.trans hcovers').unique hF hk
    have hcovers'' := hleast'' s hcovers hcovers'
    have htrue := (indicator_eq_zero_iff hboth hreal).mp hzero _ (Shape.project_lt hcovers'' hk)
    rw [Shape.project_project hcovers'' hin hk, Shape.project_project hcovers'' hin' hk,
      Bool.and_eq_true, hpoint, hpoint', (hL'.trans hcovers).unique hL hk,
      (hU'.trans hcovers').unique hU hk, hy] at htrue
    exact htrue
  | absolute | euclidean | zero | unspecified => exact hbounds.elim

end Penalty

end PrimalDual
