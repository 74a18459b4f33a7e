import Mathlib.Analysis.Normed.Lp.PiLp
import PrimalDual.Criterion.Norm
import PrimalDual.Proofs.NdArray.Magnitudes

/-!
# Block norms are norms

Stopping criteria measure the trailing axes of an array by a norm of any order that is not negative.
Each order is computed in a way of its own: order zero counts, infinity takes the largest magnitude,
one and two have short forms, and roots and squares take the place of the powers one half and two.
All of them come to the norm of the order on the real numbers of a block.

A count is a whole number of a bounded width, so the blocks must not be larger than that; and an
empty block has no largest magnitude.  The norms of all other orders show what is infinite or not a
number: nothing of that kind is lost in a maximum, a sum or a root.

* `Number.order` — the order that a parameter stands for.
* `lpNorm` — the norm of an order.
* `Number.Measures` — what keeps the computation exact.
* `extendedNorm` — the norm where elements may be infinite or not numbers.
* `power_reads` — powers, by whichever function they are computed.
* **`blockNorm_extended`** — the norms that are computed, of orders other than zero.
* **`blockNorm_reads`** — the norms of real numbers, of every order.
-/

namespace PrimalDual

open Exact NdArray ENNReal

variable {s : Shape} {f : ℕ → ℝ} {m : ℕ} {v : Fin m → ℝ} {a x : NdArray Exact}
  {ord e : Number Exact} {p : ℝ} {rank : ℤ} {F : ℕ → Exact}

/-! ## Orders -/

namespace Number

/-- The order of a norm that a parameter stands for. -/
noncomputable def order (n : Number Exact) : ℝ≥0∞ :=
  match n.value with
  | .finite p => ENNReal.ofReal p
  | .infinite _ => ⊤
  | .notANumber => 0

lemma order_of_is (h : e.Is p) : e.order = ENNReal.ofReal p := by
  rw [order, h]

lemma equals_iff {n : Number Exact} {y z : ℝ} (hm : e.Is y) (hn : n.Is z) :
    e.equals n = true ↔ y = z := by
  rw [equals, Bool.and_eq_true, atMost_iff hm hn, atMost_iff hn hm, le_antisymm_iff]

/-- What is not negative is a real number that is not, or infinite. -/
lemma nonneg_cases (h : (int 0 : Number Exact).atMost e = true) :
    (∃ p, e.Is p ∧ 0 ≤ p) ∨ e.value = infinite false := by
  have hvalue := h
  rw [atMost_eq] at hvalue
  cases hv : e.value with
  | finite p =>
    left
    refine ⟨p, hv, ?_⟩
    have hle := (atMost_iff (is_int 0) hv).mp h
    rwa [Int.cast_zero] at hle
  | infinite t =>
    cases t with
    | false => exact Or.inr rfl
    | true =>
      rw [hv, value, ofInt_eq] at hvalue
      cases hvalue
  | notANumber =>
    rw [hv, value, ofInt_eq] at hvalue
    cases hvalue

lemma isPositive_of_nonneg (h : (int 0 : Number Exact).atMost e = true) (hzero : ¬ e.Is 0) :
    e.isPositive = true := by
  rcases nonneg_cases h with ⟨p, he, hp⟩ | hinfinite
  · exact (isPositive_iff he).mpr (hp.lt_of_ne' fun h0 => hzero (h0 ▸ he))
  · cases e with
    | bool t => cases t <;> simp [value] at hinfinite
    | int k => simp [value] at hinfinite
    | real a =>
      obtain rfl : a = infinite false := hinfinite
      decide

/--
Norms of this order over the last `rank` axes are exact: elements are only counted in blocks whose size
is a 64-bit integer, and the largest one is only sought where there is one.
-/
structure Measures (ord : Number Exact) (rank : ℤ) (s : Shape) : Prop where
  axes : rank.toNat ≤ s.length
  countable : ord.Is 0 → ((s.tail rank.toNat).size : ℤ) ≤ WholeKind.int64.greatest
  inhabited : ord.value = infinite false → 0 < (s.tail rank.toNat).size

end Number

/-! ## Norms of real numbers -/

/-- The norm of order `q`. -/
noncomputable def lpNorm (q : ℝ≥0∞) {m : ℕ} (v : Fin m → ℝ) : ℝ :=
  ‖(WithLp.toLp q v : PiLp q fun _ : Fin m => ℝ)‖

lemma lpNorm_zero (v : Fin m → ℝ) :
    lpNorm 0 v = (Finset.univ.filter fun j => decide (0 < |v j|) = true).card := by
  rw [lpNorm, PiLp.norm_eq_card]
  congr 2
  ext j
  simp [Real.norm_eq_abs]

lemma lpNorm_top (v : Fin m → ℝ) : lpNorm ⊤ v = ⨆ j, |v j| := PiLp.norm_eq_ciSup _

lemma lpNorm_ofReal (hp : 0 < p) (v : Fin m → ℝ) :
    lpNorm (ENNReal.ofReal p) v = (∑ j, |v j| ^ p) ^ (1 / p) := by
  have hreal : (ENNReal.ofReal p).toReal = p := ENNReal.toReal_ofReal hp.le
  rw [lpNorm, PiLp.norm_eq_sum (by rwa [hreal]), hreal]
  rfl

lemma lpNorm_one (v : Fin m → ℝ) : lpNorm (ENNReal.ofReal 1) v = ∑ j, |v j| := by
  rw [lpNorm_ofReal one_pos, div_one, Real.rpow_one]
  exact Finset.sum_congr rfl fun j _ => Real.rpow_one _

lemma lpNorm_two (v : Fin m → ℝ) : lpNorm (ENNReal.ofReal 2) v = √(∑ j, |v j| * |v j|) := by
  rw [lpNorm_ofReal two_pos, ← Real.sqrt_eq_rpow]
  congr 1
  refine Finset.sum_congr rfl fun j _ => ?_
  rw [Real.rpow_two, sq]

lemma lpNorm_nonneg {q : ℝ≥0∞} (v : Fin m → ℝ) : 0 ≤ lpNorm q v := by
  rcases eq_or_ne q ⊤ with rfl | htop
  · rw [lpNorm_top]
    exact Real.iSup_nonneg fun j => abs_nonneg _
  · rcases eq_or_ne q 0 with rfl | hzero
    · rw [lpNorm_zero]
      exact Nat.cast_nonneg _
    · rw [← ENNReal.ofReal_toReal htop, lpNorm_ofReal (ENNReal.toReal_pos hzero htop)]
      exact Real.rpow_nonneg (Finset.sum_nonneg fun j _ => Real.rpow_nonneg (abs_nonneg _) _) _

/-! ## Norms of numbers that may be infinite or none -/

/-- The norm of order `q`, unless an element is infinite or not a number. -/
noncomputable def extendedNorm (q : ℝ≥0∞) (u : Fin m → Exact) : Exact :=
  gather u (lpNorm q fun j => (u j).toReal)

lemma extendedNorm_of_finite (q : ℝ≥0∞) {u : Fin m → Exact} (h : ∀ j, u j = finite (v j)) :
    extendedNorm q u = finite (lpNorm q v) := by
  have hreal : (fun j => (u j).toReal) = v := funext fun j => by rw [h j, toReal_finite]
  rw [extendedNorm, gather_of_finite h, hreal]

/-! ## Powers -/

/-- A positive power of magnitudes, by whichever function it is computed. -/
lemma power_reads (ha : a.Reads s F) (hk : a.kind.isReal = true)
    (hF : ∀ k < s.size, Scalar.abs (F k) = F k) (he : e.Is p) (hp : 0 < p) :
    Yields (a.power e) fun y =>
      y.kind.isReal = true ∧ y.Reads s fun k => (F k).lift fun x => x ^ p := by
  have htwo := Number.equals_iff he Number.is_two
  have hhalf := Number.equals_iff he (Number.is_real (((1 : ℤ) : ℝ) / (2 : ℤ)))
  have hone := Number.equals_iff he Number.is_one
  have hzero := Number.equals_iff he (Number.is_int 0)
  have hminus := Number.equals_iff he (Number.is_int (-1))
  rw [power]
  split_ifs with h₂ h₃ h₁ h₀ hm
  · refine Yields.ok ⟨square_kind hk, (ha.square hk).congr fun k _ => ?_⟩
    have hsquare : (fun x : ℝ => x ^ p) = fun x => x * x := by
      funext x
      rw [htwo.mp h₂, Real.rpow_two, sq]
    rw [hsquare, mul_self_eq_lift]
  · refine Yields.ok ⟨rfl, (ha.map Scalar.sqrt).congr fun k hk => ?_⟩
    have hroot : (fun x : ℝ => x ^ p) = Real.sqrt := by
      funext x
      rw [hhalf.mp h₃, Real.sqrt_eq_rpow]
      norm_num
    rw [hroot, sqrt_eq_lift (hF k hk)]
  · refine Yields.ok ⟨hk, ha.congr fun k hk => ?_⟩
    have hsame : (fun x : ℝ => x ^ p) = fun x => x := by
      funext x
      rw [hone.mp h₁, Real.rpow_one]
    rw [hsame]
    obtain ⟨x, -, hx⟩ | hx | hx := magnitude_cases (hF k hk) <;> rw [hx] <;> rfl
  · have := hzero.mp h₀
    rw [Int.cast_zero] at this
    exact absurd this hp.ne'
  · have := hminus.mp hm
    push_cast at this
    linarith
  · rw [Number.toReal_eq, he]
    refine Yields.pure ⟨rfl, (ha.map _).congr fun k hk => ?_⟩
    exact pow_eq_lift (hF k hk) hp

/-! ## Norms of blocks -/

lemma magnitude_reads (hx : x.Reads s F) : x.magnitude.Reads s fun k => (F k).lift abs :=
  (hx.map Scalar.abs).congr fun k _ => abs_eq_lift (F k)

lemma magnitude_axes (hx : x.Reads s F) (haxes : rank.toNat ≤ s.length) :
    ¬ x.magnitude.rank < rank.toNat := by
  rw [NdArray.rank, (magnitude_reads hx).shape_eq]
  exact not_lt.mpr haxes

lemma abs_magnitude (F : ℕ → Exact) (k : ℕ) :
    Scalar.abs ((F k).lift abs) = (F k).lift abs := abs_lift abs_nonneg (F k)

/-- Order zero counts. -/
lemma countNorm_reads (hx : x.Reads s fun k => finite (f k)) {r : ℕ}
    (hm : ((s.tail r).size : ℤ) ≤ WholeKind.int64.greatest) :
    Yields (compare .below (.number (.int 0)) (.array x.magnitude) >>= fun positive =>
        pure (positive.sumTail r)) fun y => y.kind = .whole .int64 ∧
      y.Reads (s.collapsed r) fun k => finite (lpNorm 0 (blockOf f (s.tail r).size k)) := by
  refine (number_compare_marks .below (magnitude_reads hx) (.int 0)).bind fun y hy => ?_
  obtain ⟨hkind, hcounts⟩ := sumTail_counts hy hm
  refine Yields.pure ⟨hkind, hcounts.congr fun k hk => ?_⟩
  rw [lpNorm_zero]
  congr 3
  ext j
  simp only [Finset.mem_filter, Finset.mem_univ, true_and]
  show Scalar.less (Scalar.ofInt 0) (finite |f (k * (s.tail r).size + j)|) = true ↔ _
  rw [ofInt_eq, Int.cast_zero, less_finite]
  rfl

/-- Order infinity takes the largest magnitude. -/
lemma largestNorm_reads (hx : x.Reads s F) {r : ℕ} (hm : 0 < (s.tail r).size) :
    Yields (x.magnitude.maxTail r) fun y => y.kind.isReal = true ∧
      y.Reads (s.collapsed r) fun k => extendedNorm ⊤ (blockOf F (s.tail r).size k) := by
  refine (maxTail_gather (magnitude_reads hx) hm fun k _ => abs_magnitude F k).mono fun y hy =>
    ⟨hy.1, hy.2.congr fun k _ => ?_⟩
  rw [gather_blockOf abs_zero fun v => ⨆ j, v j, extendedNorm, lpNorm_top]

/-- Order one adds up. -/
lemma sumNorm_reads (hx : x.Reads s F) (r : ℕ) :
    (x.magnitude.sumTail r).kind.isReal = true ∧ (x.magnitude.sumTail r).Reads (s.collapsed r)
      fun k => extendedNorm (ENNReal.ofReal 1) (blockOf F (s.tail r).size k) := by
  obtain ⟨hkind, hsum⟩ :=
    sumTail_gather (magnitude_reads hx) rfl (r := r) fun k _ => abs_magnitude F k
  refine ⟨hkind, hsum.congr fun k _ => ?_⟩
  rw [gather_blockOf abs_zero fun v => ∑ j, v j, extendedNorm, lpNorm_one]

/-- Order two is the Euclidean length. -/
lemma lengthNorm_reads (hx : x.Reads s F) (r : ℕ) :
    (x.magnitude.square.sumTail r).squareRoot.Reads (s.collapsed r) fun k =>
      extendedNorm (ENNReal.ofReal 2) (blockOf F (s.tail r).size k) := by
  have hsquares : x.magnitude.square.Reads s fun k => (F k).lift fun x => |x| * |x| :=
    ((magnitude_reads hx).square rfl).congr fun k _ => by rw [mul_self_eq_lift, lift_lift]
  obtain ⟨-, hsum⟩ := sumTail_gather hsquares (square_kind rfl) (r := r) fun k _ =>
    abs_lift (fun x => mul_self_nonneg |x|) (F k)
  refine (hsum.map Scalar.sqrt).congr fun k _ => ?_
  have hzero : |(0 : ℝ)| * |0| = 0 := by rw [abs_zero, mul_zero]
  have hnonneg (v : Fin (s.tail r).size → ℝ) : 0 ≤ ∑ j, |v j| * |v j| :=
    Finset.sum_nonneg fun j _ => mul_self_nonneg _
  rw [gather_blockOf (g := fun x => |x| * |x|) hzero fun v => ∑ j, v j,
    sqrt_eq_lift (abs_gather (hnonneg _) _), lift_gather, extendedNorm, lpNorm_two]

/-- Orders other than zero, one, two and infinity take powers and their root. -/
lemma powerNorm_reads (hx : x.Reads s F) (ho : ord.Is p) (hp : 0 < p) (r : ℕ) :
    Yields (do
        let powers ← x.magnitude.power ord
        let root ← (Number.int 1).div ord
        (powers.sumTail r).power root) fun y => y.kind.isReal = true ∧
      y.Reads (s.collapsed r) fun k =>
        extendedNorm (ENNReal.ofReal p) (blockOf F (s.tail r).size k) := by
  refine (power_reads (magnitude_reads hx) rfl (fun k _ => abs_magnitude F k) ho hp).bind
    fun y ⟨hkind, hy⟩ => ?_
  refine (Number.div_yields Number.is_one ho hp.ne').bind fun root hroot => ?_
  have hpowers : y.Reads s fun k => (F k).lift fun x => |x| ^ p :=
    hy.congr fun k _ => by rw [lift_lift]
  obtain ⟨hkind', hsum⟩ := sumTail_gather hpowers hkind (r := r) fun k _ =>
    abs_lift (fun x => Real.rpow_nonneg (abs_nonneg x) p) (F k)
  have hzero : |(0 : ℝ)| ^ p = 0 := by rw [abs_zero, Real.zero_rpow hp.ne']
  have hnonneg (v : Fin (s.tail r).size → ℝ) : 0 ≤ ∑ j, |v j| ^ p :=
    Finset.sum_nonneg fun j _ => Real.rpow_nonneg (abs_nonneg _) _
  have hsum' : (y.sumTail r).Reads (s.collapsed r) fun k => gather (blockOf F (s.tail r).size k)
      (∑ j, |(blockOf F (s.tail r).size k j).toReal| ^ p) :=
    hsum.congr fun k _ => gather_blockOf (g := fun x => |x| ^ p) hzero (fun v => ∑ j, v j) k
  refine (power_reads hsum' hkind' (fun k _ => abs_gather (hnonneg _) _) hroot
    (one_div_pos.mpr hp)).mono fun z hz => ⟨hz.1, hz.2.congr fun k _ => ?_⟩
  rw [lift_gather, extendedNorm, lpNorm_ofReal hp]

/--
**What is computed is the norm** of each block, for every order other than zero; where an element is
infinite or not a number, so is the norm.
-/
theorem blockNorm_extended (hord : ord.isPositive = true) (hm : ord.Measures rank s)
    (hx : x.Reads s F) :
    Yields (blockNorm x ord rank) fun y => y.kind.isReal = true ∧
      y.Reads (s.collapsed rank.toNat) fun k =>
        extendedNorm ord.order (blockOf F (s.tail rank.toNat).size k) := by
  rw [blockNorm, if_neg (magnitude_axes hx hm.axes)]
  rcases Number.isPositive_cases hord with ⟨p, ho, hp⟩ | rfl
  · have hbounded : ord.equals (.real Scalar.inf) = false := by
      rw [Number.equals, Number.atMost_eq, Number.atMost_eq, ho]
      rfl
    have hnonzero : ord.isZero = false := by
      rw [← Bool.not_eq_true, Number.isZero_iff ho]
      exact hp.ne'
    rw [Number.order_of_is ho, hbounded, hnonzero, if_neg Bool.false_ne_true,
      if_neg Bool.false_ne_true]
    split_ifs with hone htwo
    · obtain rfl : p = 1 := (Number.equals_iff ho Number.is_one).mp hone
      exact Yields.ok (sumNorm_reads hx rank.toNat)
    · obtain rfl : p = 2 := (Number.equals_iff ho Number.is_two).mp htwo
      exact Yields.ok ⟨rfl, lengthNorm_reads hx rank.toNat⟩
    · exact powerNorm_reads hx ho hp rank.toNat
  · exact largestNorm_reads hx (hm.inhabited rfl)

/-- **What is computed is the norm** of each block of real numbers. -/
theorem blockNorm_reads (hord : (Number.int 0).atMost ord = true) (hm : ord.Measures rank s)
    (hx : x.Reads s fun k => finite (f k)) :
    Yields (blockNorm x ord rank) fun y =>
      (y.kind.isReal = true ∨ ord.Is 0 ∧ y.kind = .whole .int64) ∧
      y.Reads (s.collapsed rank.toNat) fun k =>
        finite (lpNorm ord.order (blockOf f (s.tail rank.toNat).size k)) := by
  by_cases hzero : ord.Is 0
  · rw [blockNorm, if_neg (magnitude_axes hx hm.axes), if_pos ((Number.isZero_iff hzero).mpr rfl),
      Number.order_of_is hzero, ENNReal.ofReal_zero]
    exact (countNorm_reads hx (hm.countable hzero)).mono fun y hy => ⟨Or.inr ⟨hzero, hy.1⟩, hy.2⟩
  · have hpositive := Number.isPositive_of_nonneg hord hzero
    exact (blockNorm_extended hpositive hm hx).mono fun y hy =>
      ⟨Or.inl hy.1, hy.2.congr fun k _ => extendedNorm_of_finite _ fun j => rfl⟩

end PrimalDual
