import PrimalDual.Proofs.NdArray.Truth

/-!
# Arrays of any shape, element by element

The points of a stack lie along one trailing axis.  Stopping criteria measure blocks of any number of
trailing axes, and where they count elements the result consists of whole numbers.  This file reads
an array of any shape and of any kind in the order of its elements.

* `NdArray.Reads`, `NdArray.Marks` — the elements of an array, and truth values.
* `NdArray.Meets` — what the elements of a shape meet in an array that is spread over it.
* `zipReal_reads`, `compareArrays_marks` — two arrays, of whichever kinds.
* `arith_sub_reads`, `arith_div_reads`, `arith_mul_reads`, `arith_mul_real_reads` — arithmetic.
* `sumTail_reads`, `sumTail_counts`, `largest_eq` — sums, counts and maxima over trailing axes.
-/

namespace PrimalDual

open Exact NdArray

variable {s : Shape} {b : Backend} {F G : ℕ → Exact} {T : ℕ → Bool} {a c : NdArray Exact}

/-- An element of a kind is kept by its width. -/
lemma WholeKind.wrap_of_holds {w : WholeKind} {i : ℤ} (h : w.holds i = true) : w.wrap i = i := by
  rw [holds, Bool.and_eq_true, decide_eq_true_eq, decide_eq_true_eq] at h
  rw [wrap, Int.emod_eq_of_lt (by omega) (by omega)]
  omega

namespace NdArray

/-- The array has shape `s`, and its elements read as scalars are `F 0, F 1, …`. -/
structure Reads (a : NdArray Exact) (s : Shape) (F : ℕ → Exact) : Prop where
  shape_eq : a.shape = s
  entry : ∀ k < s.size, a.realAt k = F k

/-- The array has shape `s`, and its elements are the truth values `T 0, T 1, …`. -/
structure Marks (a : NdArray Exact) (s : Shape) (T : ℕ → Bool) : Prop where
  shape_eq : a.shape = s
  kind_eq : a.kind = .whole .bool
  entry : ∀ k < s.size, a.wholeAt k = if T k then 1 else 0

/-- The array can be spread over shape `s`, and the elements of that shape meet `F 0, F 1, …`. -/
structure Meets (a : NdArray Exact) (s : Shape) (F : ℕ → Exact) : Prop where
  fits : s.broadcast? a.shape = some s
  entry : ∀ k < s.size, a.realAt (s.project a.shape k) = F k

lemma Reads.congr (ha : a.Reads s F) (h : ∀ k < s.size, F k = G k) : a.Reads s G :=
  ⟨ha.shape_eq, fun k hk => (ha.entry k hk).trans (h k hk)⟩

lemma Reads.meets (ha : a.Reads s F) : a.Meets s F where
  fits := by rw [ha.shape_eq, Shape.broadcast?_self]
  entry k hk := by rw [ha.shape_eq, Shape.project_self _ _ hk, ha.entry k hk]

lemma tabulate_reads (p : Precision) (F : ℕ → Exact) : (tabulate b s p F).Reads s F :=
  ⟨rfl, fun k hk => realAt_tabulate _ _ _ _ k hk⟩

lemma tabulateWhole_marks {f : ℕ → ℤ} (hf : ∀ k < s.size, f k = if T k then 1 else 0) :
    (tabulateWhole b s .bool f : NdArray Exact).Marks s T :=
  ⟨rfl, rfl, fun k hk => (wholeAt_tabulateWhole _ _ _ _ hk).trans (hf k hk)⟩

/-- A scalar function of every element. -/
lemma Reads.map (ha : a.Reads s F) (f : Exact → Exact) : (a.mapReal f).Reads s fun k => f (F k) := by
  rw [mapReal, ha.shape_eq]
  refine (tabulate_reads _ _).congr fun k hk => ?_
  rw [narrow_eq, ha.entry k hk]

/-- The squares of floating-point elements. -/
lemma Reads.square (ha : a.Reads s F) (hk : a.kind.isReal = true) :
    a.square.Reads s fun k => F k * F k := by
  obtain ⟨p, hp⟩ := exists_precision hk
  simp only [NdArray.square, hp, ha.shape_eq, narrow_eq]
  exact (tabulate_reads p _).congr fun k hk => by rw [ha.entry k hk]

lemma square_kind (hk : a.kind.isReal = true) : a.square.kind.isReal = true := by
  obtain ⟨p, hp⟩ := exists_precision hk
  simp only [NdArray.square, hp]
  rfl

end NdArray

/-! ## Two arrays -/

lemma zipReal_reads (p : Precision) (f : Exact → Exact → Exact)
    (hs : Shape.broadcast? a.shape c.shape = some s) (ha : a.Meets s F) (hc : c.Meets s G) :
    Yields (zipReal p f a c) fun y => y.kind.isReal = true ∧ y.Reads s fun k => f (F k) (G k) := by
  simp only [zipReal, hs, narrow_eq]
  refine Yields.ok ⟨rfl, (tabulate_reads p _).congr fun k hk => ?_⟩
  rw [ha.entry k hk, hc.entry k hk]

/-- Whole numbers compare as the scalars that they are. -/
lemma Relation.onInt_eq (rel : Relation) (i j : ℤ) :
    rel.onInt i j = rel.onReal (finite i) (finite j) := by
  cases rel with
  | atMost =>
    show decide (i ≤ j) = decide ((i : ℝ) ≤ j)
    simp only [Int.cast_le]
  | below =>
    show decide (i < j) = decide ((i : ℝ) < j)
    simp only [Int.cast_lt]

lemma compareArrays_marks (rel : Relation) (hs : Shape.broadcast? a.shape c.shape = some s)
    (ha : a.Meets s F) (hc : c.Meets s G) :
    Yields (compareArrays rel a c) (·.Marks s fun k => rel.onReal (F k) (G k)) := by
  simp only [compareArrays, hs]
  refine Yields.ok (tabulateWhole_marks fun k hk => ?_)
  by_cases hreal : (a.kind.isReal || c.kind.isReal) = true
  · rw [if_pos hreal, ha.entry k hk, hc.entry k hk]
  · rw [if_neg hreal]
    -- both consist of whole numbers
    rw [Bool.or_eq_true, not_or] at hreal
    have hwhole : ∀ d : NdArray Exact, ¬ d.kind.isReal = true → ∃ w, d.kind = .whole w := by
      intro d hd
      cases hk : d.kind with
      | whole w => exact ⟨w, rfl⟩
      | real p => exact absurd (by rw [hk]; rfl) hd
    obtain ⟨v, hv⟩ := hwhole a hreal.1
    obtain ⟨w, hw⟩ := hwhole c hreal.2
    have hleft := ha.entry k hk
    have hright := hc.entry k hk
    rw [realAt_whole hv] at hleft
    rw [realAt_whole hw] at hright
    rw [Relation.onInt_eq, hleft, hright]

/-! ## Numbers -/

/-- A number that is spread as floating-point elements, or as whole ones if it is whole. -/
lemma spread_meets (s : Shape) (x : Number Exact) (k : Kind) (h : k.isReal = true ∨ ∃ i, x.whole? = some i) :
    Yields (x.spread k) fun y => y.shape = [] ∧ y.kind = k ∧ y.Meets s fun _ => x.value := by
  have hentry : ∀ y : NdArray Exact, y.shape = [] → y.realAt 0 = x.value →
      y.Meets s fun _ => x.value := by
    intro y hy hread
    refine ⟨by rw [hy, Shape.broadcast?_nil], fun k _ => ?_⟩
    rw [hy, Shape.project_nil, hread]
  cases k with
  | real p =>
    rw [spread_real]
    exact Yields.ok ⟨rfl, rfl, hentry _ rfl (realAt_tabulate _ _ _ _ 0 Nat.one_pos)⟩
  | whole w =>
    obtain ⟨i, hi⟩ := h.resolve_left Bool.false_ne_true
    refine Yields.ok ⟨rfl, rfl, hentry _ rfl ?_⟩
    rw [realAt_whole rfl, wholeAt_tabulateWhole _ _ _ _ Nat.one_pos, hi,
      Number.value_of_whole? hi]
    rfl

lemma comparisonKind_spreads (x : Number Exact) (k : Kind) :
    (x.comparisonKind k).isReal = true ∨ ∃ i, x.whole? = some i := by
  cases k with
  | real p => exact Or.inl rfl
  | whole w =>
    cases x with
    | bool t => exact Or.inr ⟨_, rfl⟩
    | int i => exact Or.inr ⟨_, rfl⟩
    | real y => exact Or.inl rfl

section

variable (rel : Relation)

/-- The comparison of two arrays of one shape. -/
lemma compare_marks (ha : a.Reads s F) (hc : c.Reads s G) :
    Yields (compare rel (.array a) (.array c)) (·.Marks s fun k => rel.onReal (F k) (G k)) := by
  refine compareArrays_marks rel ?_ ha.meets hc.meets
  rw [ha.shape_eq, hc.shape_eq, Shape.broadcast?_self]

/-- The comparison of an array with a number. -/
lemma compare_number_marks (ha : a.Reads s F) (x : Number Exact) :
    Yields (compare rel (.array a) (.number x)) (·.Marks s fun k => rel.onReal (F k) x.value) := by
  refine (spread_meets s x _ (comparisonKind_spreads x a.kind)).bind fun y hy => ?_
  refine compareArrays_marks rel ?_ ha.meets hy.2.2
  rw [ha.shape_eq, hy.1, Shape.broadcast?_nil]

/-- The comparison of a number with an array. -/
lemma number_compare_marks (ha : a.Reads s F) (x : Number Exact) :
    Yields (compare rel (.number x) (.array a)) (·.Marks s fun k => rel.onReal x.value (F k)) := by
  refine (spread_meets s x _ (comparisonKind_spreads x a.kind)).bind fun y hy => ?_
  refine compareArrays_marks rel ?_ hy.2.2 ha.meets
  rw [ha.shape_eq, hy.1, Shape.broadcast?_comm, Shape.broadcast?_nil]

end

/-! ## Arithmetic -/

/-- The difference of two arrays of one shape, one of them floating-point. -/
lemma arith_sub_reads (ha : a.Reads s F) (hc : c.Reads s G)
    (hk : a.kind.isReal = true ∨ c.kind.isReal = true) :
    Yields (arith .sub (.array a) (.array c)) fun y =>
      y.kind.isReal = true ∧ y.Reads s fun k => F k - G k := by
  obtain ⟨p, hp⟩ := Kind.join_of_isReal (j := a.kind) (k := c.kind) hk
  rw [arith, hp]
  refine zipReal_reads p _ ?_ ha.meets hc.meets
  rw [ha.shape_eq, hc.shape_eq, Shape.broadcast?_self]

/-- The quotient of two arrays of one shape; it is floating-point whatever they are. -/
lemma arith_div_reads (ha : a.Reads s F) (hc : c.Reads s G) :
    Yields (arith .div (.array a) (.array c)) fun y =>
      y.kind.isReal = true ∧ y.Reads s fun k => F k / G k := by
  have hs : Shape.broadcast? a.shape c.shape = some s := by
    rw [ha.shape_eq, hc.shape_eq, Shape.broadcast?_self]
  rw [arith]
  cases a.kind.join c.kind with
  | real p => exact zipReal_reads p _ hs ha.meets hc.meets
  | whole w => exact zipReal_reads .double _ hs ha.meets hc.meets

/-- The product of a scalar and an array; it is floating-point whatever the array is. -/
lemma arith_mul_real_reads (e : Exact) (hc : c.Reads s F) :
    Yields (arith .mul (.number (.real e)) (.array c)) (·.Reads s fun k => e * F k) := by
  obtain ⟨p, hp⟩ : ∃ p, (Number.real e).kindBeside c.kind = .ok (.real p) := by
    cases c.kind with
    | real p => exact ⟨p, rfl⟩
    | whole w => exact ⟨.double, rfl⟩
  rw [arith, hp]
  show Yields ((Number.real e).spread (.real p) >>= fun y => zipReal p (· * ·) y c) _
  refine (spread_meets s (.real e) (.real p) (Or.inl rfl)).bind fun y hy => ?_
  have hs : Shape.broadcast? y.shape c.shape = some s := by
    rw [hy.1, hc.shape_eq, Shape.broadcast?_comm, Shape.broadcast?_nil]
  exact (zipReal_reads p _ hs hy.2.2 hc.meets).mono fun z hz => hz.2

/--
The product of a number and an array.  A whole number and whole elements have a whole product, which
has to fit into the kind of the elements, as the number itself has to.
-/
lemma arith_mul_reads {x : Number Exact} (hc : c.Reads s F)
    (hroom : c.kind.isReal = true ∨ c.kind = .whole .int64 ∧
      ∀ i, x.whole? = some i → WholeKind.int64.holds i = true ∧
        ∀ k < s.size, WholeKind.int64.holds (i * c.wholeAt k) = true) :
    Yields (arith .mul (.number x) (.array c)) (·.Reads s fun k => x.value * F k) := by
  have hs : ∀ y : NdArray Exact, y.shape = [] → Shape.broadcast? y.shape c.shape = some s := by
    intro y hy
    rw [hy, hc.shape_eq, Shape.broadcast?_comm, Shape.broadcast?_nil]
  have hproduct : ∀ p y, y.shape = [] → y.Meets s (fun _ => x.value) →
      Yields (zipReal p (· * ·) y c) (·.Reads s fun k => x.value * F k) :=
    fun p y hshape hy => (zipReal_reads p _ (hs y hshape) hy hc.meets).mono fun z hz => hz.2
  rcases hroom with hreal | ⟨hwhole, hroom⟩
  · obtain ⟨p, hp⟩ := exists_precision hreal
    simp only [arith, hp, Number.kindBeside]
    exact (spread_meets s x (.real p) (Or.inl rfl)).bind fun y hy => hproduct p y hy.1 hy.2.2
  · cases hx : x.whole? with
    | none =>
      obtain ⟨e, rfl⟩ : ∃ e, x = .real e := ⟨_, Number.eq_real_of_whole? hx⟩
      exact arith_mul_real_reads e hc
    | some i =>
      obtain ⟨hfits, hfit⟩ := hroom i hx
      have hbeside : x.kindBeside (.whole .int64) = .ok (.whole .int64) := by
        cases x with
        | bool t => rfl
        | int j =>
          obtain rfl : j = i := by simpa [Number.whole?] using hx
          simp only [Number.kindBeside, hfits, if_true]
        | real e => simp [Number.whole?] at hx
      simp only [arith, hwhole, hbeside]
      show Yields (x.spread (.whole .int64) >>= fun y => combineIn .mul (.whole .int64) y c) _
      refine (spread_meets s x (.whole .int64) (Or.inr ⟨i, hx⟩)).bind fun y hy => ?_
      show Yields (zipWhole .int64 (· * ·) y c) _
      simp only [zipWhole, hs y hy.1]
      refine Yields.ok ⟨rfl, fun k hk => ?_⟩
      have hone : y.wholeAt (s.project y.shape k) = i := by
        have hread := hy.2.2.entry k hk
        rw [realAt_whole hy.2.1, Number.value_of_whole? hx, finite.injEq] at hread
        exact_mod_cast hread
      have hother : finite (c.wholeAt k : ℝ) = F k := by
        rw [← realAt_whole hwhole, hc.entry k hk]
      rw [realAt_whole rfl, wholeAt_tabulateWhole _ _ _ _ hk, hone, hc.shape_eq,
        Shape.project_self _ _ hk, WholeKind.wrap_of_holds (hfit k hk), Int.cast_mul, ← finite_mul,
        hother, Number.value_of_whole? hx]

/-! ## Trailing axes

A function of the last `r` axes leaves axes of length one in their place, so that there is one element
for each point of the leading axes.  The block of point `k` starts at `k` times the size of a block.
-/

namespace Shape

lemma size_ones (r : ℕ) : size (List.replicate r 1) = 1 := by
  induction r with
  | zero => rfl
  | succ r ih => rw [List.replicate_succ, size_cons, ih]

lemma size_lead_mul_tail (s : Shape) (r : ℕ) : (s.lead r).size * (s.tail r).size = s.size := by
  rw [← size_append, Shape.lead, Shape.tail, List.take_append_drop]

/-- The shape with one element for each point of the leading axes. -/
def collapsed (s : Shape) (r : ℕ) : Shape := s.replaceTail r (List.replicate r 1)

lemma size_collapsed (s : Shape) (r : ℕ) : (s.collapsed r).size = (s.lead r).size := by
  rw [collapsed, size_replaceTail, size_ones, Nat.mul_one]

lemma block_lt {s : Shape} {r k j : ℕ} (hk : k < (s.collapsed r).size) (hj : j < (s.tail r).size) :
    k * (s.tail r).size + j < s.size := by
  rw [size_collapsed] at hk
  rw [← size_lead_mul_tail s r]
  calc k * (s.tail r).size + j < (k + 1) * (s.tail r).size := by rw [Nat.succ_mul]; omega
    _ ≤ (s.lead r).size * (s.tail r).size := Nat.mul_le_mul_right _ hk

end Shape

/-- The block of point `k`, of `m` elements. -/
def blockOf {β : Type} (f : ℕ → β) (m k : ℕ) : Fin m → β := fun j => f (k * m + j)

variable {f : ℕ → ℝ}

namespace NdArray

lemma sumTail_reads (ha : a.Reads s fun k => finite (f k)) (hk : a.kind.isReal = true) (r : ℕ) :
    (a.sumTail r).kind.isReal = true ∧ (a.sumTail r).Reads (s.collapsed r) fun k =>
      finite (∑ j, blockOf f (s.tail r).size k j) := by
  obtain ⟨p, hp⟩ := exists_precision hk
  simp only [sumTail, hp, mapTail, ha.shape_eq, roundedSum_eq, Shape.size_ones, Nat.div_one]
  refine ⟨rfl, (tabulate_reads p _).congr fun k hk => ?_⟩
  exact total_of_reads fun j => ha.entry _ (Shape.block_lt hk j.isLt)

/-- The truth values that hold in a block are counted. -/
lemma foldl_count {T : ℕ → Bool} {m : ℕ} {u : ℕ → ℤ} (hu : ∀ j < m, u j = if T j then 1 else 0) :
    (blockInts m u).foldl (fun x y => x + y) 0
      = ((Finset.univ.filter fun j : Fin m => T j = true).card : ℤ) := by
  have hlist : blockInts m u = List.ofFn fun j : Fin m => u j := by
    refine List.ext_getElem (by simp [blockInts]) fun i _ _ => by simp [blockInts]
  rw [← List.sum_eq_foldl, hlist, List.sum_ofFn, Finset.card_filter]
  push_cast
  exact Finset.sum_congr rfl fun j _ => hu j j.isLt

/-- A count is exact as long as the block has no more elements than there are 64-bit integers. -/
lemma sumTail_counts (ha : a.Marks s T) {r : ℕ}
    (hm : ((s.tail r).size : ℤ) ≤ WholeKind.int64.greatest) :
    (a.sumTail r).kind = .whole .int64 ∧ (a.sumTail r).Reads (s.collapsed r) fun k =>
      finite (Finset.univ.filter fun j => blockOf T (s.tail r).size k j = true).card := by
  simp only [sumTail, ha.kind_eq, mapTailWhole, ha.shape_eq, Shape.size_ones, Nat.div_one]
  refine ⟨rfl, rfl, fun k hk => ?_⟩
  have hcount := foldl_count (u := fun j => a.wholeAt (k * (s.tail r).size + j))
    fun j hj => ha.entry _ (Shape.block_lt hk hj)
  have hcard : (Finset.univ.filter fun j : Fin (s.tail r).size =>
      T (k * (s.tail r).size + j) = true).card ≤ (s.tail r).size := by
    refine (Finset.card_le_univ _).trans ?_
    rw [Fintype.card_fin]
  have hfits : WholeKind.int64.holds (Finset.univ.filter fun j : Fin (s.tail r).size =>
      T (k * (s.tail r).size + j) = true).card = true := by
    rw [WholeKind.holds, Bool.and_eq_true, decide_eq_true_eq, decide_eq_true_eq]
    refine ⟨?_, (Int.ofNat_le.mpr hcard).trans hm⟩
    show (-9223372036854775808 : ℤ) ≤ _
    omega
  refine (realAt_tabulateWhole _ _ _ _ hk).trans ?_
  show finite ((WholeKind.int64.wrap _ : ℤ) : ℝ) = _
  rw [hcount, WholeKind.wrap_of_holds hfits, Int.cast_natCast]
  rfl

lemma foldl_maximum (xs : List ℝ) (x : ℝ) :
    (xs.map finite).foldl Scalar.maximum (finite x) = finite (xs.foldl max x) := by
  induction xs generalizing x with
  | nil => rfl
  | cons y ys ih => rw [List.map_cons, List.foldl_cons, maximum_finite, ih, List.foldl_cons]

lemma foldl_max_mem (xs : List ℝ) (x : ℝ) :
    xs.foldl max x ∈ x :: xs ∧ ∀ y ∈ x :: xs, y ≤ xs.foldl max x := by
  induction xs generalizing x with
  | nil => simp
  | cons y ys ih =>
    obtain ⟨hmem, hle⟩ := ih (max x y)
    rw [List.foldl_cons]
    refine ⟨?_, fun z hz => ?_⟩
    · rcases List.mem_cons.mp hmem with h | h
      · rw [h]
        rcases max_choice x y with h' | h' <;> simp [h']
      · exact List.mem_cons_of_mem _ (List.mem_cons_of_mem _ h)
    · rcases List.mem_cons.mp hz with rfl | hz
      · exact (le_max_left z y).trans (hle _ List.mem_cons_self)
      · rcases List.mem_cons.mp hz with rfl | hz
        · exact (le_max_right x z).trans (hle _ List.mem_cons_self)
        · exact hle z (List.mem_cons_of_mem _ hz)

/-- The largest of the numbers in a block. -/
lemma largest_eq {m : ℕ} (hm : 0 < m) {u : ℕ → Exact} {v : Fin m → ℝ}
    (hu : ∀ j : Fin m, u j = finite (v j)) : largest (blockList m u) = finite (⨆ j, v j) := by
  have hlist : blockList m u = (List.ofFn v).map finite := by
    refine List.ext_getElem (by simp [blockList]) fun i hi _ => ?_
    have hin : i < m := by simpa [blockList] using hi
    simpa [blockList] using hu ⟨i, hin⟩
  rw [hlist]
  cases hv : List.ofFn v with
  | nil =>
    have hlength := congrArg List.length hv
    rw [List.length_ofFn, List.length_nil] at hlength
    omega
  | cons x xs =>
    obtain ⟨hmem, hle⟩ := foldl_max_mem xs x
    rw [← hv, List.mem_ofFn] at hmem
    obtain ⟨j, hj⟩ := hmem
    have hbelow : ∀ i, v i ≤ xs.foldl max x := fun i => hle _ (hv ▸ List.mem_ofFn.mpr ⟨i, rfl⟩)
    have : Nonempty (Fin m) := ⟨j⟩
    rw [List.map_cons, largest, foldl_maximum]
    congr 1
    refine le_antisymm ?_ (ciSup_le hbelow)
    rw [← hj]
    exact le_ciSup ⟨_, Set.forall_mem_range.mpr hbelow⟩ j

end NdArray

end PrimalDual
