import PrimalDual.Proofs.NdArray.Entries

/-!
# Sums and maxima of magnitudes

A magnitude is a real number that is not negative, infinite, or not a number.  Magnitudes are added
up and compared without any of them being lost: the sum and the maximum are not numbers as soon as
one element is none, and otherwise infinite as soon as one element is.

* `Exact.lift` — a function of real numbers, extended to what is not finite.
* `Exact.gather` — a number, unless some element is infinite or not a number.
* `Exact.Absorbs` — what sums and maxima have in common.
* **`Exact.total_eq_gather`**, **`Exact.largest_eq_gather`** — the sum and the maximum.
* `NdArray.sumTail_gather`, `NdArray.maxTail_gather` — the same over trailing axes.
-/

namespace PrimalDual

open NdArray

variable {m : ℕ} {x p : ℝ} {g : ℝ → ℝ} {d e : Exact} {u : Fin m → Exact}

namespace Exact

/-! ## Functions of real numbers -/

/-- A function of real numbers that takes either infinity to the positive one. -/
def lift (g : ℝ → ℝ) : Exact → Exact
  | finite x => finite (g x)
  | infinite _ => infinite false
  | notANumber => notANumber

lemma abs_eq_lift (e : Exact) : Scalar.abs e = e.lift abs := by cases e <;> rfl

lemma mul_self_eq_lift (e : Exact) : e * e = e.lift fun x => x * x := by
  cases e with
  | finite x => rfl
  | infinite s => cases s <;> rfl
  | notANumber => rfl

/-- A magnitude is not negative. -/
lemma nonneg_of_abs (h : Scalar.abs (finite x) = finite x) : 0 ≤ x := by
  rw [abs_finite, finite.injEq] at h
  exact abs_eq_self.mp h

lemma not_negative_of_abs (h : Scalar.abs e = e) : e ≠ infinite true := by
  rintro rfl
  cases h

lemma sqrt_eq_lift (h : Scalar.abs e = e) : Scalar.sqrt e = e.lift Real.sqrt := by
  cases e with
  | finite x => exact sqrt_finite (nonneg_of_abs h)
  | infinite s =>
    cases s with
    | false => rfl
    | true => exact absurd rfl (not_negative_of_abs h)
  | notANumber => rfl

lemma pow_eq_lift (h : Scalar.abs e = e) (hp : 0 < p) :
    Scalar.pow e (finite p) = e.lift fun x => x ^ p := by
  have hinfinite (s : Bool) : Scalar.pow (infinite s) (finite p)
      = infinite (s && decide (p = ⌊p⌋ ∧ Odd ⌊p⌋)) := by
    show (if p = 0 then finite 1 else if p < 0 then finite 0 else infinite _) = _
    rw [if_neg hp.ne', if_neg hp.not_gt]
  have hnan : Scalar.pow notANumber (finite p) = notANumber := by
    show (if p = 0 then finite 1 else notANumber) = _
    rw [if_neg hp.ne']
  cases e with
  | finite x => exact pow_finite (nonneg_of_abs h) hp
  | infinite s =>
    cases s with
    | false => exact hinfinite false
    | true => exact absurd rfl (not_negative_of_abs h)
  | notANumber => exact hnan

lemma abs_lift (hg : ∀ x, 0 ≤ g x) (e : Exact) : Scalar.abs (e.lift g) = e.lift g := by
  cases e with
  | finite x => exact congrArg finite (abs_of_nonneg (hg x))
  | infinite s => rfl
  | notANumber => rfl

lemma lift_lift (g h : ℝ → ℝ) (e : Exact) : (e.lift g).lift h = e.lift fun x => h (g x) := by
  cases e <;> rfl

lemma toReal_lift (hg : g 0 = 0) (e : Exact) : (e.lift g).toReal = g e.toReal := by
  cases e with
  | finite x => rfl
  | infinite s => exact hg.symm
  | notANumber => exact hg.symm

/-! ## What is not finite shows -/

open Classical in
/-- The number `x`, unless some element is infinite or not a number. -/
noncomputable def gather (u : Fin m → Exact) (x : ℝ) : Exact :=
  if ∃ j, u j = notANumber then notANumber
  else if ∃ j s, u j = infinite s then infinite false
  else finite x

lemma gather_of_finite {v : Fin m → ℝ} (h : ∀ j, u j = finite (v j)) : gather u x = finite x := by
  rw [gather, if_neg, if_neg]
  · rintro ⟨j, s, hj⟩
    cases (h j).symm.trans hj
  · rintro ⟨j, hj⟩
    cases (h j).symm.trans hj

lemma gather_lift (g : ℝ → ℝ) (u : Fin m → Exact) (x : ℝ) :
    gather (fun j => (u j).lift g) x = gather u x := by
  have hnan (j : Fin m) : (u j).lift g = notANumber ↔ u j = notANumber := by
    cases u j <;> simp [lift]
  have hinfinite (j : Fin m) : (∃ s, (u j).lift g = infinite s) ↔ ∃ s, u j = infinite s := by
    cases u j <;> simp [lift]
  classical
  rw [gather, gather]
  exact if_congr (exists_congr hnan) rfl (if_congr (exists_congr hinfinite) rfl rfl)

lemma lift_gather (g : ℝ → ℝ) (u : Fin m → Exact) (x : ℝ) :
    (gather u x).lift g = gather u (g x) := by
  rw [gather, gather]
  split_ifs <;> rfl

lemma abs_gather (hx : 0 ≤ x) (u : Fin m → Exact) : Scalar.abs (gather u x) = gather u x := by
  rw [abs_eq_lift, lift_gather, abs_of_nonneg hx]

/-! ## Sums and maxima -/

/-- An operation on magnitudes that loses nothing that is infinite or not a number. -/
structure Absorbs (op : Exact → Exact → Exact) : Prop where
  magnitude : ∀ d e, Scalar.abs d = d → Scalar.abs e = e → Scalar.abs (op d e) = op d e
  nan_left : ∀ e, op notANumber e = notANumber
  nan_right : ∀ e, op e notANumber = notANumber
  infinite_left : ∀ e, Scalar.abs e = e → e ≠ notANumber → op (infinite false) e = infinite false
  infinite_right : ∀ x, op (finite x) (infinite false) = infinite false
  finite_finite : ∀ x y, ∃ z, op (finite x) (finite y) = finite z

/-- A magnitude is a number, infinite, or not a number. -/
lemma magnitude_cases (h : Scalar.abs e = e) :
    (∃ x, 0 ≤ x ∧ e = finite x) ∨ e = infinite false ∨ e = notANumber := by
  cases e with
  | finite x => exact Or.inl ⟨x, nonneg_of_abs h, rfl⟩
  | infinite s =>
    cases s with
    | false => exact Or.inr (Or.inl rfl)
    | true => exact absurd rfl (not_negative_of_abs h)
  | notANumber => exact Or.inr (Or.inr rfl)

lemma add_absorbs : Absorbs (· + ·) where
  magnitude d e hd he := by
    obtain ⟨x, hx, rfl⟩ | rfl | rfl := magnitude_cases hd
    · obtain ⟨y, hy, rfl⟩ | rfl | rfl := magnitude_cases he
      · exact congrArg finite (abs_of_nonneg (add_nonneg hx hy))
      · rfl
      · rfl
    · obtain ⟨y, hy, rfl⟩ | rfl | rfl := magnitude_cases he <;> rfl
    · rfl
  nan_left e := rfl
  nan_right e := by cases e <;> rfl
  infinite_left e he hnan := by
    obtain ⟨x, -, rfl⟩ | rfl | rfl := magnitude_cases he
    · rfl
    · rfl
    · exact absurd rfl hnan
  infinite_right x := rfl
  finite_finite x y := ⟨x + y, rfl⟩

lemma maximum_absorbs : Absorbs Scalar.maximum where
  magnitude d e hd he := by
    rw [Scalar.maximum]
    split_ifs <;> assumption
  nan_left e := rfl
  nan_right e := by cases e <;> rfl
  infinite_left e he hnan := by
    obtain ⟨x, -, rfl⟩ | rfl | rfl := magnitude_cases he
    · rfl
    · rfl
    · exact absurd rfl hnan
  infinite_right x := rfl
  finite_finite x y := ⟨max x y, maximum_finite x y⟩

namespace Absorbs

variable {op : Exact → Exact → Exact} {es : List Exact}

/-- One element that is not a number spoils the whole. -/
lemma foldl_of_nan (h : Absorbs op) (hmem : notANumber ∈ e :: es) : es.foldl op e = notANumber := by
  induction es generalizing e with
  | nil => exact (List.mem_singleton.mp hmem).symm
  | cons d ds ih =>
    refine ih (e := op e d) ?_
    rcases List.mem_cons.mp hmem with rfl | hmem
    · rw [h.nan_left]
      exact List.mem_cons_self
    · rcases List.mem_cons.mp hmem with rfl | hmem
      · rw [h.nan_right]
        exact List.mem_cons_self
      · exact List.mem_cons_of_mem _ hmem

/-- Otherwise one infinite element makes the whole infinite. -/
lemma foldl_of_infinite (h : Absorbs op) (hes : ∀ d ∈ e :: es, Scalar.abs d = d)
    (hnan : notANumber ∉ e :: es) (hmem : infinite false ∈ e :: es) :
    es.foldl op e = infinite false := by
  induction es generalizing e with
  | nil => exact (List.mem_singleton.mp hmem).symm
  | cons d ds ih =>
    obtain ⟨he, hd, hds⟩ : e ≠ notANumber ∧ d ≠ notANumber ∧ notANumber ∉ ds := by
      simpa [eq_comm] using hnan
    have he' := hes e List.mem_cons_self
    have hd' := hes d (List.mem_cons_of_mem _ List.mem_cons_self)
    -- what the first two elements make is a magnitude and a number, infinite if one of them is
    have hfirst : op e d ≠ notANumber ∧ (e = infinite false ∨ d = infinite false →
        op e d = infinite false) := by
      obtain ⟨x, -, rfl⟩ | rfl | rfl := magnitude_cases he'
      · obtain ⟨y, -, rfl⟩ | rfl | rfl := magnitude_cases hd'
        · obtain ⟨z, hz⟩ := h.finite_finite x y
          rw [hz]
          exact ⟨nofun, nofun⟩
        · rw [h.infinite_right]
          exact ⟨nofun, fun _ => rfl⟩
        · exact absurd rfl hd
      · rw [h.infinite_left d hd' hd]
        exact ⟨nofun, fun _ => rfl⟩
      · exact absurd rfl he
    refine ih (e := op e d) ?_ ?_ ?_
    · intro c hc
      rcases List.mem_cons.mp hc with rfl | hc
      · exact h.magnitude e d he' hd'
      · exact hes c (List.mem_cons_of_mem _ (List.mem_cons_of_mem _ hc))
    · rw [List.mem_cons, not_or]
      exact ⟨hfirst.1.symm, hds⟩
    · rcases List.mem_cons.mp hmem with he | hmem
      · rw [hfirst.2 (Or.inl he.symm)]
        exact List.mem_cons_self
      · rcases List.mem_cons.mp hmem with hd | hmem
        · rw [hfirst.2 (Or.inr hd.symm)]
          exact List.mem_cons_self
        · exact List.mem_cons_of_mem _ hmem

end Absorbs

/-- What a block of values of a function makes, in terms of the arguments. -/
lemma gather_blockOf {F : ℕ → Exact} (hg : g 0 = 0) (Φ : (Fin m → ℝ) → ℝ) (k : ℕ) :
    gather (blockOf (fun i => (F i).lift g) m k)
        (Φ fun j => (blockOf (fun i => (F i).lift g) m k j).toReal)
      = gather (blockOf F m k) (Φ fun j => g (blockOf F m k j).toReal) := by
  refine (gather_lift g (blockOf F m k) _).trans ?_
  simp only [blockOf, toReal_lift hg]

/-- What the elements of a block make, if it is as it should be for finite ones. -/
lemma eq_gather {u : Fin m → Exact} (hu : ∀ j, Scalar.abs (u j) = u j) {y : Exact} {x : ℝ}
    (hnan : (∃ j, u j = notANumber) → y = notANumber)
    (hinfinite : (¬∃ j, u j = notANumber) → (∃ j, u j = infinite false) → y = infinite false)
    (hfinite : (∀ j, u j = finite (u j).toReal) → y = finite x) : y = gather u x := by
  rw [gather]
  split_ifs with h₁ h₂
  · exact hnan h₁
  · obtain ⟨j, s, hj⟩ := h₂
    refine hinfinite h₁ ⟨j, ?_⟩
    rw [← hu j, hj]
    rfl
  · refine hfinite fun j => ?_
    cases hj : u j with
    | finite x => rfl
    | infinite s => exact absurd ⟨j, s, hj⟩ h₂
    | notANumber => exact absurd ⟨j, hj⟩ h₁

variable {v : ℕ → Exact}

lemma mem_blockList {j : ℕ} (hj : j < m) : v j ∈ blockList m v :=
  List.mem_map.mpr ⟨j, List.mem_range.mpr hj, rfl⟩

lemma exists_of_mem_blockList (h : e ∈ blockList m v) : ∃ j : Fin m, v j = e := by
  obtain ⟨j, hj, rfl⟩ := List.mem_map.mp h
  exact ⟨⟨j, List.mem_range.mp hj⟩, rfl⟩

/-- **The sum of magnitudes.** -/
theorem total_eq_gather (hv : ∀ j < m, Scalar.abs (v j) = v j) :
    total m v = gather (fun j : Fin m => v j) (∑ j : Fin m, (v j).toReal) := by
  have hmem {d : Exact} (hd : d ∈ finite 0 :: blockList m v) :
      d = finite 0 ∨ ∃ j : Fin m, v j = d := by
    rcases List.mem_cons.mp hd with rfl | hd
    · exact Or.inl rfl
    · exact Or.inr (exists_of_mem_blockList hd)
  refine eq_gather (fun j => hv j j.isLt) ?_ ?_ ?_
  · rintro ⟨j, hj⟩
    exact add_absorbs.foldl_of_nan (List.mem_cons_of_mem _ (hj ▸ mem_blockList j.isLt))
  · rintro hnan ⟨j, hj⟩
    refine add_absorbs.foldl_of_infinite ?_ ?_ (List.mem_cons_of_mem _ (hj ▸ mem_blockList j.isLt))
    · intro d hd
      obtain rfl | ⟨i, rfl⟩ := hmem hd
      · exact congrArg finite abs_zero
      · exact hv i i.isLt
    · intro hd
      obtain h0 | hi := hmem hd
      · cases h0
      · exact hnan hi
  · intro hfinite
    exact total_of_reads hfinite

/-- **The largest of some magnitudes.** -/
theorem largest_eq_gather (hm : 0 < m) (hv : ∀ j < m, Scalar.abs (v j) = v j) :
    largest (blockList m v) = gather (fun j : Fin m => v j) (⨆ j : Fin m, (v j).toReal) := by
  obtain ⟨e, es, hlist⟩ : ∃ e es, blockList m v = e :: es := by
    cases hlist : blockList m v with
    | nil => exact absurd (hlist ▸ mem_blockList hm) List.not_mem_nil
    | cons e es => exact ⟨e, es, rfl⟩
  refine eq_gather (fun j => hv j j.isLt) ?_ ?_ ?_
  · rintro ⟨j, hj⟩
    rw [hlist]
    exact maximum_absorbs.foldl_of_nan (by rw [← hlist, ← hj]; exact mem_blockList j.isLt)
  · rintro hnan ⟨j, hj⟩
    rw [hlist]
    refine maximum_absorbs.foldl_of_infinite ?_ ?_ (by rw [← hlist, ← hj]; exact mem_blockList j.isLt)
    · rw [← hlist]
      intro d hd
      obtain ⟨i, rfl⟩ := exists_of_mem_blockList hd
      exact hv i i.isLt
    · rw [← hlist]
      exact fun hd => hnan (exists_of_mem_blockList hd)
  · intro hfinite
    exact largest_eq hm hfinite

end Exact

/-! ## Trailing axes -/

namespace NdArray

variable {s : Shape} {F : ℕ → Exact} {a : NdArray Exact} {r : ℕ}

lemma sumTail_gather (ha : a.Reads s F) (hk : a.kind.isReal = true)
    (hF : ∀ k < s.size, Scalar.abs (F k) = F k) :
    (a.sumTail r).kind.isReal = true ∧ (a.sumTail r).Reads (s.collapsed r) fun k =>
      Exact.gather (blockOf F (s.tail r).size k) (∑ j, (blockOf F (s.tail r).size k j).toReal) := by
  obtain ⟨p, hp⟩ := exists_precision hk
  simp only [sumTail, hp, mapTail, ha.shape_eq, roundedSum_eq, Shape.size_ones, Nat.div_one]
  refine ⟨rfl, (tabulate_reads p _).congr fun k hk => ?_⟩
  have hread (j : ℕ) (hj : j < (s.tail r).size) :
      a.blockAt (k * (s.tail r).size) j = F (k * (s.tail r).size + j) :=
    ha.entry _ (Shape.block_lt hk hj)
  rw [blockList, List.map_congr_left fun j hj => hread j (List.mem_range.mp hj)]
  exact Exact.total_eq_gather fun j hj => hF _ (Shape.block_lt hk hj)

lemma maxTail_gather (ha : a.Reads s F) (hm : 0 < (s.tail r).size)
    (hF : ∀ k < s.size, Scalar.abs (F k) = F k) :
    Yields (a.maxTail r) fun y => y.kind.isReal = true ∧ y.Reads (s.collapsed r) fun k =>
      Exact.gather (blockOf F (s.tail r).size k) (⨆ j, (blockOf F (s.tail r).size k j).toReal) := by
  simp only [maxTail, ha.shape_eq, hm.ne', decide_false, Bool.false_and, Bool.false_eq_true, if_false]
  refine Yields.ok ⟨rfl, ?_⟩
  simp only [mapTail, ha.shape_eq, Shape.size_ones, Nat.div_one]
  refine (tabulate_reads _ _).congr fun k hk => ?_
  have hread (j : ℕ) (hj : j < (s.tail r).size) :
      a.blockAt (k * (s.tail r).size) j = F (k * (s.tail r).size + j) :=
    ha.entry _ (Shape.block_lt hk hj)
  rw [blockList, List.map_congr_left fun j hj => hread j (List.mem_range.mp hj)]
  exact Exact.largest_eq_gather hm fun j hj => hF _ (Shape.block_lt hk hj)

end NdArray

end PrimalDual
