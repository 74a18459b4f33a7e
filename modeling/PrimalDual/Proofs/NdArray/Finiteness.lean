import PrimalDual.Proofs.NdArray.Spreading

/-!
# Arrays of finite numbers

In exact arithmetic an element is not finite only where a bound was infinite or a division or a root
went wrong.  Nothing else leaves the finite numbers, whatever the shapes and kinds of the operands are,
so elements are followed here without their places.

* `NdArray.AllFinite`, `Operand.AllFinite` — all elements are finite numbers.
* `zipReal_allFinite`, **`arith_allFinite`**, `divide_allFinite` — two operands.
* `mapReal_allFinite`, `mapTail_allFinite` — one operand, by elements or along the trailing axes.
-/

namespace PrimalDual

open Exact

namespace Exact

/-- The number is finite. -/
def IsFinite (e : Exact) : Prop := ∃ x, e = finite x

lemma isFinite (x : ℝ) : (finite x).IsFinite := ⟨x, rfl⟩

variable {e f : Exact}

lemma IsFinite.add (he : e.IsFinite) (hf : f.IsFinite) : (e + f).IsFinite := by
  obtain ⟨x, rfl⟩ := he
  obtain ⟨y, rfl⟩ := hf
  exact ⟨_, finite_add x y⟩

lemma IsFinite.sub (he : e.IsFinite) (hf : f.IsFinite) : (e - f).IsFinite := by
  obtain ⟨x, rfl⟩ := he
  obtain ⟨y, rfl⟩ := hf
  exact ⟨_, finite_sub x y⟩

lemma IsFinite.mul (he : e.IsFinite) (hf : f.IsFinite) : (e * f).IsFinite := by
  obtain ⟨x, rfl⟩ := he
  obtain ⟨y, rfl⟩ := hf
  exact ⟨_, finite_mul x y⟩

lemma IsFinite.neg (he : e.IsFinite) : (-e).IsFinite := by
  obtain ⟨x, rfl⟩ := he
  exact ⟨_, finite_neg x⟩

/-- Finite numbers add up to a finite number. -/
lemma IsFinite.foldl_add {xs : List Exact} (hxs : ∀ x ∈ xs, x.IsFinite) (he : e.IsFinite) :
    (xs.foldl (· + ·) e).IsFinite := by
  induction xs generalizing e with
  | nil => exact he
  | cons x xs ih =>
    rw [List.foldl_cons]
    exact ih (fun y hy => hxs y (List.mem_cons_of_mem x hy)) (he.add (hxs x List.mem_cons_self))

end Exact

namespace NdArray

/-- All elements are finite numbers; outside the array they read as zero anyway. -/
def AllFinite (a : NdArray Exact) : Prop := ∀ k, (a.realAt k).IsFinite

end NdArray

/-- The operand consists of finite numbers. -/
def Operand.AllFinite : Operand Exact → Prop
  | array a => a.AllFinite
  | number n => n.value.IsFinite

open NdArray

variable {s : Shape} {b : Backend} {p : Precision} {F : ℕ → Exact} {a c y : NdArray Exact}
  {o u : Operand Exact} {n : Number Exact}

/-! ## Building arrays -/

namespace NdArray

/-- Outside an array there are zeros. -/
lemma realAt_of_size_le {k : ℕ} (h : a.size ≤ k) : a.realAt k = finite 0 := by
  have hsize : a.cells.size ≤ k := a.size_eq.trans_le h
  rcases hc : a.cells with ⟨w, v⟩ | ⟨p, v⟩
  · rw [hc, Cells.size] at hsize
    simp [realAt, hc, hsize]
  · rw [hc, Cells.size] at hsize
    simp [realAt, hc, hsize]

lemma Reads.allFinite (ha : a.Reads s F) (h : ∀ k < s.size, (F k).IsFinite) : a.AllFinite := by
  intro k
  rcases Nat.lt_or_ge k a.size with hk | hk
  · rw [NdArray.size, ha.shape_eq] at hk
    rw [ha.entry k hk]
    exact h k hk
  · rw [realAt_of_size_le hk]
    exact isFinite 0

/-- Elements that are met are finite. -/
lemma Meets.isFinite (h : a.Meets s F) (ha : a.AllFinite) {k : ℕ} (hk : k < s.size) :
    (F k).IsFinite :=
  h.entry k hk ▸ ha _

lemma tabulate_allFinite (h : ∀ k < s.size, (F k).IsFinite) : (tabulate b s p F).AllFinite :=
  (tabulate_reads p F).allFinite h

lemma allFinite_of_whole {w : WholeKind} (h : a.kind = .whole w) : a.AllFinite := by
  intro k
  rw [realAt_whole h]
  exact isFinite _

/-- A conversion makes no element infinite. -/
lemma AllFinite.convert (h : a.AllFinite) (k : Kind) : (a.convert k).AllFinite := by
  cases k with
  | real p =>
    rw [NdArray.convert]
    split
    · exact h
    · exact tabulate_allFinite fun k _ => h k
  | whole w =>
    rw [NdArray.convert]
    split
    · exact h
    · cases a.kind <;> exact allFinite_of_whole rfl

lemma AllFinite.onBackend (h : a.AllFinite) (c : Backend) : (a.onBackend c).AllFinite := h

/-- Only the elements matter. -/
lemma AllFinite.of_cells (hcells : y.cells = a.cells) (h : a.AllFinite) : y.AllFinite := fun k => by
  have hk := h k
  simp only [realAt, hcells] at hk ⊢
  exact hk

lemma zerosLike_allFinite (a : NdArray Exact) : a.zerosLike.AllFinite := by
  rw [zerosLike]
  cases a.kind with
  | whole w => exact allFinite_of_whole rfl
  | real p => exact tabulate_allFinite fun _ _ => ⟨0, zero_eq⟩

end NdArray

/-! ## Two operands -/

lemma zipReal_allFinite {f : Exact → Exact → Exact}
    (hf : ∀ d e : Exact, d.IsFinite → e.IsFinite → (f d e).IsFinite) (ha : a.AllFinite)
    (hc : c.AllFinite) (h : zipReal p f a c = .ok y) : y.AllFinite := by
  rw [zipReal] at h
  split at h
  · cases h
    exact tabulate_allFinite fun k _ => hf _ _ (ha _) (hc _)
  · cases h

lemma spread_allFinite {k : Kind} (hn : n.value.IsFinite) (h : n.spread k = .ok y) :
    y.AllFinite := by
  cases k with
  | real p =>
    rw [spread_real] at h
    cases h
    exact tabulate_allFinite fun _ _ => hn
  | whole w =>
    cases h
    exact allFinite_of_whole rfl

/-- Sums, differences, products and larger numbers of finite numbers are finite. -/
lemma Operation.onReal_isFinite {op : Operation} (hop : op ≠ .div) {d e : Exact} (hd : d.IsFinite)
    (he : e.IsFinite) : (op.onReal d e).IsFinite := by
  cases op with
  | add => exact hd.add he
  | sub => exact hd.sub he
  | mul => exact hd.mul he
  | div => exact absurd rfl hop
  | maxNum =>
    obtain ⟨x, rfl⟩ := hd
    obtain ⟨y, rfl⟩ := he
    exact ⟨_, maxNum_finite x y⟩

lemma combineIn_allFinite {op : Operation} (hop : op ≠ .div) {k : Kind} (ha : a.AllFinite)
    (hc : c.AllFinite) (h : combineIn op k a c = .ok y) : y.AllFinite := by
  cases k with
  | real p => exact zipReal_allFinite (fun _ _ => Operation.onReal_isFinite hop) ha hc h
  | whole w =>
    rw [combineIn, if_neg hop] at h
    split at h
    · rw [zipWhole] at h
      split at h
      · cases h
        exact allFinite_of_whole rfl
      · cases h
    · cases h

/-- **Arithmetic other than division** leaves no finite numbers. -/
theorem arith_allFinite {op : Operation} (hop : op ≠ .div) (ho : o.AllFinite) (hu : u.AllFinite)
    (h : arith op o u = .ok y) : y.AllFinite := by
  cases o with
  | array a =>
    cases u with
    | array c => exact combineIn_allFinite hop ho hu h
    | number n =>
      obtain ⟨k, -, h⟩ := ok_of_bind h
      obtain ⟨d, hd, h⟩ := ok_of_bind h
      exact combineIn_allFinite hop ho (spread_allFinite hu hd) h
  | number m =>
    cases u with
    | array c =>
      obtain ⟨k, -, h⟩ := ok_of_bind h
      obtain ⟨d, hd, h⟩ := ok_of_bind h
      exact combineIn_allFinite hop (spread_allFinite ho hd) hu h
    | number n => cases h

/-- An update in place. -/
lemma update_allFinite {op : Operation} (hop : op ≠ .div) (ha : a.AllFinite) (ho : o.AllFinite)
    (h : a.update op o = .ok y) : y.AllFinite := by
  obtain ⟨result, hresult, h⟩ := ok_of_bind h
  have hfinite := arith_allFinite (o := .array a) hop ha ho hresult
  rw [assign] at h
  cases hb : a.backend with
  | chunked =>
    rw [hb] at h
    cases h
    exact hfinite
  | memory =>
    rw [hb] at h
    dsimp only at h
    split_ifs at h
    cases h
    exact hfinite.convert a.kind

lemma Operand.Meets.isFinite (h : o.Meets s F) (ho : o.AllFinite) {k : ℕ} (hk : k < s.size) :
    (F k).IsFinite := by
  cases o with
  | array a => exact NdArray.Meets.isFinite h ho hk
  | number n => exact h k hk ▸ ho

/-- A division by numbers other than zero. -/
lemma divide_allFinite (ho : o.IsReal) (hu : u.IsReal) (hfinite : o.AllFinite)
    (hne : ∀ s F, u.Meets s F → ∀ k < s.size, ∃ x, F k = finite x ∧ x ≠ 0)
    (h : arith .div o u = .ok y) : y.AllFinite := by
  obtain ⟨-, F, G, hF, hG, hreads⟩ := arith_meets ho hu h
  refine hreads.allFinite fun k hk => ?_
  obtain ⟨x, hx⟩ := hF.isFinite hfinite hk
  obtain ⟨d, hd, hd0⟩ := hne _ G hG k hk
  refine ⟨x / d, ?_⟩
  rw [hx, hd]
  exact finite_div x hd0

/-! ## One operand -/

namespace NdArray

lemma transpose_allFinite {a : NdArray Exact} (ha : a.AllFinite) : a.transpose.AllFinite := by
  rw [NdArray.transpose]
  cases a.kind with
  | whole w => exact allFinite_of_whole rfl
  | real p => exact tabulate_allFinite fun k _ => ha _

lemma AllFinite.mapReal {f : Exact → Exact} (hf : ∀ k < a.size, (f (a.realAt k)).IsFinite) :
    (a.mapReal f).AllFinite :=
  tabulate_allFinite fun k hk => hf k hk

lemma AllFinite.signs (h : a.AllFinite) (hy : a.signs = .ok y) : y.AllFinite := by
  rw [NdArray.signs] at hy
  split at hy
  · cases hy
  · cases hy
    exact allFinite_of_whole rfl
  · cases hy
    refine tabulate_allFinite fun k _ => ?_
    obtain ⟨x, hx⟩ := h k
    exact ⟨_, by rw [hx, sign_finite]⟩

/-- A function of the trailing axes. -/
lemma AllFinite.mapTail {rank : ℕ} {tail : Shape} {g : (ℕ → Exact) → ℕ → Exact} (h : a.AllFinite)
    (hg : ∀ block : ℕ → Exact, (∀ j, (block j).IsFinite) → ∀ i, (g block i).IsFinite) :
    (a.mapTail rank tail p g).AllFinite := by
  rw [NdArray.mapTail]
  exact tabulate_allFinite fun k _ => hg _ (fun j => h _) _

end NdArray

lemma roundedSum_isFinite {xs : List Exact} (h : ∀ x ∈ xs, x.IsFinite) :
    (roundedSum p xs).IsFinite := by
  rw [roundedSum_eq]
  exact IsFinite.foldl_add h (isFinite 0)

end PrimalDual
