import PrimalDual.Proofs.Operator.Action

/-!
# Adjoints are adjoint

Each operator says in two places what it does: on points, and backwards on their images.  Nothing
but the code itself makes the second the adjoint of the first, that is, makes `⟨K x, y⟩ = ⟨x, Kᵀ y⟩`
hold at every point of a stack.  Both have been read as products with matrices, one of which is the
transpose of the other, and the law follows from there for all operators at once.

An operator with a sparse matrix brings its input into the form of a matrix first, and cannot when
the trailing axis is empty.  The product with a dense matrix has no such trouble, and a sparse
matrix without columns is accepted like any other.

* `Multiplies` — a map on values multiplies every point by a matrix.
* `IsLinear`, `IsAdjoint` — what is to be shown of a map, and of two maps.
* `LinearOperator.BuiltIn` — the operators that the constructors make.
* **`LinearOperator.apply_adjoint_adjoint`** — they and their adjoints are linear and adjoint.
* **`sparse_refuses_empty_points`** — a matrix without columns.
-/

namespace PrimalDual

open Exact Matrix NdArray

/-! ## Maps on stacks of points -/

section

variable {α : Type} [Scalar α]

/-- The combination `s x + t y` of two stacks. -/
def combination (s t : Number α) (x y : NdArray α) : Except Fault (NdArray α) := do
  let a ← arith .mul (.number s) (.array x)
  let b ← arith .mul (.number t) (.array y)
  arith .add (.array a) (.array b)

/-- The sums of the products of two stacks along the trailing axis. -/
def pairing (x y : NdArray α) : Except Fault (NdArray α) := do
  let z ← arith .mul (.array x) (.array y)
  pure (z.sumTail 1)

end

variable {lead : Shape} {b c : Backend} {m n r : ℕ} {v w : Fin n → ℝ} {x y : NdArray Exact}
  {s t : Number Exact} {σ τ : ℝ} {F G : Value Exact → Except Fault (Value Exact)}

lemma combination_holds (hs : s.Is σ) (ht : t.Is τ) (hx : x.Holds b lead n r v)
    (hy : y.Holds c lead n r w) :
    Yields (combination s t x y) (·.Holds (b.join c) lead n r (σ • v + τ • w)) :=
  (hx.scale hs).bind fun _ ha => (hy.scale ht).bind fun _ hb => ha.add hb

lemma pairing_holds (hx : x.Holds b lead n r v) (hy : y.Holds c lead n r w) :
    Yields (pairing x y) (·.Holds (b.join c) lead 1 r fun _ => v ⬝ᵥ w) := by
  have hproduct : Yields (arith .mul (.array x) (.array y))
      (·.Holds (b.join c) lead n r fun j => v j * w j) := by
    rw [← hy.backend_eq]
    exact hx.zip .mul hy.fits hy.entry fun _ => rfl
  exact hproduct.bind fun _ hz => Yields.pure hz.sum

/-- The map multiplies every point of every stack by the matrix. -/
def Multiplies (F : Value Exact → Except Fault (Value Exact)) (M : Matrix (Fin m) (Fin n) ℝ) :
    Prop :=
  ∀ ⦃b lead r v⦄ ⦃x : NdArray Exact⦄, x.Holds b lead n r v →
    ∃ c y, F (.array x) = .ok (.array y) ∧ y.Holds c lead m r (M *ᵥ v)

/-- The map makes points of size `m` of points of size `n`, and of a combination of two stacks the
same combination of their images. -/
def IsLinear (F : Value Exact → Except Fault (Value Exact)) (n m : ℕ) : Prop :=
  ∀ ⦃b c lead r⦄ ⦃v w : Fin n → ℝ⦄ ⦃x y : NdArray Exact⦄ ⦃s t : Number Exact⦄ ⦃σ τ : ℝ⦄,
    s.Is σ → t.Is τ → x.Holds b lead n r v → y.Holds c lead n r w →
    ∃ z Fx Fy Fz u d e k, combination s t x y = .ok z ∧ F (.array x) = .ok (.array Fx) ∧
      F (.array y) = .ok (.array Fy) ∧ F (.array z) = .ok (.array Fz) ∧
      combination s t Fx Fy = .ok u ∧ Fz.Holds d lead m r k ∧ u.Holds e lead m r k

/-- The two maps go back and forth between points of sizes `n` and `m`, and the sums of the products
along the trailing axis are the same on either side. -/
def IsAdjoint (F G : Value Exact → Except Fault (Value Exact)) (n m : ℕ) : Prop :=
  ∀ ⦃b c lead r⦄ ⦃v : Fin n → ℝ⦄ ⦃w : Fin m → ℝ⦄ ⦃x y : NdArray Exact⦄,
    x.Holds b lead n r v → y.Holds c lead m r w →
    ∃ Fx Gy left right d e ρ, F (.array x) = .ok (.array Fx) ∧ G (.array y) = .ok (.array Gy) ∧
      Fx.shape = lead ++ [m] ∧ Gy.shape = lead ++ [n] ∧
      pairing Fx y = .ok left ∧ pairing x Gy = .ok right ∧
      left.Holds d lead 1 r (fun _ => ρ) ∧ right.Holds e lead 1 r fun _ => ρ

namespace Multiplies

variable {M : Matrix (Fin m) (Fin n) ℝ}

lemma isLinear (hF : Multiplies F M) : IsLinear F n m := by
  intro b c lead r v w x y s t σ τ hs ht hx hy
  obtain ⟨z, hz, hz'⟩ := combination_holds hs ht hx hy
  obtain ⟨_, Fx, hFx, hFx'⟩ := hF hx
  obtain ⟨_, Fy, hFy, hFy'⟩ := hF hy
  obtain ⟨d, Fz, hFz, hFz'⟩ := hF hz'
  obtain ⟨u, hu, hu'⟩ := combination_holds hs ht hFx' hFy'
  rw [mulVec_add, mulVec_smul, mulVec_smul] at hFz'
  exact ⟨z, Fx, Fy, Fz, u, d, _, _, hz, hFx, hFy, hFz, hu, hFz', hu'⟩

/-- A product with a matrix moves to the other side as the product with the transposed one. -/
lemma isAdjoint (hF : Multiplies F M) (hG : Multiplies G Mᵀ) : IsAdjoint F G n m := by
  intro b c lead r v w x y hx hy
  obtain ⟨_, Fx, hFx, hFx'⟩ := hF hx
  obtain ⟨_, Gy, hGy, hGy'⟩ := hG hy
  obtain ⟨left, hleft, hleft'⟩ := pairing_holds hFx' hy
  obtain ⟨right, hright, hright'⟩ := pairing_holds hx hGy'
  have hmove : M *ᵥ v ⬝ᵥ w = v ⬝ᵥ Mᵀ *ᵥ w := by
    rw [dotProduct_mulVec, vecMul_transpose]
  rw [hmove] at hleft'
  exact ⟨Fx, Gy, left, right, _, _, _, hFx, hGy, hFx'.shape_eq, hGy'.shape_eq, hleft, hright,
    hleft', hright'⟩

end Multiplies

/-! ## The operators of the library -/

namespace LinearOperator

/-- On arrays, the operator on values is the operator. -/
lemma apply_array {α : Type} [Scalar α] (K : LinearOperator α) (x : NdArray α) :
    K.apply (.array x) = (K.map x).map .array := by
  cases hrule : K.rule <;> simp only [apply, map, hrule] <;> rfl

lemma adjoint_array {α : Type} [Scalar α] (K : LinearOperator α) (y : NdArray α) :
    K.adjoint (.array y) = (K.adjointMap y).map .array := by
  cases hrule : K.rule <;> simp only [adjoint, adjointMap, hrule] <;> rfl

variable {K : LinearOperator Exact}

lemma apply_multiplies (hK : K.rule.Acts m n) : Multiplies K.apply (K.rule.matrix m n) := by
  intro b lead r v x hx
  obtain ⟨y, hy, hy'⟩ := map_holds K hK hx
  refine ⟨_, y, ?_, hy'⟩
  rw [apply_array, hy]
  rfl

lemma adjoint_multiplies (hK : K.rule.Acts m n) : Multiplies K.adjoint (K.rule.matrix m n)ᵀ := by
  intro b lead r v y hy
  obtain ⟨x, hx, hx'⟩ := adjointMap_holds K hK hy
  refine ⟨_, x, ?_, hx'⟩
  rw [adjoint_array, hx]
  rfl

/--
The operator comes from one of the constructors and makes points of size `m` of points of size `n`.
Its numbers are real ones.  The identity and the multiplication by a constant do not look at the
size of their points; a sparse matrix has rows and columns.
-/
inductive BuiltIn : LinearOperator Exact → ℕ → ℕ → Prop
  | identity {K : LinearOperator Exact} {dim : Value Exact} (n : ℕ)
      (h : LinearOperator.identity dim = .ok K) : BuiltIn K n n
  | homothety {K : LinearOperator Exact} {factor dim : Value Exact} {γ : ℝ} (n : ℕ)
      (hfactor : factor.toReal = .ok (finite γ))
      (h : LinearOperator.homothety factor dim = .ok K) : BuiltIn K n n
  | difference {K : LinearOperator Exact} {dim : Value Exact} {m : ℕ}
      (hdim : dim.toWhole = .ok (m + 1 : ℕ)) (h : LinearOperator.difference dim = .ok K) :
      BuiltIn K m (m + 1)
  | explicit {K : LinearOperator Exact} {a : NdArray Exact} {bound : Value Exact} {m n : ℕ}
      (hshape : a.shape = [m, n]) (hfinite : ∀ k < m * n, ∃ x, a.realAt k = finite x)
      (h : LinearOperator.explicit (.array a) bound = .ok K) : BuiltIn K m n
  | sparse {K : LinearOperator Exact} {s : SparseMatrix Exact} {bound : Value Exact} {m n : ℕ}
      (hfits : s.Fits m n) (hm : 0 < m) (hn : 0 < n) (h : LinearOperator.sparse s bound = .ok K) :
      BuiltIn K m n

/-! ### What the constructors make -/

lemma readBound_number {N : Number Exact} {L : ℝ} (hN : N.Is L) (hL : 0 ≤ L) :
    readBound (.number N) = .ok (finite L) := by
  have hnonneg : (Number.int 0).atMost N = true :=
    (Number.atMost_iff (Number.is_int 0) hN).mpr (by simpa using hL)
  rw [readBound, Value.nonNegative, hnonneg, Value.toReal, Number.toReal_eq, hN]
  rfl

lemma identity_ok {dim : Value Exact} (h : LinearOperator.identity dim = .ok K) :
    K.rule = .identity ∧ K.bound = finite 1 := by
  obtain ⟨sizes, -, h⟩ := ok_of_bind h
  cases h
  exact ⟨rfl, one_eq⟩

lemma homothety_ok {factor dim : Value Exact} {γ : ℝ} (hfactor : factor.toReal = .ok (finite γ))
    (h : LinearOperator.homothety factor dim = .ok K) :
    K.rule = .homothety (finite γ) ∧ K.bound = finite |γ| := by
  rw [LinearOperator.homothety, hfactor] at h
  obtain ⟨c, hc, h⟩ := ok_of_bind h
  obtain rfl : finite γ = c := Except.ok.inj hc
  obtain ⟨sizes, -, h⟩ := ok_of_bind h
  obtain ⟨bound, hbound, h⟩ := ok_of_bind h
  cases h
  rw [abs_finite, readBound_number (Number.is_real _) (abs_nonneg γ)] at hbound
  exact ⟨rfl, (Except.ok.inj hbound).symm⟩

lemma difference_ok {dim : Value Exact} (hdim : dim.toWhole = .ok (m + 1 : ℕ))
    (h : LinearOperator.difference dim = .ok K) :
    K.rule = .difference ∧ K.bound = finite 2 ∧ 0 < m := by
  rw [LinearOperator.difference, hdim] at h
  dsimp only at h
  split at h
  · cases h
    exact ⟨rfl, by simp, by omega⟩
  · cases h

lemma explicit_ok {a : NdArray Exact} {bound : Value Exact}
    (h : LinearOperator.explicit (.array a) bound = .ok K) :
    K.rule = .dense a ∧ ∃ given, readBound given = .ok K.bound := by
  rw [LinearOperator.explicit] at h
  dsimp only at h
  split at h
  · cases h
  · obtain ⟨L, hL, h⟩ := ok_of_bind h
    cases h
    exact ⟨rfl, _, hL⟩

lemma sparse_ok {s : SparseMatrix Exact} {bound : Value Exact}
    (h : LinearOperator.sparse s bound = .ok K) :
    K.rule = .sparse s ∧ ∃ given, readBound given = .ok K.bound := by
  rw [LinearOperator.sparse] at h
  dsimp only at h
  split at h
  · cases h
  · split at h
    · cases h
    · obtain ⟨L, hL, h⟩ := ok_of_bind h
      cases h
      exact ⟨rfl, _, hL⟩

lemma BuiltIn.acts (h : K.BuiltIn m n) : K.rule.Acts m n := by
  cases h with
  | identity n h =>
    rw [(identity_ok h).1]
    rfl
  | homothety n hfactor h =>
    rw [(homothety_ok hfactor h).1]
    exact ⟨rfl, _, rfl⟩
  | difference hdim h =>
    obtain ⟨hrule, -, hm⟩ := difference_ok hdim h
    rw [hrule]
    exact ⟨rfl, hm⟩
  | explicit hshape hfinite h =>
    rw [(explicit_ok h).1]
    exact ⟨hshape, hfinite⟩
  | sparse hfits hm hn h =>
    rw [(sparse_ok h).1]
    exact ⟨hfits, hm, hn⟩

/--
**Adjoints are adjoint, and all operators are linear.**  For every operator that a constructor
makes, the sums of the products of `K x` with `y` and of `x` with the adjoint of `y` along the
trailing axis are the same at every point of the stack, and both directions respect linear
combinations.
-/
theorem apply_adjoint_adjoint (hK : K.BuiltIn m n) :
    IsAdjoint K.apply K.adjoint n m ∧ IsLinear K.apply n m ∧ IsLinear K.adjoint m n :=
  have happly := apply_multiplies hK.acts
  have hadjoint := adjoint_multiplies hK.acts
  ⟨happly.isAdjoint hadjoint, happly.isLinear, hadjoint.isLinear⟩

theorem differences_of_three_adjoint : ∃ K : LinearOperator Exact,
    LinearOperator.difference (.number (.int 3)) = .ok K ∧ IsAdjoint K.apply K.adjoint 3 2 ∧
      IsLinear K.apply 3 2 ∧ IsLinear K.adjoint 2 3 := by
  refine ⟨⟨.difference, some 2, some 3, Scalar.ofInt 2⟩, rfl, ?_⟩
  have hdim : (Value.number (.int 3) : Value Exact).toWhole = .ok (2 + 1 : ℕ) := rfl
  exact apply_adjoint_adjoint (.difference hdim rfl)

/-! ### A matrix without columns -/

/-- Two rows and no columns. -/
noncomputable def columnless : SparseMatrix Exact :=
  ⟨2, 0, [], .tabulate .memory [0] .double fun _ => finite 0⟩

/-- The origin among the points of a size; there is one of size zero, too. -/
noncomputable def origin (n : ℕ) : NdArray Exact := .tabulate .memory [n] .double fun _ => finite 0

/-- The operator of the matrix, in its sparse and in its dense form. -/
noncomputable def columnlessSparse : LinearOperator Exact :=
  ⟨.sparse columnless, some 2, some 0, finite 1⟩

noncomputable def columnlessDense : LinearOperator Exact :=
  ⟨.dense columnless.toDense, some 2, some 0, finite 1⟩

lemma columnlessSparse_ok :
    LinearOperator.sparse columnless (.number (.int 1)) = .ok columnlessSparse := by
  show (do let b ← readBound (.number (.int 1)); pure ⟨.sparse columnless, _, _, b⟩ :
    Except Fault (LinearOperator Exact)) = _
  rw [readBound_number Number.is_one zero_le_one]
  rfl

lemma columnlessDense_ok :
    LinearOperator.explicit (.array columnless.toDense) (.number (.int 1))
      = .ok columnlessDense := by
  show (do let b ← readBound (.number (.int 1)); pure ⟨.dense columnless.toDense, _, _, b⟩ :
    Except Fault (LinearOperator Exact)) = _
  rw [readBound_number Number.is_one zero_le_one]
  rfl

lemma columnlessDense_builtIn : columnlessDense.BuiltIn 2 0 :=
  .explicit (a := columnless.toDense) rfl (by simp) columnlessDense_ok

lemma origin_holds (n : ℕ) : (origin n).Holds .memory [] n 0 0 where
  lt := Nat.one_pos
  backend_eq := rfl
  shape_eq := rfl
  real := rfl
  row j := realAt_tabulate _ _ _ _ _ (by simp)

/-- A matrix without columns maps the point without elements to the origin in its dense form; in its
sparse form it is accepted, too, but refuses the point. -/
theorem sparse_refuses_empty_points :
    LinearOperator.sparse columnless (.number (.int 1)) = .ok columnlessSparse ∧
      columnlessSparse.apply (.array (origin 0)) = .error .shapeMismatch ∧
      ¬ IsAdjoint columnlessSparse.apply columnlessSparse.adjoint 0 2 ∧
      LinearOperator.explicit (.array columnless.toDense) (.number (.int 1)) = .ok columnlessDense ∧
      IsAdjoint columnlessDense.apply columnlessDense.adjoint 0 2 := by
  have hrefused : columnlessSparse.apply (.array (origin 0)) = .error .shapeMismatch := rfl
  have hdense := columnlessDense_builtIn.acts
  refine ⟨columnlessSparse_ok, hrefused, fun hadjoint => ?_, columnlessDense_ok,
    (apply_multiplies hdense).isAdjoint (adjoint_multiplies hdense)⟩
  obtain ⟨Fx, _, _, _, _, _, _, hFx, -⟩ := hadjoint (origin_holds 0) (origin_holds 2)
  rw [hrefused] at hFx
  cases hFx

end LinearOperator

end PrimalDual
