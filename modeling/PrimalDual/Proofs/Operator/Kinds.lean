import PrimalDual.Operator.Linear
import PrimalDual.Proofs.NdArray.Stack
import PrimalDual.Proofs.Operator.Flattening

/-!
# Kinds under linear operators

Whatever an operator consists of, it makes floating-point elements of floating-point elements.

* `arith_arrays_eq`, `arith_number_eq` — which operation on elements arithmetic is.
* `arith_isReal`, `update_isReal` — arithmetic and updates keep elements floating-point.
* **`LinearOperator.map_isReal`** — an operator.
-/

namespace PrimalDual

variable {α : Type} [Scalar α]

namespace NdArray

variable {op : Operation} {a b d y : NdArray α} {o : Operand α}

lemma zipReal_ok {p : Precision} {f : α → α → α} (h : zipReal p f a b = .ok y) :
    Shape.broadcast? a.shape b.shape = some y.shape ∧ y.backend = a.backend.join b.backend ∧
      y.kind.isReal = true := by
  rw [zipReal] at h
  cases hs : Shape.broadcast? a.shape b.shape with
  | none =>
    rw [hs] at h
    cases h
  | some s =>
    rw [hs] at h
    cases h
    exact ⟨rfl, rfl, rfl⟩

lemma zipReal_yields {s : Shape} (p : Precision) (f : α → α → α)
    (h : Shape.broadcast? a.shape b.shape = some s) : Yields (zipReal p f a b) fun y =>
      y.shape = s ∧ y.backend = a.backend.join b.backend ∧ y.kind.isReal = true := by
  rw [zipReal, h]
  exact Yields.ok ⟨rfl, rfl, rfl⟩

lemma arith_arrays_eq (op : Operation) (h : a.kind.isReal = true ∨ b.kind.isReal = true) :
    ∃ p, arith op (.array a) (.array b) = zipReal p op.onReal a b := by
  obtain ⟨p, hp⟩ := Kind.join_of_isReal h
  exact ⟨p, by rw [arith, hp]; rfl⟩

lemma arith_number_eq (op : Operation) (w : Number α) (h : d.kind.isReal = true) :
    ∃ p, arith op (.number w) (.array d) = w.toReal >>= fun r =>
      zipReal p op.onReal (tabulate .memory [] p fun _ => Scalar.narrow p r) d := by
  obtain ⟨p, hp⟩ := exists_precision h
  refine ⟨p, ?_⟩
  rw [arith, hp]
  cases hw : w.toReal with
  | error e => simp [Number.kindBeside, Number.spread, hw, bind, Except.bind]
  | ok r =>
    simp only [Number.kindBeside, Number.spread, hw, bind, Except.bind, pure, Except.pure]
    rfl

/-- An operation with floating-point elements has floating-point elements. -/
lemma arith_isReal (ha : a.kind.isReal = true) (h : arith op (.array a) o = .ok y) :
    y.kind.isReal = true := by
  obtain ⟨p, hp⟩ := exists_precision ha
  cases o with
  | array b =>
    obtain ⟨q, hq⟩ := Kind.join_of_isReal (j := a.kind) (k := b.kind) (Or.inl ha)
    rw [arith, hq] at h
    exact (zipReal_ok h).2.2
  | number n =>
    rw [arith, hp] at h
    obtain ⟨k, hk, h⟩ := ok_of_bind h
    cases hk
    obtain ⟨c, -, h⟩ := ok_of_bind h
    exact (zipReal_ok h).2.2

/-- An update in place keeps its elements floating-point. -/
lemma update_isReal (ha : a.kind.isReal = true) (h : a.update op o = .ok y) :
    y.kind.isReal = true := by
  rw [update] at h
  obtain ⟨result, hresult, h⟩ := ok_of_bind h
  rw [assign] at h
  cases hb : a.backend with
  | chunked =>
    rw [hb] at h
    cases h
    exact arith_isReal ha hresult
  | memory =>
    rw [hb] at h
    obtain ⟨p, hp⟩ := exists_precision ha
    dsimp only at h
    split_ifs at h
    cases h
    rw [hp, convert]
    split
    · rename_i hkind
      rw [hkind]
      rfl
    · rfl

end NdArray

namespace LinearOperator

variable {K : LinearOperator α} {x y : NdArray α}

lemma differences_isReal (hx : x.kind.isReal = true) (h : differences x = .ok y) :
    y.kind.isReal = true := by
  obtain ⟨p, hp⟩ := NdArray.exists_precision hx
  rw [differences, hp] at h
  cases hn : x.shape.getLast? with
  | none =>
    rw [hn] at h
    cases h
  | some n =>
    rw [hn] at h
    cases h
    rfl

lemma product_isReal {mat : NdArray α} (hx : x.kind.isReal = true) (h : product mat x = .ok y) :
    y.kind.isReal = true := by
  obtain ⟨p, hp⟩ := Kind.join_of_isReal (j := mat.kind) (k := x.kind) (Or.inr hx)
  rw [product, hp] at h
  split at h
  · cases h
  · split at h <;> cases h
    rfl

lemma sparse_product_isReal {m : SparseMatrix α} (hx : x.kind.isReal = true)
    (h : m.product x = .ok y) : y.kind.isReal = true := by
  obtain ⟨p, hp⟩ := Kind.join_of_isReal (j := m.values.kind) (k := x.kind) (Or.inr hx)
  obtain ⟨points, -, hy⟩ := SparseMatrix.product_cells h
  rw [NdArray.kind, hy, hp]
  rfl

/-- **An operator makes floating-point elements of floating-point elements.** -/
theorem map_isReal (hx : x.kind.isReal = true) (h : K.map x = .ok y) : y.kind.isReal = true := by
  rw [map] at h
  cases hrule : K.rule with
  | identity =>
    rw [hrule] at h
    cases h
    exact hx
  | homothety c =>
    rw [hrule] at h
    exact NdArray.update_isReal hx h
  | difference =>
    rw [hrule] at h
    exact differences_isReal hx h
  | dense a =>
    rw [hrule] at h
    exact product_isReal hx h
  | sparse m =>
    rw [hrule] at h
    exact sparse_product_isReal hx h
  | unspecified =>
    rw [hrule] at h
    cases h

end LinearOperator

end PrimalDual
