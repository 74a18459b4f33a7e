import PrimalDual.NdArray.Reduce
import PrimalDual.Proofs.Exact.Number
import PrimalDual.Proofs.NdArray.Broadcast

/-!
# Stacks of points in exact arithmetic

An array of shape `(…, N)` of floating-point numbers is a stack of points: element `j` of point `r`
stands at place `r N + j`.  This file says what the elementwise operations and the functions of the
trailing axis do to the elements of a stack, one equation for each, and that none of them is refused
when the operands fit.

* `NdArray.Stack` — an array is a stack of points with given elements.
* `Operand.Fits`, `Operand.entry` — an operand can be spread over a stack, and what an element of
  the stack meets in it.
* `arith_stack`, `update_stack`, `extremum_stack` — elementwise operations.
* `mapTail_stack`, `sumTail_stack` — functions of the trailing axis.
-/

namespace PrimalDual

open Exact

/-! ## Backends -/

namespace Backend

@[simp] lemma join_memory (b : Backend) : b.join memory = b := by cases b <;> rfl

@[simp] lemma memory_join (b : Backend) : memory.join b = b := by cases b <;> rfl

@[simp] lemma join_self (b : Backend) : b.join b = b := by cases b <;> rfl

/-- What joins two backends into a third one joins them one after the other. -/
lemma join_absorb {b c d : Backend} (hc : b.join c = b) (hd : b.join d = b) :
    b.join (c.join d) = b := by
  cases b <;> cases c <;> cases d <;> simp_all [join]

end Backend

lemma Kind.join_of_isReal {j k : Kind} (h : j.isReal = true ∨ k.isReal = true) :
    ∃ p, j.join k = .real p := by
  cases j <;> cases k <;> simp_all [Kind.join, Kind.isReal]

/-! ## Stacks -/

variable {lead : Shape} {b : Backend} {n m : ℕ} {F G : ℕ → ℕ → Exact}

namespace NdArray

/-- A stack of floating-point points: `F r j` is element `j` of point `r`. -/
structure Stack (a : NdArray Exact) (b : Backend) (lead : Shape) (n : ℕ) (F : ℕ → ℕ → Exact) :
    Prop where
  backend_eq : a.backend = b
  shape_eq : a.shape = lead ++ [n]
  real : a.kind.isReal = true
  entry : ∀ r < lead.size, ∀ j < n, a.realAt (r * n + j) = F r j

lemma exists_precision {α : Type} {a : NdArray α} (h : a.kind.isReal = true) :
    ∃ p, a.kind = .real p := by
  cases hk : a.kind with
  | whole k => simp [hk, Kind.isReal] at h
  | real p => exact ⟨p, rfl⟩

/-- Whole elements read as scalars. -/
lemma realAt_tabulateWhole (c : Backend) (s : Shape) (k : WholeKind) (f : ℕ → ℤ) {i : ℕ}
    (h : i < s.size) : (tabulateWhole c s k f).realAt i = finite (f i) := by
  simp [realAt, tabulateWhole, h]

lemma realAt_whole {a : NdArray Exact} {k : WholeKind} (h : a.kind = .whole k) (i : ℕ) :
    a.realAt i = finite (a.wholeAt i) := by
  rcases hc : a.cells with ⟨j, vals⟩ | ⟨p, vals⟩
  · simp [realAt, wholeAt, hc]
  · simp [NdArray.kind, Cells.kind, hc] at h

lemma Stack.congr {a : NdArray Exact} (h : a.Stack b lead n F)
    (hFG : ∀ r < lead.size, ∀ j < n, F r j = G r j) : a.Stack b lead n G :=
  ⟨h.backend_eq, h.shape_eq, h.real, fun r hr j hj => (h.entry r hr j hj).trans (hFG r hr j hj)⟩

lemma tabulate_stack (p : Precision) (f : ℕ → Exact) :
    (tabulate b (lead ++ [n]) p f).Stack b lead n fun r j => f (r * n + j) :=
  ⟨rfl, rfl, rfl, fun _ hr _ hj => realAt_tabulate _ _ _ _ _ (Shape.place_lt hr hj)⟩

/-- A conversion between floating-point formats keeps every element. -/
lemma Stack.convert {a : NdArray Exact} (h : a.Stack b lead n F) (p : Precision) :
    (a.convert (.real p)).Stack b lead n F := by
  rw [NdArray.convert]
  split
  · exact h
  · rw [h.backend_eq, h.shape_eq]
    exact (tabulate_stack p _).congr h.entry

/-- The backend of a stack does not show in its elements. -/
lemma Stack.onBackend {a : NdArray Exact} (h : a.Stack b lead n F) (c : Backend) :
    (a.onBackend c).Stack c lead n F :=
  ⟨rfl, h.shape_eq, h.real, h.entry⟩

lemma zerosLike_stack {a : NdArray Exact} (h : a.Stack b lead n F) :
    a.zerosLike.Stack b lead n fun _ _ => finite 0 := by
  obtain ⟨p, hp⟩ := exists_precision h.real
  simp only [zerosLike, hp, h.backend_eq, h.shape_eq, zero_eq]
  exact tabulate_stack p _

lemma mapReal_stack {a : NdArray Exact} (h : a.Stack b lead n F) (f : Exact → Exact) :
    (a.mapReal f).Stack b lead n fun r j => f (F r j) := by
  simp only [mapReal, h.backend_eq, h.shape_eq, narrow_eq]
  exact (tabulate_stack _ _).congr fun r hr j hj => by rw [h.entry r hr j hj]

lemma signs_stack {a : NdArray Exact} (h : a.Stack b lead n F) :
    Yields a.signs (·.Stack b lead n fun r j => Scalar.sign (F r j)) := by
  obtain ⟨p, hp⟩ := exists_precision h.real
  simp only [signs, hp, h.backend_eq, h.shape_eq]
  exact Yields.ok ((tabulate_stack p _).congr fun r hr j hj => by rw [h.entry r hr j hj])

lemma square_stack {a : NdArray Exact} (h : a.Stack b lead n F) :
    a.square.Stack b lead n fun r j => F r j * F r j := by
  obtain ⟨p, hp⟩ := exists_precision h.real
  simp only [square, hp, h.backend_eq, h.shape_eq, narrow_eq]
  exact (tabulate_stack p _).congr fun r hr j hj => by rw [h.entry r hr j hj]

end NdArray

open NdArray

/-! ## Operands

A number meets every element; an array meets those that its own axes are spread over.
-/

namespace Operand

/-- The operand can be spread over a shape. -/
def Fits (s : Shape) : Operand Exact → Prop
  | array a => s.broadcast? a.shape = some s
  | number _ => True

/-- What element `j` of point `r` meets. -/
noncomputable def entry (lead : Shape) (n : ℕ) : Operand Exact → ℕ → ℕ → Exact
  | array a, r, j => a.realAt ((lead ++ [n]).project a.shape (r * n + j))
  | number x, _, _ => x.value

/-- Where the operand lives; a number goes along with anything. -/
def backend : Operand Exact → Backend
  | array a => a.backend
  | number _ => .memory

/-- A number meets every element also after it has been spread to an array without axes. -/
lemma fits_spread (p : Precision) (x : Exact) (s : Shape) :
    (array (tabulate .memory [] p fun _ => x)).Fits s := Shape.broadcast?_nil s

lemma entry_spread (p : Precision) (x : Exact) (r j : ℕ) :
    (array (tabulate .memory [] p fun _ => x)).entry lead n r j = x := by
  rw [entry]
  refine (congrArg _ (Shape.project_nil _ _)).trans ?_
  exact realAt_tabulate _ _ _ _ _ Nat.one_pos

lemma fits_of_stack {a : NdArray Exact} (h : a.Stack b lead n F) :
    (array a).Fits (lead ++ [n]) := by
  rw [Fits, h.shape_eq]
  exact Shape.broadcast?_self _

/-- An element of a stack meets the same element of another one. -/
lemma entry_of_stack {a : NdArray Exact} (h : a.Stack b lead n F) {r j : ℕ} (hr : r < lead.size)
    (hj : j < n) : (array a).entry lead n r j = F r j := by
  rw [entry, h.shape_eq, Shape.project_self _ _ (Shape.place_lt hr hj), h.entry r hr j hj]

/-- An operand with one number for each point. -/
lemma fits_of_column {a : NdArray Exact} (h : a.Stack b lead 1 F) :
    (array a).Fits (lead ++ [n]) := by
  rw [Fits, h.shape_eq, Shape.broadcast?_append_eq_left_iff]
  exact ⟨Or.inr rfl, Shape.broadcast?_self _⟩

lemma entry_of_column {a : NdArray Exact} (h : a.Stack b lead 1 F) {r j : ℕ} (hr : r < lead.size)
    (hj : j < n) : (array a).entry lead n r j = F r 0 := by
  rw [entry, h.shape_eq, Shape.project_append_one _ _ _ (Shape.place_lt hr hj), Shape.place_div hj]
  simpa using h.entry r hr 0 Nat.one_pos

/-- An operand along the trailing axis alone fits every stack of points. -/
lemma Fits.stack {o : Operand Exact} (h : o.Fits [n]) (lead : Shape) : o.Fits (lead ++ [n]) := by
  cases o with
  | number x => trivial
  | array a =>
    rcases (Shape.broadcast?_singleton_eq_left_iff n a.shape).mp h with ha | ⟨m, ha, hm⟩
    · rw [Fits, ha]
      exact Shape.broadcast?_nil _
    · rw [Fits, ha]
      exact Shape.broadcast?_append_singleton lead hm

/-- Every point meets the same elements of it. -/
lemma Fits.entry_eq {o : Operand Exact} (h : o.Fits [n]) (lead : Shape) (r : ℕ) {j : ℕ}
    (hj : j < n) : o.entry lead n r j = o.entry [] n 0 j := by
  cases o with
  | number x => rfl
  | array a =>
    rcases (Shape.broadcast?_singleton_eq_left_iff n a.shape).mp h with ha | ⟨m, ha, -⟩
    · rw [entry, entry, ha, Shape.project_nil, Shape.project_nil]
    · rw [entry, entry, ha, Shape.project_append_singleton, Shape.project_append_singleton,
        Shape.place_mod hj, Shape.place_mod hj]

end Operand

/-! ## Elementwise operations -/

/-- A number spread as floating-point elements. -/
lemma spread_real (x : Number Exact) (p : Precision) :
    x.spread (.real p) = .ok (tabulate .memory [] p fun _ => x.value) := by
  rw [Number.spread, Number.toReal_eq]
  rfl

lemma zipReal_stack (p : Precision) (f : Exact → Exact → Exact) {a c : NdArray Exact}
    (ha : a.Stack b lead n F) (hc : (Operand.array c).Fits (lead ++ [n])) :
    Yields (zipReal p f a c) (·.Stack (b.join c.backend) lead n fun r j =>
      f (F r j) ((Operand.array c).entry lead n r j)) := by
  have hs : Shape.broadcast? a.shape c.shape = some (lead ++ [n]) := by
    rw [ha.shape_eq]
    exact hc
  simp only [zipReal, hs, narrow_eq, ha.backend_eq]
  refine Yields.ok ((tabulate_stack p _).congr fun r hr j hj => ?_)
  rw [ha.shape_eq, Shape.project_self _ _ (Shape.place_lt hr hj), ha.entry r hr j hj]
  rfl

lemma zipReal_number_stack (p q : Precision) (f : Exact → Exact → Exact) {a : NdArray Exact}
    (ha : a.Stack b lead n F) (x : Exact) :
    Yields (zipReal p f (tabulate .memory [] q fun _ => x) a)
      (·.Stack b lead n fun r j => f x (F r j)) := by
  have hs : Shape.broadcast? (tabulate .memory [] q fun _ => x).shape a.shape
      = some (lead ++ [n]) := by
    rw [ha.shape_eq, Shape.broadcast?_comm]
    exact Shape.broadcast?_nil _
  have hx : (tabulate Backend.memory [] q fun _ => x).realAt 0 = x :=
    realAt_tabulate _ _ _ _ _ Nat.one_pos
  have hb : (tabulate Backend.memory [] q fun _ => x).backend.join b = b := Backend.memory_join b
  simp only [zipReal, hs, narrow_eq, ha.backend_eq, hb]
  refine Yields.ok ((tabulate_stack p _).congr fun r hr j hj => ?_)
  rw [ha.shape_eq, Shape.project_self _ _ (Shape.place_lt hr hj), ha.entry r hr j hj]
  exact congrArg (f · (F r j)) ((congrArg _ (Shape.project_nil _ _)).trans hx)

lemma combineIn_real (op : Operation) (p : Precision) (a c : NdArray Exact) :
    combineIn op (.real p) a c = zipReal p op.onReal a c := rfl

/-- **An operation on a stack** acts element by element. -/
theorem arith_stack (op : Operation) {a : NdArray Exact} {o : Operand Exact}
    (ha : a.Stack b lead n F) (ho : o.Fits (lead ++ [n])) :
    Yields (arith op (.array a) o) (·.Stack (b.join o.backend) lead n fun r j =>
      op.onReal (F r j) (o.entry lead n r j)) := by
  obtain ⟨p, hp⟩ := exists_precision ha.real
  cases o with
  | array c =>
    obtain ⟨q, hq⟩ := Kind.join_of_isReal (j := a.kind) (k := c.kind) (Or.inl ha.real)
    rw [arith, hq, combineIn_real]
    exact zipReal_stack q op.onReal ha ho
  | number x =>
    simp only [arith, hp, Number.kindBeside, spread_real, bind, Except.bind, combineIn_real]
    refine (zipReal_stack p op.onReal ha (Operand.fits_spread _ _ _)).mono fun c hc => ?_
    exact hc.congr fun r _ j _ => congrArg (op.onReal (F r j)) (Operand.entry_spread p x.value r j)

/-- An operation of a number with a stack acts element by element. -/
lemma arith_number_stack (op : Operation) (x : Number Exact) {a : NdArray Exact}
    (ha : a.Stack b lead n F) :
    Yields (arith op (.number x) (.array a)) (·.Stack b lead n fun r j =>
      op.onReal x.value (F r j)) := by
  obtain ⟨p, hp⟩ := exists_precision ha.real
  simp only [arith, hp, Number.kindBeside, spread_real, bind, Except.bind, combineIn_real]
  exact zipReal_number_stack p p op.onReal ha x.value

/-- An update in place stores what fits the stack and lives where the stack lives. -/
lemma assign_stack {a c : NdArray Exact} (ha : a.Stack b lead n F) (hc : c.Stack b lead n G) :
    Yields (a.assign c) (·.Stack b lead n G) := by
  obtain ⟨p, hp⟩ := exists_precision ha.real
  obtain ⟨q, hq⟩ := exists_precision hc.real
  rw [assign]
  cases b with
  | chunked =>
    rw [ha.backend_eq]
    exact Yields.ok hc
  | memory =>
    simp only [ha.backend_eq, hc.backend_eq, hp, hq, Kind.storable, ha.shape_eq, hc.shape_eq]
    rw [if_neg (by simp), if_neg (by simp), if_neg (by simp)]
    exact Yields.ok (hc.convert p)

/-- **An update in place** acts element by element and leaves the stack where it lives. -/
theorem update_stack (op : Operation) {a : NdArray Exact} {o : Operand Exact}
    (ha : a.Stack b lead n F) (ho : o.Fits (lead ++ [n])) (hb : b.join o.backend = b) :
    Yields (a.update op o)
      (·.Stack b lead n fun r j => op.onReal (F r j) (o.entry lead n r j)) := by
  refine (arith_stack op ha ho).bind fun c hc => ?_
  rw [hb] at hc
  exact assign_stack ha hc

/-- The larger or the smaller of a stack and an operand, element by element. -/
lemma extremum_stack (larger : Bool) {a : NdArray Exact} {o : Operand Exact}
    (ha : a.Stack b lead n F) (ho : o.Fits (lead ++ [n])) :
    Yields (extremum larger (.array a) o) (·.Stack (b.join o.backend) lead n fun r j =>
      (if larger then Scalar.maximum else Scalar.minimum) (F r j) (o.entry lead n r j)) := by
  obtain ⟨p, hp⟩ := exists_precision ha.real
  cases o with
  | array c =>
    obtain ⟨q, hq⟩ := Kind.join_of_isReal (j := a.kind) (k := c.kind) (Or.inl ha.real)
    simp only [extremum, hq, pure, Except.pure, bind, Except.bind]
    exact zipReal_stack q _ ha ho
  | number x =>
    simp only [extremum, hp, Number.kindBeside, spread_real, pure, Except.pure, bind, Except.bind]
    refine (zipReal_stack p _ ha (Operand.fits_spread _ _ _)).mono fun c hc => ?_
    exact hc.congr fun r _ j _ => congrArg (_ : Exact → Exact) (Operand.entry_spread p x.value r j)

/-! ## Functions of the trailing axis -/

/-- **A function of the trailing axis** acts on each point by itself. -/
theorem mapTail_stack (p : Precision) {g : (ℕ → Exact) → ℕ → Exact} {a : NdArray Exact}
    (ha : a.Stack b lead n F)
    (hg : ∀ u v : ℕ → Exact, (∀ j < n, u j = v j) → ∀ i < m, g u i = g v i) :
    (a.mapTail 1 [m] p g).Stack b lead m fun r i => g (F r) i := by
  simp only [mapTail, ha.backend_eq, ha.shape_eq, Shape.replaceTail_stack, Shape.tail_stack,
    Shape.size_singleton]
  refine (tabulate_stack p _).congr fun r hr i hi => ?_
  rw [Shape.place_div hi, Shape.place_mod hi]
  exact hg _ _ (fun j hj => ha.entry r hr j hj) i hi

/-- The sum of the first `n` elements of a point. -/
noncomputable def total (n : ℕ) (u : ℕ → Exact) : Exact :=
  ((List.range n).map u).foldl (· + ·) (finite 0)

lemma roundedSum_eq (p : Precision) (xs : List Exact) :
    roundedSum p xs = xs.foldl (· + ·) (finite 0) := by
  rw [roundedSum, zero_eq]
  rfl

lemma sumTail_stack {a : NdArray Exact} (ha : a.Stack b lead n F) :
    (a.sumTail 1).Stack b lead 1 fun r _ => total n (F r) := by
  obtain ⟨p, hp⟩ := exists_precision ha.real
  simp only [sumTail, hp, ha.shape_eq, Shape.tail_stack, Shape.size_singleton, roundedSum_eq]
  refine mapTail_stack p ha fun u v huv i _ => ?_
  rw [blockList, blockList, List.map_congr_left fun j hj => huv j (List.mem_range.mp hj)]

end PrimalDual
