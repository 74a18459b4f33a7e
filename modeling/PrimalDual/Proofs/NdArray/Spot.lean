import PrimalDual.NdArray.Reduce
import PrimalDual.Proofs.NdArray.Stack

/-!
# One point in two stacks

An array of shape `(…, N)` is a stack of points.  What an operation does to a point is settled by the
point alone: its elements, their kind, and what the operands show there.  So a point that stands in
two stacks, possibly of different shapes, keeps standing in both when the same operations are applied
to them, and an operation is refused for both stacks or for neither.  Nothing here depends on what
the scalars are, so all of it holds for rounded numbers too.

* `Spot` — a place in a stack of some shape.
* `NdArray.Shows`, `NdArray.Spreads` — the elements that a stack has there, and those that an operand
  is read at when it is spread over a stack.
* `SamePoint`, `SameSpread` — two arrays that have, or are read at, the same elements.
* `SamePoint.arith`, `update`, `extremum`, `mapTail` — operations keep a point the same.
* `NdArray.row`, `Spot.alone` — a row of a stack by itself.
* **`SamePoint.row_eq`** — a point that is the same in a stack and alone is a row of the stack.
-/

namespace PrimalDual

/-- The place of a point in a stack. -/
structure Spot where
  /-- The axes along which points are stacked. -/
  lead : Shape
  row : ℕ
  lt : row < lead.size

variable {α : Type} [Scalar α] {s s' : Spot} {k m n : ℕ} {u v : ℕ → α}

namespace NdArray

/-! ## What a stack shows at a spot -/

/-- The array is a stack of points of `m` elements, and those at the spot are `u`. -/
structure Shows (a : NdArray α) (s : Spot) (m : ℕ) (u : ℕ → α) : Prop where
  shape_eq : a.shape = s.lead ++ [m]
  entry : ∀ j < m, a.realAt (s.row * m + j) = u j

/--
Spread over a stack, the array is read at the spot like a point of `k` elements `v`: a single element
is repeated.
-/
structure Spreads (a : NdArray α) (s : Spot) (k : ℕ) (v : ℕ → α) : Prop where
  broadcast : ∀ m, Shape.broadcast? (s.lead ++ [m]) a.shape
    = (Shape.broadcast? [m] [k]).map (s.lead ++ ·)
  entry : ∀ t j, j < t → k = t ∨ k = 1 →
    a.realAt ((s.lead ++ [t]).project a.shape (s.row * t + j)) = v (if k = 1 then 0 else j)

variable {a c : NdArray α}

lemma tabulate_shows (b : Backend) (p : Precision) (f : ℕ → α) :
    (tabulate b (s.lead ++ [m]) p f).Shows s m fun j => f (s.row * m + j) :=
  ⟨rfl, fun _ hj => realAt_tabulate _ _ _ _ _ (Shape.place_lt s.lt hj)⟩

lemma Shows.congr (ha : a.Shows s m u) (h : ∀ j < m, u j = v j) : a.Shows s m v :=
  ⟨ha.shape_eq, fun j hj => (ha.entry j hj).trans (h j hj)⟩

lemma Shows.spreads (ha : a.Shows s m u) : a.Spreads s m u where
  broadcast k := by
    rw [ha.shape_eq]
    exact Shape.broadcast?_append (Shape.broadcast?_self _) k m
  entry t j hj hm := by
    rw [ha.shape_eq, Shape.project_place s.lt hj]
    rcases hm with rfl | rfl
    · split_ifs with h1
      · subst h1
        exact ha.entry 0 Nat.one_pos
      · exact ha.entry j hj
    · simpa using ha.entry 0 Nat.one_pos

/-- An array with a single axis is read alike at all spots. -/
lemma spreads_of_axis (h : a.shape = [k]) : a.Spreads s k a.realAt where
  broadcast m := by
    rw [h]
    exact Shape.broadcast?_append (Shape.broadcast?_nil s.lead) m k
  entry t j hj _ := by
    rw [h, Shape.project_append_singleton, Shape.place_mod hj]

/-- So is one without axes. -/
lemma spreads_of_scalar (h : a.shape = []) : a.Spreads s 1 fun _ => a.realAt 0 where
  broadcast m := by
    have hm : Shape.broadcast? [m] [1] = some [m] :=
      (Shape.broadcast?_singleton_eq_left_iff m [1]).mpr (Or.inr ⟨1, rfl, Or.inr rfl⟩)
    rw [h, hm, Shape.broadcast?_nil]
    rfl
  entry t j _ _ := by rw [h, Shape.project_nil]

/-! ## Elementwise combinations -/

/-- What does not meet along the trailing axis is refused. -/
lemma zipReal_refused (p : Precision) (f : α → α → α)
    (hs : Shape.broadcast? a.shape c.shape = (Shape.broadcast? [m] [k]).map (s.lead ++ ·))
    (h : Shape.broadcast? [m] [k] = none) : zipReal p f a c = .error .shapeMismatch := by
  rw [h, Option.map_none] at hs
  simp only [zipReal, hs]

/-- What meets along the trailing axis is combined element by element. -/
lemma zipReal_shows (p : Precision) (f : α → α → α) (ha : a.Spreads s m u) (hc : c.Spreads s k v)
    (hs : Shape.broadcast? a.shape c.shape = (Shape.broadcast? [m] [k]).map (s.lead ++ ·)) {t : ℕ}
    (ht : Shape.broadcast? [m] [k] = some [t]) :
    ∃ y, zipReal p f a c = .ok y ∧ y.kind = .real p ∧ y.backend = a.backend.join c.backend ∧
      y.Shows s t fun j =>
        Scalar.narrow p (f (u (if m = 1 then 0 else j)) (v (if k = 1 then 0 else j))) := by
  obtain ⟨t', ht', hm, hk⟩ := Shape.singleton_of_broadcast? ht
  obtain rfl : t = t' := List.singleton_inj.mp ht'
  rw [ht, Option.map_some] at hs
  simp only [zipReal, hs]
  refine ⟨_, rfl, rfl, rfl, (tabulate_shows _ p _).congr fun j hj => ?_⟩
  rw [ha.entry t j hj hm, hc.entry t j hj hk]

/-- **A function of the trailing axis** shows at a spot what it makes of the point there. -/
lemma mapTail_shows (p : Precision) {g : (ℕ → α) → ℕ → α} (ha : a.Shows s n u)
    (hg : ∀ u v : ℕ → α, (∀ j < n, u j = v j) → ∀ i < m, g u i = g v i) :
    (a.mapTail 1 [m] p g).Shows s m (g u) := by
  simp only [mapTail, ha.shape_eq, Shape.replaceTail_stack, Shape.tail_stack, Shape.size_singleton]
  refine (tabulate_shows _ p _).congr fun i hi => ?_
  rw [Shape.place_div hi, Shape.place_mod hi]
  exact hg _ _ ha.entry i hi

end NdArray

open NdArray

/-! ## The same point in two stacks -/

/-- Two stacks of floating-point numbers have the same point at their spots. -/
structure SamePoint (s s' : Spot) (a a' : NdArray α) : Prop where
  backend_eq : a'.backend = a.backend
  kind_eq : a'.kind = a.kind
  real : a.kind.isReal = true
  shows : ∃ m u, a.Shows s m u ∧ a'.Shows s' m u

/-- Two arrays are read at the same elements when they are spread over two stacks. -/
structure SameSpread (s s' : Spot) (c c' : NdArray α) : Prop where
  backend_eq : c'.backend = c.backend
  kind_eq : c'.kind = c.kind
  spreads : ∃ k v, c.Spreads s k v ∧ c'.Spreads s' k v

/-- Two operands that elements at the spots meet alike. -/
inductive SameOperand (s s' : Spot) : Operand α → Operand α → Prop
  | number (x : Number α) : SameOperand s s' (.number x) (.number x)
  | array {c c' : NdArray α} (h : SameSpread s s' c c') : SameOperand s s' (.array c) (.array c')

/-- An operand with at most one axis, so that all points meet it alike. -/
def Operand.Shared : Operand α → Prop
  | .array c => c.rank ≤ 1
  | .number _ => True

lemma SameSpread.refl {c : NdArray α} (h : c.rank ≤ 1) : SameSpread s s' c c := by
  refine ⟨rfl, rfl, ?_⟩
  match hs : c.shape with
  | [] => exact ⟨1, _, spreads_of_scalar hs, spreads_of_scalar hs⟩
  | [k] => exact ⟨k, _, spreads_of_axis hs, spreads_of_axis hs⟩
  | _ :: _ :: _ => simp [NdArray.rank, hs] at h

lemma Operand.Shared.same : ∀ {o : Operand α}, o.Shared → SameOperand s s' o o
  | .number x, _ => .number x
  | .array _, h => .array (.refl h)

lemma zipReal_same (p : Precision) (f : α → α → α) {a a' c c' : NdArray α}
    (hb : a'.backend.join c'.backend = a.backend.join c.backend) (hm : a.Spreads s m u)
    (hm' : a'.Spreads s' m u) (hk : c.Spreads s k v) (hk' : c'.Spreads s' k v)
    (hs : Shape.broadcast? a.shape c.shape = (Shape.broadcast? [m] [k]).map (s.lead ++ ·))
    (hs' : Shape.broadcast? a'.shape c'.shape = (Shape.broadcast? [m] [k]).map (s'.lead ++ ·)) :
    Parallel (SamePoint s s') (zipReal p f a c) (zipReal p f a' c') := by
  rcases hmk : Shape.broadcast? [m] [k] with _ | t
  · rw [zipReal_refused p f hs hmk, zipReal_refused p f hs' hmk]
    exact .refused _
  · obtain ⟨t, rfl, -⟩ := Shape.singleton_of_broadcast? hmk
    obtain ⟨y, hy, hkind, hbackend, hshows⟩ := zipReal_shows p f hm hk hs hmk
    obtain ⟨y', hy', hkind', hbackend', hshows'⟩ := zipReal_shows p f hm' hk' hs' hmk
    rw [hy, hy']
    refine .ok ⟨?_, hkind'.trans hkind.symm, by rw [hkind]; rfl, t, _, hshows, hshows'⟩
    rw [hbackend, hbackend', hb]

namespace SamePoint

variable {a a' c c' : NdArray α} {o o' : Operand α}

lemma spread (ha : SamePoint s s' a a') : SameSpread s s' a a' := by
  obtain ⟨m, u, hm, hm'⟩ := ha.shows
  exact ⟨ha.backend_eq, ha.kind_eq, m, u, hm.spreads, hm'.spreads⟩

lemma operand (ha : SamePoint s s' a a') : SameOperand s s' (.array a) (.array a') :=
  .array ha.spread

/-! ## Elementwise operations -/

lemma zipReal (p : Precision) (f : α → α → α) (ha : SamePoint s s' a a')
    (hc : SameSpread s s' c c') :
    Parallel (SamePoint s s') (zipReal p f a c) (zipReal p f a' c') := by
  obtain ⟨m, u, hm, hm'⟩ := ha.shows
  obtain ⟨k, v, hk, hk'⟩ := hc.spreads
  refine zipReal_same p f (by rw [ha.backend_eq, hc.backend_eq]) hm.spreads hm'.spreads hk hk' ?_ ?_
  · rw [hm.shape_eq, hk.broadcast]
  · rw [hm'.shape_eq, hk'.broadcast]

lemma zipReal_right (p : Precision) (f : α → α → α) (hc : SameSpread s s' c c')
    (ha : SamePoint s s' a a') :
    Parallel (SamePoint s s') (PrimalDual.zipReal p f c a) (PrimalDual.zipReal p f c' a') := by
  obtain ⟨m, u, hm, hm'⟩ := ha.shows
  obtain ⟨k, v, hk, hk'⟩ := hc.spreads
  refine zipReal_same p f (by rw [ha.backend_eq, hc.backend_eq]) hk hk' hm.spreads hm'.spreads ?_ ?_
  · rw [hm.shape_eq, Shape.broadcast?_comm, hk.broadcast, Shape.broadcast?_comm]
  · rw [hm'.shape_eq, Shape.broadcast?_comm, hk'.broadcast, Shape.broadcast?_comm]

lemma exists_precision (ha : SamePoint s s' a a') :
    ∃ p, a.kind = .real p ∧ a'.kind = .real p := by
  have hreal := ha.real
  cases hk : a.kind with
  | whole w => simp [hk, Kind.isReal] at hreal
  | real p => exact ⟨p, rfl, ha.kind_eq.trans hk⟩

/-- A number spread as floating-point elements is an array without axes. -/
lemma spread_number (x : Number α) (p : Precision) :
    Parallel (SameSpread s s') (x.spread (.real p)) (x.spread (.real p)) := by
  refine .bind_self x.toReal fun y _ => .pure (.refl ?_)
  exact Nat.zero_le _

lemma arith (op : Operation) (ha : SamePoint s s' a a') (ho : SameOperand s s' o o') :
    Parallel (SamePoint s s') (arith op (.array a) o) (arith op (.array a') o') := by
  obtain ⟨p, hp, hp'⟩ := ha.exists_precision
  cases ho with
  | @array c c' hc =>
    obtain ⟨q, hq⟩ := Kind.join_of_isReal (j := a.kind) (k := c.kind) (Or.inl ha.real)
    rw [PrimalDual.arith, PrimalDual.arith, ha.kind_eq, hc.kind_eq, hq]
    exact ha.zipReal q op.onReal hc
  | number x =>
    simp only [PrimalDual.arith, hp, hp', Number.kindBeside]
    exact (spread_number x p).bind fun _ _ hc => ha.zipReal p op.onReal hc

lemma arith_right (op : Operation) (ho : SameOperand s s' o o') (ha : SamePoint s s' a a') :
    Parallel (SamePoint s s') (PrimalDual.arith op o (.array a))
      (PrimalDual.arith op o' (.array a')) := by
  obtain ⟨p, hp, hp'⟩ := ha.exists_precision
  cases ho with
  | @array c c' hc =>
    obtain ⟨q, hq⟩ := Kind.join_of_isReal (j := c.kind) (k := a.kind) (Or.inr ha.real)
    rw [PrimalDual.arith, PrimalDual.arith, ha.kind_eq, hc.kind_eq, hq]
    exact zipReal_right q op.onReal hc ha
  | number x =>
    simp only [PrimalDual.arith, hp, hp', Number.kindBeside]
    exact (spread_number x p).bind fun _ _ hc => zipReal_right p op.onReal hc ha

lemma extremum (larger : Bool) (ha : SamePoint s s' a a') (ho : SameOperand s s' o o') :
    Parallel (SamePoint s s') (extremum larger (.array a) o)
      (PrimalDual.extremum larger (.array a') o') := by
  obtain ⟨p, hp, hp'⟩ := ha.exists_precision
  cases ho with
  | @array c c' hc =>
    obtain ⟨q, hq⟩ := Kind.join_of_isReal (j := a.kind) (k := c.kind) (Or.inl ha.real)
    simp only [PrimalDual.extremum, ha.kind_eq, hc.kind_eq, pure_bind, hq]
    exact ha.zipReal q _ hc
  | number x =>
    simp only [PrimalDual.extremum, hp, hp', Number.kindBeside]
    exact (spread_number x p).bind fun _ _ hc => ha.zipReal p _ hc

/-- A scalar function of every element shows a point of its values. -/
lemma of_tabulate (p : Precision) (f : α → α) (hb : a'.backend = a.backend) (ha : a.Shows s m u)
    (ha' : a'.Shows s' m u) :
    SamePoint s s' (NdArray.tabulate a.backend a.shape p fun i => f (a.realAt i))
      (NdArray.tabulate a'.backend a'.shape p fun i => f (a'.realAt i)) := by
  refine ⟨hb, rfl, rfl, m, fun j => f (u j), ?_, ?_⟩
  · rw [ha.shape_eq]
    exact (tabulate_shows _ p _).congr fun j hj => by rw [ha.entry j hj]
  · rw [ha'.shape_eq]
    exact (tabulate_shows _ p _).congr fun j hj => by rw [ha'.entry j hj]

lemma tabulate (p : Precision) (f : α → α) (ha : SamePoint s s' a a') :
    SamePoint s s' (NdArray.tabulate a.backend a.shape p fun i => f (a.realAt i))
      (NdArray.tabulate a'.backend a'.shape p fun i => f (a'.realAt i)) := by
  obtain ⟨m, u, hm, hm'⟩ := ha.shows
  exact of_tabulate p f ha.backend_eq hm hm'

lemma mapReal (f : α → α) (ha : SamePoint s s' a a') :
    SamePoint s s' (a.mapReal f) (a'.mapReal f) := by
  simp only [NdArray.mapReal, ha.kind_eq]
  exact ha.tabulate _ fun x => Scalar.narrow _ (f x)

lemma signs (ha : SamePoint s s' a a') : Parallel (SamePoint s s') a.signs a'.signs := by
  obtain ⟨p, hp, hp'⟩ := ha.exists_precision
  simp only [NdArray.signs, hp, hp']
  exact .ok (ha.tabulate p Scalar.sign)

lemma square (ha : SamePoint s s' a a') : SamePoint s s' a.square a'.square := by
  obtain ⟨p, hp, hp'⟩ := ha.exists_precision
  simp only [NdArray.square, hp, hp']
  exact ha.tabulate p fun x => Scalar.narrow p (x * x)

lemma zerosLike (ha : SamePoint s s' a a') : SamePoint s s' a.zerosLike a'.zerosLike := by
  obtain ⟨p, hp, hp'⟩ := ha.exists_precision
  simp only [NdArray.zerosLike, hp, hp']
  exact ha.tabulate p fun _ => Scalar.zero

lemma convert (p : Precision) (ha : SamePoint s s' a a') :
    SamePoint s s' (a.convert (.real p)) (a'.convert (.real p)) := by
  rw [NdArray.convert, NdArray.convert, ha.kind_eq]
  split
  · exact ha
  · exact ha.tabulate p (Scalar.narrow p)

lemma onBackend (b : Backend) (ha : SamePoint s s' a a') :
    SamePoint s s' (a.onBackend b) (a'.onBackend b) := by
  obtain ⟨m, u, hm, hm'⟩ := ha.shows
  exact ⟨rfl, ha.kind_eq, ha.real, m, u, ⟨hm.shape_eq, hm.entry⟩, ⟨hm'.shape_eq, hm'.entry⟩⟩

/-! ## Updates in place -/

/-- A result of another length fits neither array, one of the same length fits both. -/
lemma assign (ha : SamePoint s s' a a') (hc : SamePoint s s' c c') :
    Parallel (SamePoint s s') (a.assign c) (a'.assign c') := by
  obtain ⟨p, hp, hp'⟩ := ha.exists_precision
  obtain ⟨q, hq, hq'⟩ := hc.exists_precision
  obtain ⟨m, u, hm, hm'⟩ := ha.shows
  obtain ⟨k, v, hk, hk'⟩ := hc.shows
  have hshape : c.shape ≠ a.shape ↔ c'.shape ≠ a'.shape := by
    rw [hm.shape_eq, hk.shape_eq, hm'.shape_eq, hk'.shape_eq]
    simp
  simp only [NdArray.assign, ha.backend_eq, hc.backend_eq, hp, hp', hq, hq', hshape]
  cases a.backend with
  | chunked => exact .ok hc
  | memory =>
    dsimp only
    split_ifs
    · exact .refused _
    · exact .refused _
    · exact .refused _
    · exact .ok (hc.convert p)

lemma update (op : Operation) (ha : SamePoint s s' a a') (ho : SameOperand s s' o o') :
    Parallel (SamePoint s s') (a.update op o) (a'.update op o') :=
  (ha.arith op ho).bind fun _ _ hc => ha.assign hc

/-! ## The trailing axis -/

lemma mapTail (p : Precision) {g : (ℕ → α) → ℕ → α} (hb : a'.backend = a.backend)
    (ha : a.Shows s n u) (ha' : a'.Shows s' n u)
    (hg : ∀ u v : ℕ → α, (∀ j < n, u j = v j) → ∀ i < m, g u i = g v i) :
    SamePoint s s' (a.mapTail 1 [m] p g) (a'.mapTail 1 [m] p g) :=
  ⟨hb, rfl, rfl, m, _, mapTail_shows p ha hg, mapTail_shows p ha' hg⟩

lemma sumTail (ha : SamePoint s s' a a') : SamePoint s s' (a.sumTail 1) (a'.sumTail 1) := by
  obtain ⟨p, hp, hp'⟩ := ha.exists_precision
  obtain ⟨n, u, hn, hn'⟩ := ha.shows
  simp only [NdArray.sumTail, hp, hp', hn.shape_eq, hn'.shape_eq, Shape.tail_stack,
    Shape.size_singleton]
  refine mapTail p ha.backend_eq hn hn' ?_
  intro u v huv i _
  rw [blockList, blockList, List.map_congr_left fun j hj => huv j (List.mem_range.mp hj)]

end SamePoint

/-! ## A row by itself -/

/-- The only point of an array with a single axis. -/
def Spot.alone : Spot := ⟨[], 0, Nat.one_pos⟩

namespace NdArray

/-- Row `r` of a stack of points. -/
def row (a : NdArray α) (r : ℕ) : NdArray α :=
  a.gather [a.shape.getLast?.getD 0] fun j => r * a.shape.getLast?.getD 0 + j

variable {a a' : NdArray α}

lemma realAt_gather {t : Shape} {place : ℕ → ℕ} {i : ℕ} (hi : i < t.size) :
    (a.gather t place).realAt i = a.realAt (place i) := by
  rw [gather]
  cases hk : a.kind with
  | real p => exact realAt_tabulate _ _ _ _ _ hi
  | whole w =>
    cases hc : a.cells with
    | real p values => simp [NdArray.kind, hc, Cells.kind] at hk
    | whole w' values => simp [realAt, wholeAt, tabulateWhole, hc, hi]

lemma row_shows (h : a.shape = s.lead ++ [n]) :
    a.Shows s n (fun j => a.realAt (s.row * n + j)) ∧
      (a.row s.row).Shows .alone n fun j => a.realAt (s.row * n + j) := by
  have hlast : a.shape.getLast?.getD 0 = n := by simp [h]
  refine ⟨⟨h, fun _ _ => rfl⟩, ?_, fun j hj => ?_⟩
  · rw [row, hlast, gather]
    cases a.kind <;> rfl
  · rw [row, hlast, realAt_gather (by simpa [Spot.alone] using hj)]
    simp [Spot.alone]

lemma row_backend (r : ℕ) : (a.row r).backend = a.backend := by
  rw [row, gather]
  cases a.kind <;> rfl

lemma row_kind (r : ℕ) : (a.row r).kind = a.kind := by
  rw [row, gather]
  cases a.kind <;> rfl

lemma row_sameSpread (h : a.shape = s.lead ++ [n]) : SameSpread s .alone a (a.row s.row) :=
  ⟨row_backend _, row_kind _, n, _, (row_shows h).1.spreads, (row_shows h).2.spreads⟩

lemma row_samePoint (h : a.shape = s.lead ++ [n]) (hreal : a.kind.isReal = true) :
    SamePoint s .alone a (a.row s.row) :=
  ⟨row_backend _, row_kind _, hreal, n, _, row_shows h⟩

/-- Whole elements become floating-point ones row by row. -/
lemma row_convert (h : a.shape = s.lead ++ [n]) (p : Precision) :
    SamePoint s .alone (a.convert (.real p)) ((a.row s.row).convert (.real p)) := by
  rw [convert, convert, row_kind]
  split_ifs with hk
  · exact row_samePoint h (by rw [hk]; rfl)
  · exact .of_tabulate p (Scalar.narrow p) (row_backend _) (row_shows h).1 (row_shows h).2

/-- Floating-point arrays with the same elements are the same. -/
lemma eq_of_realAt (hb : a'.backend = a.backend) (hs : a'.shape = a.shape) (hk : a'.kind = a.kind)
    (hreal : a.kind.isReal = true) (he : ∀ i < a.shape.size, a'.realAt i = a.realAt i) : a' = a := by
  obtain ⟨b, t, cells, hsize⟩ := a
  obtain ⟨b', t', cells', hsize'⟩ := a'
  cases cells with
  | whole w values => cases hreal
  | real p values =>
    cases cells' with
    | whole w values' => cases hk
    | real p' values' =>
      cases hb
      cases hs
      cases hk
      have hvalues : values' = values := by
        refine Array.ext (hsize'.trans hsize.symm) fun i hi' hi => ?_
        have hi'' : i < Shape.size t := hsize'.symm ▸ hi'
        simpa [realAt, Array.getD, hi, hi'] using he i hi''
      cases hvalues
      rfl

end NdArray

/-- **The same point, standing alone, is the row.** -/
theorem SamePoint.row_eq {a a' : NdArray α} (h : SamePoint s .alone a a') : a' = a.row s.row := by
  obtain ⟨m, u, hm, hm'⟩ := h.shows
  obtain ⟨hrow, hrow'⟩ := row_shows hm.shape_eq
  refine eq_of_realAt ?_ ?_ ?_ ?_ fun i hi => ?_
  · rw [h.backend_eq, row_backend]
  · rw [hm'.shape_eq, hrow'.shape_eq]
  · rw [h.kind_eq, row_kind]
  · rw [row_kind, h.real]
  · rw [hrow'.shape_eq] at hi
    have hi' : i < m := by simpa [Spot.alone] using hi
    have hu := hm'.entry i hi'
    have hu' := hrow'.entry i hi'
    simp only [Spot.alone, Nat.zero_mul, Nat.zero_add] at hu hu'
    rw [hu, hu', hm.entry i hi']

end PrimalDual
