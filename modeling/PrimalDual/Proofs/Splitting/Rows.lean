import PrimalDual.Proofs.Functional.Locality
import PrimalDual.Proofs.Splitting.Setup

/-!
# Stacked points are solved apart

An initial point of shape `(…, N)` is a stack of problems that are solved together.  This file shows
that they do not see each other: the setup refuses the stack exactly when it refuses each of its
rows, and after any number of iterations the row of every iterate is the iterate of the row.  All
rows move by the same sequence of weights, which comes from the parameters alone.

* `SameRun` — two runs that agree at a point, whatever else is stacked around it.
* `start_same`, `iterate_same`, `iterateMany_same` — a setup, one iteration, any number of them.
* `DataRow`, `RowOf` — the functional of a row, whose data may be stacked like the points.
* `Smooth.leastSquares_rowOf` — it is the one that is built from the data of the row.
* **`rows_run_apart`** — the run of a stack is, row by row, the run of the row.
-/

namespace PrimalDual

open NdArray

variable {α : Type} [Scalar α] {s s' : Spot}

/-! ## Parameters that all points share -/

namespace Proximable

/-- All points meet the bounds alike, and the entries of the operator lie inside it. -/
def Local (t : Proximable α) : Prop := t.Shared ∧ ∀ K, t.operator = some K → K.Within

lemma anyZero_local : (anyZero : Proximable α).Local := by
  refine ⟨trivial, ?_⟩
  intro K hK
  cases hK

end Proximable

/-- The term behind an argument is local. -/
def TermArgument.Local : TermArgument α → Prop
  | .term t => t.Local
  | _ => True

lemma TermArgument.Local.fill {a : TermArgument α} (ha : a.Local) {t : Proximable α}
    (h : a.fill.require = .ok t) : t.Local := by
  cases a with
  | absent =>
    cases h
    exact Proximable.anyZero_local
  | term t =>
    cases h
    exact ha
  | foreign v => cases h

lemma chooseSides_within {first second : Proximable α} {order : Order} {K : LinearOperator α}
    (hfirst : first.Local) (hsecond : second.Local)
    (h : chooseSides first second = .ok (order, K)) : K.Within := by
  rw [chooseSides] at h
  split at h
  · cases h
  · rename_i K' hK' _
    cases h
    exact hfirst.2 K hK'
  · rename_i K' _ hK'
    cases h
    exact hsecond.2 K hK'
  · cases h
    trivial

/-- Steps that are not pinned are numbers. -/
lemma stepSizes_shared {beta nu tau₀ sigma₀ tau sigma : Value α} (htau : tau₀.Shared)
    (hsigma : sigma₀.Shared) (h : stepSizes beta nu tau₀ sigma₀ = .ok (tau, sigma)) :
    tau.Shared ∧ sigma.Shared := by
  obtain ⟨n, -, h⟩ := ok_of_bind h
  split at h
  · obtain ⟨b, -, h⟩ := ok_of_bind h
    obtain ⟨⟨t, σ⟩, -, h⟩ := ok_of_bind h
    cases h
    exact ⟨Value.shared_number t, Value.shared_number σ⟩
  · obtain ⟨t, -, h⟩ := ok_of_bind h
    split at h
    · cases h
    · obtain ⟨b, -, h⟩ := ok_of_bind h
      obtain ⟨σ, -, h⟩ := ok_of_bind h
      cases h
      exact ⟨htau, Value.shared_number σ⟩
  · obtain ⟨σ, -, h⟩ := ok_of_bind h
    split at h
    · cases h
    · obtain ⟨b, -, h⟩ := ok_of_bind h
      obtain ⟨t, -, h⟩ := ok_of_bind h
      cases h
      exact ⟨Value.shared_number t, hsigma⟩
  · cases h
    exact ⟨htau, hsigma⟩

namespace IterationState

/-! ## Runs that agree at a point -/

/-- The runs have the same parameters and, at their spots, the same point. -/
structure SameRun (s s' : Spot) (t t' : IterationState α) : Prop where
  smooth : SameSmooth s s' t.smooth t'.smooth
  first_eq : t'.first = t.first
  second_eq : t'.second = t.second
  tau_eq : t'.tau = t.tau
  sigma_eq : t'.sigma = t.sigma
  momentum_eq : t'.momentum = t.momentum
  order_eq : t'.order = t.order
  operator_eq : t'.operator = t.operator
  weight_eq : t'.weight = t.weight
  first_local : t.first.Local
  second_local : t.second.Local
  tau_shared : t.tau.Shared
  sigma_shared : t.sigma.Shared
  within : t.operator.Within
  x : SamePoint s s' t.x t'.x
  z : SamePoint s s' t.z t'.z
  p : SamePoint s s' t.p t'.p
  q : SamePoint s s' t.q t'.q
  dual : SamePoint s s' t.dual t'.dual

namespace SameRun

variable {t t' : IterationState α}

lemma primalTerm_eq (h : SameRun s s' t t') : t'.primalTerm = t.primalTerm := by
  rw [primalTerm, primalTerm, h.order_eq, h.first_eq, h.second_eq]

lemma dualTerm_eq (h : SameRun s s' t t') : t'.dualTerm = t.dualTerm := by
  rw [dualTerm, dualTerm, h.order_eq, h.first_eq, h.second_eq]

lemma primalTerm_shared (h : SameRun s s' t t') : t.primalTerm.Shared := by
  rw [primalTerm]
  cases t.order with
  | direct => exact h.first_local.1
  | swapped => exact h.second_local.1

lemma dualTerm_shared (h : SameRun s s' t t') : t.dualTerm.Shared := by
  rw [dualTerm]
  cases t.order with
  | direct => exact h.second_local.1
  | swapped => exact h.first_local.1

/-! ## One iteration -/

lemma primalPoint_same (h : SameRun s s' t t') :
    Parallel (SamePoint s s') t.primalPoint t'.primalPoint := by
  rw [primalPoint, primalPoint, h.tau_eq, h.operator_eq]
  refine (Smooth.gradient_same h.smooth h.x).bind fun g g' hg => ?_
  refine (LinearOperator.adjointMap_same h.within h.z).bind fun back back' hback => ?_
  refine (hg.arith .add hback.operand).bind fun d d' hd => ?_
  refine .bind_self _ fun tau htau => ?_
  refine (SamePoint.arith_right .mul (h.tau_shared tau htau).same hd).bind fun m m' hm => ?_
  exact h.x.arith .sub hm.operand

lemma dualPoint_same (h : SameRun s s' t t') {p p' : NdArray α} (hp : SamePoint s s' p p') :
    Parallel (SamePoint s s') (t.dualPoint p) (t'.dualPoint p') := by
  rw [dualPoint, dualPoint, h.sigma_eq, h.operator_eq]
  refine (SamePoint.arith_right .mul (.number _) hp).bind fun twice twice' htwice => ?_
  refine (htwice.arith .sub h.x.operand).bind fun ahead ahead' hahead => ?_
  refine (LinearOperator.map_same h.within hahead).bind fun i i' hi => ?_
  refine .bind_self _ fun sigma hsigma => ?_
  refine (SamePoint.arith_right .mul (h.sigma_shared sigma hsigma).same hi).bind fun m m' hm => ?_
  exact h.z.arith .add hm.operand

lemma proximalPoints_same (h : SameRun s s' t t') :
    Parallel (fun a b : NdArray α × NdArray α => SamePoint s s' a.1 b.1 ∧ SamePoint s s' a.2 b.2)
      t.proximalPoints t'.proximalPoints := by
  rw [proximalPoints, proximalPoints, h.primalTerm_eq, h.dualTerm_eq, h.tau_eq, h.sigma_eq]
  refine h.primalPoint_same.bind fun u u' hu => ?_
  refine (Proximable.prox_same h.primalTerm_shared h.tau_shared hu).bind fun p p' hp => ?_
  refine (h.dualPoint_same hp).bind fun v v' hv => ?_
  refine (Proximable.conjugateProx_same h.dualTerm_shared h.sigma_shared hv).bind fun q q' hq => ?_
  exact .pure ⟨hp, hq⟩

lemma relax_same (w : Number α) {u u' v v' : NdArray α} (hu : SamePoint s s' u u')
    (hv : SamePoint s s' v v') : Parallel (SamePoint s s') (relax w u v) (relax w u' v') := by
  refine (hv.arith .sub hu.operand).bind fun d d' hd => ?_
  refine (SamePoint.arith_right .mul (.number w) hd).bind fun m m' hm => ?_
  exact hu.update .add hm.operand

lemma advance (h : SameRun s s' t t') : SameRun s s' { t with momentum := t.momentum.advance }
    { t' with momentum := t'.momentum.advance } :=
  { h with momentum_eq := by rw [h.momentum_eq] }

lemma leaveBehind (h : SameRun s s' t t') {x x' : NdArray α} (hx : SamePoint s s' x x') :
    SameRun s s' (t.leaveBehind x) (t'.leaveBehind x') := by
  rw [IterationState.leaveBehind, IterationState.leaveBehind, h.x.backend_eq]
  cases t.x.backend with
  | memory => exact { h with x := hx }
  | chunked => exact h

/-- **One iteration** succeeds for both runs or fails alike, and they agree at the point again. -/
theorem iterate_same (h : SameRun s s' t t') :
    t'.iterate.2 = t.iterate.2 ∧ SameRun s s' t.iterate.1 t'.iterate.1 := by
  have hpoints := h.proximalPoints_same
  rw [iterate, iterate, h.momentum_eq]
  generalize t.proximalPoints = points at hpoints ⊢
  generalize t'.proximalPoints = points' at hpoints ⊢
  cases hpoints with
  | refused e => exact ⟨rfl, h⟩
  | @ok pq pq' hpq =>
    cases hw : t.momentum.weight with
    | error e => exact ⟨rfl, h⟩
    | ok w =>
      have hadvance := h.advance
      rw [h.momentum_eq] at hadvance
      have hx := relax_same w h.x hpq.1
      have hz := relax_same w h.z hpq.2
      dsimp only
      generalize relax w t.x pq.1 = x at hx ⊢
      generalize relax w t'.x pq'.1 = x' at hx ⊢
      generalize relax w t.z pq.2 = z at hz ⊢
      generalize relax w t'.z pq'.2 = z' at hz ⊢
      cases hx with
      | refused e => exact ⟨rfl, hadvance⟩
      | ok hx =>
        cases hz with
        | refused e => exact ⟨rfl, hadvance.leaveBehind hx⟩
        | ok hz =>
          exact ⟨rfl, { hadvance with
            x := hx, z := hz, p := hpq.1, q := hpq.2, dual := hz, weight_eq := rfl }⟩

/-- **Any number of iterations.** -/
theorem iterateMany_same (k : ℕ) (h : SameRun s s' t t') :
    (iterateMany k t').2 = (iterateMany k t).2 ∧
      SameRun s s' (iterateMany k t).1 (iterateMany k t').1 := by
  induction k generalizing t t' with
  | zero => exact ⟨rfl, h⟩
  | succ k ih =>
    obtain ⟨hresult, hnext⟩ := h.iterate_same
    rw [iterateMany, iterateMany]
    rcases ht : t.iterate with ⟨u, e | _⟩
    · rcases ht' : t'.iterate with ⟨u', e' | _⟩
      · rw [ht, ht'] at hresult hnext
        exact ⟨hresult, hnext⟩
      · rw [ht, ht'] at hresult
        cases hresult
    · rcases ht' : t'.iterate with ⟨u', e' | _⟩
      · rw [ht, ht'] at hresult
        cases hresult
      · rw [ht, ht'] at hnext
        exact ih hnext

end SameRun

/-! ## The setup -/

variable {n : ℕ} {x₀ : NdArray α} {f f' : Option (Smooth α)}
  {terms : Option (List (TermArgument α))} {given : Parameters α}

lemma readPoint_row (hx : x₀.shape = s.lead ++ [n]) :
    Parallel (SamePoint s .alone) (readPoint (.array x₀)) (readPoint (.array (x₀.row s.row))) := by
  rw [readPoint, readPoint, row_kind]
  cases hreal : x₀.kind.isReal with
  | false => exact .ok (row_convert hx .double)
  | true => exact .ok (row_samePoint hx hreal)

/-- **The setup** is refused for a stack and for its row alike, and the runs agree at the row. -/
theorem start_same (hx : x₀.shape = s.lead ++ [n])
    (hf : SameSmooth s .alone (f.getD .anyZero) (f'.getD .anyZero))
    (hterms : ∀ ts, terms = some ts → ∀ a ∈ ts, a.Local) (htau : (given.get "tau").Shared)
    (hsigma : (given.get "sigma").Shared) :
    Parallel (SameRun s .alone) (start (.array x₀) f terms given)
      (start (.array (x₀.row s.row)) f' terms given) := by
  have htau₀ : given.withDefaults.get "tau" = given.get "tau" :=
    Parameters.withDefaults_get (by decide) (by decide) (by decide)
  have hsigma₀ : given.withDefaults.get "sigma" = given.get "sigma" :=
    Parameters.withDefaults_get (by decide) (by decide) (by decide)
  unfold start
  dsimp only
  rw [htau₀, hsigma₀, hf.curvature_eq]
  split_ifs
  · exact .refused _
  · split
    · rename_i a b
      have hlocal := hterms [a, b] rfl
      refine .bind_self _ fun first hfirst => .bind_self _ fun second hsecond => ?_
      have hfirst' := (hlocal a (by simp)).fill hfirst
      have hsecond' := (hlocal b (by simp)).fill hsecond
      refine .bind_self _ fun ⟨order, K⟩ hsides => .bind_self _ fun ⟨tau, sigma⟩ hsteps => ?_
      have hK := chooseSides_within hfirst' hsecond' hsides
      obtain ⟨htau', hsigma'⟩ := stepSizes_shared htau hsigma hsteps
      refine .bind_self _ fun method _ => .bind_self _ fun momentum _ => ?_
      refine (readPoint_row hx).bind fun x x' hx => ?_
      refine (LinearOperator.map_same hK hx).bind fun z z' hz => ?_
      exact .pure ⟨hf, rfl, rfl, rfl, rfl, rfl, rfl, rfl, rfl, hfirst', hsecond', htau', hsigma',
        hK, hx, hz, hx, hz.zerosLike, hz⟩
    · exact .refused _
    · exact .refused _

end IterationState

/-! ## The problem of a row -/

/-- The data that row `r` meets: shared data as it is, of data stacked like the points its row. -/
inductive DataRow (lead : Shape) (r : ℕ) : Value α → Value α → Prop
  | shared {d : Value α} (h : d.Shared) : DataRow lead r d d
  | stacked {a : NdArray α} {k : ℕ} (h : a.shape = lead ++ [k]) :
      DataRow lead r (.array a) (.array (a.row r))

/-- The functional that row `r` meets: the same one, with the data of the row. -/
inductive Smooth.RowOf (lead : Shape) (r : ℕ) : Smooth α → Smooth α → Prop
  | zero (dim : Option Int) (c : α) : RowOf lead r ⟨.zero, dim, c⟩ ⟨.zero, dim, c⟩
  | leastSquares {K : LinearOperator α} {d d' : Value α} (dim : Option Int) (c : α) (hK : K.Within)
      (hd : DataRow lead r d d') :
      RowOf lead r ⟨.leastSquares K d, dim, c⟩ ⟨.leastSquares K d', dim, c⟩
  | quadratic {factor : Value α} (dim : Option Int) (c : α) (h : factor.Shared) :
      RowOf lead r ⟨.quadratic factor, dim, c⟩ ⟨.quadratic factor, dim, c⟩

lemma DataRow.same {d d' : Value α} (h : DataRow s.lead s.row d d') : SameData s .alone d d' := by
  cases h with
  | shared h => exact .shared h
  | stacked h => exact .stacked (row_sameSpread h)

lemma Smooth.RowOf.same {f f' : Smooth α} (h : f.RowOf s.lead s.row f') :
    SameSmooth s .alone f f' := by
  cases h with
  | zero => exact ⟨rfl, .zero⟩
  | leastSquares dim c hK hd => exact ⟨rfl, .leastSquares hK hd.same⟩
  | quadratic dim c h => exact ⟨rfl, .quadratic h⟩

namespace DataRow

variable {lead : Shape} {r : ℕ} {d d' : Value α}

lemma isNull_eq (h : DataRow lead r d d') : d'.isNull = d.isNull := by
  cases h with
  | shared | stacked => rfl

lemma dataLength_eq (h : DataRow lead r d d') : Smooth.dataLength d' = Smooth.dataLength d := by
  cases h with
  | shared => rfl
  | @stacked a k h =>
    have hrow : (a.row r).shape = [k] := by
      rw [NdArray.row, gather]
      cases a.kind <;> simp [h, tabulate, tabulateWhole]
    rw [Smooth.dataLength, Smooth.dataLength, hrow, h]
    simp

lemma forwardOperator_eq (h : DataRow lead r d d') (forward : Smooth.Forward α) :
    Smooth.forwardOperator d' forward = Smooth.forwardOperator d forward := by
  cases forward with
  | absent => rw [Smooth.forwardOperator, Smooth.forwardOperator, h.isNull_eq, h.dataLength_eq]
  | operator K | foreign v => rfl

end DataRow

/-- Built from the data of a row, a least-squares functional is that of the row. -/
theorem Smooth.leastSquares_rowOf {lead : Shape} {r : ℕ} {d d' : Value α} {forward : Forward α}
    {f : Smooth α} (hd : DataRow lead r d d')
    (hK : ∀ K, forwardOperator d forward = .ok K → K.Within)
    (h : leastSquares d forward = .ok f) :
    ∃ f', leastSquares d' forward = .ok f' ∧ f.RowOf lead r f' := by
  unfold leastSquares at h ⊢
  rw [hd.forwardOperator_eq]
  obtain ⟨K, hforward, h⟩ := ok_of_bind h
  rw [hforward]
  have hend : ∀ {f : Smooth α}, ((Number.real K.bound).square >>= fun squared =>
      pure ⟨.leastSquares K d, K.dim, squared.value⟩) = Except.ok f →
      ∃ f', ((Number.real K.bound).square >>= fun squared =>
        pure ⟨.leastSquares K d', K.dim, squared.value⟩) = Except.ok f' ∧ f.RowOf lead r f' := by
    intro f hf
    obtain ⟨squared, hsquared, hf⟩ := ok_of_bind hf
    cases hf
    exact ⟨_, by rw [hsquared]; rfl, .leastSquares _ _ (hK K hforward) hd⟩
  dsimp only [bind, Except.bind] at h hend ⊢
  cases hcodim : K.codim with
  | none =>
    simp only [hcodim] at h ⊢
    exact hend h
  | some m =>
    simp only [hcodim, hd.isNull_eq, hd.dataLength_eq] at h ⊢
    split_ifs at h ⊢
    · cases hlen : dataLength d with
      | error e =>
        rw [hlen] at h
        cases h
      | ok len =>
        simp only [hlen] at h ⊢
        split_ifs at h ⊢
        exact hend h
    · exact hend h

namespace IterationState

/--
**Stacked points are solved apart.**  A setup is refused for a stack exactly when it is refused for a
row, and for the same reason.  Otherwise any number of iterations on the stack and on the row end
alike, every iterate of the row is the row of the iterate, and the weights are the same.
-/
theorem rows_run_apart {lead : Shape} {n r : ℕ} {x₀ : NdArray α} {f f' : Option (Smooth α)}
    {terms : Option (List (TermArgument α))} {given : Parameters α} (hx : x₀.shape = lead ++ [n])
    (hr : r < lead.size) (hf : (f.getD .anyZero).RowOf lead r (f'.getD .anyZero))
    (hterms : ∀ ts, terms = some ts → ∀ a ∈ ts, a.Local) (htau : (given.get "tau").Shared)
    (hsigma : (given.get "sigma").Shared) :
    (∀ e, start (.array x₀) f terms given = .error e ↔
      start (.array (x₀.row r)) f' terms given = .error e) ∧
    ∀ s, start (.array x₀) f terms given = .ok s →
      ∃ s', start (.array (x₀.row r)) f' terms given = .ok s' ∧
        ∀ k, (iterateMany k s').2 = (iterateMany k s).2 ∧
          (iterateMany k s').1.x = (iterateMany k s).1.x.row r ∧
          (iterateMany k s').1.z = (iterateMany k s).1.z.row r ∧
          (iterateMany k s').1.p = (iterateMany k s).1.p.row r ∧
          (iterateMany k s').1.q = (iterateMany k s).1.q.row r ∧
          (iterateMany k s').1.weight = (iterateMany k s).1.weight ∧
          (iterateMany k s').1.momentum = (iterateMany k s).1.momentum := by
  have hsame := start_same (s := ⟨lead, r, hr⟩) hx hf.same hterms htau hsigma
  refine ⟨hsame.error_iff, fun s hs => ?_⟩
  obtain ⟨s', hs', hrun⟩ := hsame.exists_ok hs
  refine ⟨s', hs', fun k => ?_⟩
  obtain ⟨hresult, h⟩ := hrun.iterateMany_same k
  exact ⟨hresult, h.x.row_eq, h.z.row_eq, h.p.row_eq, h.q.row_eq, h.weight_eq, h.momentum_eq⟩

/-! Two stacked points with data of their own, a scaled term, and a box on the differences. -/

noncomputable def stackedPoints : NdArray Exact := .tabulate .memory [2, 3] .double fun k => .finite k

noncomputable def stackedData : NdArray Exact :=
  .tabulate .memory [2, 3] .double fun k => .finite (k * k)

noncomputable def distanceTo (data : NdArray Exact) : Smooth Exact :=
  ⟨.leastSquares ⟨.identity, some 3, some 3, Scalar.one⟩ (.array data), some 3, .finite 1⟩

/-- Without an operator the data is compared with points of its own size. -/
lemma distanceTo_made {data : NdArray Exact} (h : data.shape.getLast? = some 3) :
    Smooth.leastSquares (.array data) .absent = .ok (distanceTo data) := by
  have hlength : Smooth.dataLength (.array data) = .ok 3 := by rw [Smooth.dataLength, h]
  have hforward : Smooth.forwardOperator (.array data) .absent
      = .ok (⟨.identity, some 3, some 3, Scalar.one⟩ : LinearOperator Exact) := by
    show (Smooth.dataLength (.array data) >>= fun n => LinearOperator.identity (.number (.int n))) = _
    rw [hlength]
    rfl
  have hsquare : (Number.real (Scalar.one : Exact)).square = .ok (.real (.finite 1)) := by
    rw [Exact.one_eq, Number.square_finite, one_mul]
  rw [Smooth.leastSquares, hforward]
  simp only [bind, Except.bind, hlength, hsquare]
  rfl

noncomputable def boxedDifferences : Proximable Exact :=
  .plain (.box (.number (.int 0)) (.array (.tabulate .memory [2] .double fun _ => .finite 1))) (some 2)
    (some ⟨.difference, some 2, some 3, Scalar.ofInt 2⟩)

noncomputable def stackedTerms : List (TermArgument Exact) :=
  [.term (.scaled (Scalar.ofInt 2) (.plain .absolute none none) none), .term boxedDifferences]

def unitSteps : Parameters Exact :=
  [("tau", .number (.int 1)), ("sigma", .number (.int 1)), ("lambda", .number (.int 1))]

lemma stackedTerms_local : ∀ ts, some stackedTerms = some ts → ∀ a ∈ ts, a.Local := by
  rintro ts ⟨⟩ a ha
  rw [stackedTerms, List.mem_cons, List.mem_singleton] at ha
  rcases ha with rfl | rfl
  · refine ⟨trivial, ?_⟩
    rintro K hK
    cases hK
  · refine ⟨⟨Value.shared_number _, Value.shared_array (Nat.le_refl 1)⟩, ?_⟩
    rintro K ⟨⟩
    trivial

lemma stackedPoints_start : ∃ s,
    start (.array stackedPoints) (some (distanceTo stackedData)) (some stackedTerms) unitSteps
      = .ok s := by
  have hmethod : unitSteps.getD "method" (.text Method.plain.tag) = .text Method.plain.tag := rfl
  unfold start
  dsimp only
  rw [Parameters.withDefaults_method, hmethod, Method.ofTag_tag]
  exact ⟨_, rfl⟩

/-- The second of the two points is solved as if it were alone. -/
theorem second_runs_apart : ∃ s s',
    start (.array stackedPoints) (some (distanceTo stackedData)) (some stackedTerms) unitSteps
      = .ok s ∧
    start (.array (stackedPoints.row 1)) (some (distanceTo (stackedData.row 1))) (some stackedTerms)
      unitSteps = .ok s' ∧
    ∀ k, (iterateMany k s').2 = (iterateMany k s).2 ∧
      (iterateMany k s').1.x = (iterateMany k s).1.x.row 1 := by
  have hmade : Smooth.leastSquares (.array stackedData) .absent = .ok (distanceTo stackedData) :=
    distanceTo_made rfl
  have hrow : DataRow [2] 1 (.array stackedData) (.array (stackedData.row 1)) := .stacked (k := 3) rfl
  have hwithin : ∀ K, Smooth.forwardOperator (.array stackedData) .absent = .ok K → K.Within := by
    rintro K ⟨⟩
    trivial
  obtain ⟨f', hf', hdata⟩ := Smooth.leastSquares_rowOf hrow hwithin hmade
  obtain rfl : distanceTo (stackedData.row 1) = f' :=
    Except.ok.inj ((distanceTo_made rfl).symm.trans hf')
  have hrows := @rows_run_apart Exact _ [2] 3 1 stackedPoints (some (distanceTo stackedData))
    (some (distanceTo (stackedData.row 1))) (some stackedTerms) unitSteps rfl (by decide) hdata
    stackedTerms_local (Value.shared_number _) (Value.shared_number _)
  obtain ⟨s, hs⟩ := stackedPoints_start
  obtain ⟨s', hs', hrun⟩ := hrows.2 s hs
  exact ⟨s, s', hs, hs', fun k => ⟨(hrun k).1, (hrun k).2.1⟩⟩

end IterationState

end PrimalDual
