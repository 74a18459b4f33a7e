import PrimalDual.Proofs.Criterion.Change
import PrimalDual.Proofs.Splitting.Driver

/-!
# The default stopping rule

A run that brings no rule of its own is stopped by the one of the algorithm: after a grace period,
once the primal iterate has come to rest, and the dual one, too, unless a hint says that it does not
count.  Another hint says whether the changes are measured by themselves or beside the iterates.

The rule is a conjunction, and both of its sides are asked in every evaluation.  So the grace period
does not keep the criteria on changes from seeing the first iterates, and the change that ends a run
is always that since the evaluation before.

* `Parameters.hints`, `SplittingState.start_ok` — the hints.
* `Observation.get_ofVariables`, `observe_iterates` — what the rule is shown of the iterates.
* `Close`, `Settled` — stacks of points that have come to rest.
* `Shows`, `changeRule_decides` — one iterate.
* **`defaultRule_decides`** — what the default rule decides.
* `defaultRule_waits`, `defaultRule_reports` — the grace period, and what is reported.
-/

namespace PrimalDual

open Exact NdArray

/-! ## The hints -/

namespace Parameters

variable {α : Type} {ps : Parameters α} {name : String}

/-- A parameter that is not absent does not take its default. -/
lemma getD_of_present (h : (ps.get name).isNull = false) (v : Value α) :
    ps.getD name v = ps.get name := by
  rw [get, getD] at h
  rw [get, getD, getD]
  split at h
  · rfl
  · cases h

lemma withHints_get (hname : name = "abs_tol" ∨ name = "use_dual") :
    ps.withHints.get name = ps.getD name (.number (.bool true)) := by
  rcases hname with rfl | rfl
  · rw [withHints, get, getD_setDefault_of_ne (by decide), getD_setDefault_self]
  · rw [withHints, get, getD_setDefault_self, getD_setDefault_of_ne (by decide)]

variable [Scalar α]

/-- What a hint says; one that is left out, or given as absent, says yes. -/
def hints (given : Parameters α) (name : String) : Bool :=
  (given.get name).isNull || (given.get name).truthy

/-- The parameters that a run hands on say what its own hints say. -/
lemma truthy_withHints (given : Parameters α) (hname : name = "abs_tol" ∨ name = "use_dual") :
    ((splittingParameters given).withHints.get name).truthy = given.hints name := by
  rw [withHints_get hname, hints]
  cases hnull : (given.get name).isNull with
  | false =>
    have hget : (splittingParameters given).get name = given.get name := by
      rcases hname with rfl | rfl
      · exact splittingParameters_get given (by decide) (by decide) (by decide)
      · exact splittingParameters_get given (by decide) (by decide) (by decide)
    rw [getD_of_present (by rw [hget, hnull]), hget, Bool.false_or]
  | true =>
    have habsent : name ∉ (splittingParameters given).map (·.1) := by
      rcases hname with rfl | rfl
      · simp [splittingParameters, hnull]
      · simp [splittingParameters, hnull]
    rw [getD_of_not_mem habsent, Bool.true_or]
    rfl

end Parameters

/-- A state is set up with the iteration and with what the hints say. -/
lemma SplittingState.start_ok {α : Type} [Scalar α] {f : Option (Smooth α)}
    {terms : List (TermArgument α)} {given : Parameters α} {u : SplittingState α}
    (h : start f terms given = .ok u) :
    IterationState.start (given.get "x0") f (some terms) (splittingParameters given)
        = .ok u.iteration ∧
      u.absolute = given.hints "abs_tol" ∧ u.useDual = given.hints "use_dual" := by
  rw [start] at h
  split at h
  · cases h
  · obtain ⟨s, hs, h⟩ := ok_of_bind h
    cases h
    exact ⟨hs, given.truthy_withHints (Or.inl rfl), given.truthy_withHints (Or.inr rfl)⟩

/-! ## What the rule is shown -/

section

variable {α : Type}

/-- A rule that asks for a variable gets its value, wherever this is kept. -/
lemma Observation.get_ofVariables (pre post : List (Variable α)) (v : Variable α) (now : Int)
    (hpre : v.name ∉ pre.map (·.name)) :
    (ofVariables (pre ++ v :: post) now).get v.name = .ok v.value := by
  have hfind : (ofVariables (pre ++ v :: post) now).bindings.find? (fun entry => entry.1 == v.name)
      = some (v.name, slotOf v pre.length) := by
    have hnone (g : Variable α × ℕ → String × Slot α) (hg : ∀ p, (g p).1 = p.1.name) :
        (pre.zipIdx.map g).find? (fun entry => entry.1 == v.name) = none := by
      rw [List.find?_eq_none]
      intro entry hentry hname
      obtain ⟨⟨u, i⟩, hmem, rfl⟩ := List.mem_map.mp hentry
      rw [hg] at hname
      exact hpre (List.mem_map.mpr ⟨u, List.fst_mem_of_mem_zipIdx hmem, eq_of_beq hname⟩)
    rw [ofVariables, List.zipIdx_append, List.map_append, List.find?_append, hnone _ fun _ => rfl,
      Nat.zero_add, Option.none_or, List.zipIdx_cons, List.map_cons]
    exact List.find?_cons_of_pos (beq_self_eq_true v.name)
  have hread : (memoryOf (pre ++ v :: post)).read pre.length
      = v.value.array?.getD Memory.nothing := by
    simp [memoryOf, Memory.read]
  rw [get, slot, hfind]
  show Except.ok (resolve _ (slotOf v pre.length)) = _
  rw [slotOf]
  -- what is changed in place is read from its cell, everything else is at hand
  split
  · rename_i hcell
    cases hv : v.value with
    | array a =>
      rw [hv] at hread
      exact congrArg (fun b => Except.ok (Value.array b)) hread
    | _ =>
      rw [hv] at hcell
      simp [Value.array?] at hcell
  · rfl

variable [Scalar α]

/-- The iterates are among the variables, also when the objective is tracked. -/
lemma Course.observe_iterates (f : Option (Smooth α)) (terms : List (TermArgument α))
    (c : Course α (SplittingState α) (Criterion α)) (now : Int) :
    (c.observe (splittingAlgorithm f terms) now).get "x" = .ok (.array c.state.iteration.x) ∧
      (c.observe (splittingAlgorithm f terms) now).get "z"
        = .ok (.array c.state.iteration.z) := by
  have hbindings : ∃ rest, c.bindings (splittingAlgorithm f terms) = c.state.bindings ++ rest := by
    rw [bindings]
    cases c.objective with
    | none => exact ⟨[], (List.append_nil _).symm⟩
    | some a => exact ⟨_, rfl⟩
  obtain ⟨rest, hrest⟩ := hbindings
  rw [observe, hrest]
  constructor
  · exact Observation.get_ofVariables [] _ _ now List.not_mem_nil
  · refine Observation.get_ofVariables (c.state.bindings.take 7) _ _ now ?_
    show "z" ∉ ["x", "f", "terms", "tau", "sigma", "method", "momentum"]
    decide

end

/-! ## Coming to rest -/

/-- Every point of the stack `V` is close to that of `U`: it has moved by no more than `10⁻⁴`, or by
no more than that part of its length. -/
def Close (absolute : Bool) (lead : Shape) (n : ℕ) (U V : ℕ → ℕ → ℝ) : Prop :=
  ∀ r < lead.size, lpNorm 2 (fun j : Fin n => V r j - U r j)
    ≤ if absolute then 1 / 10000 else 1 / 10000 * lpNorm 2 fun j : Fin n => U r j

/-- The points at `k` are close to those at `i`, and so are the dual points if they count. -/
def Settled (absolute dual : Bool) (lead : Shape) (n m : ℕ) (X Z : ℕ → ℕ → ℕ → ℝ) (i k : ℕ) :
    Prop :=
  Close absolute lead n (X i) (X k) ∧ (dual = true → Close absolute lead m (Z i) (Z k))

/-- What does not move is close, and has settled. -/
lemma close_self (absolute : Bool) (lead : Shape) (n : ℕ) (U : ℕ → ℕ → ℝ) :
    Close absolute lead n U U := by
  intro r _
  have hzero : lpNorm 2 (fun j : Fin n => U r j - U r j) = 0 := by
    simp only [sub_self]
    exact norm_zero
  rw [hzero]
  split
  · norm_num
  · exact mul_nonneg (by norm_num) (lpNorm_nonneg _)

lemma settled_self (absolute dual : Bool) (lead : Shape) (n m i k : ℕ) (x z : ℝ) :
    Settled absolute dual lead n m (fun _ _ _ => x) (fun _ _ _ => z) i k :=
  ⟨close_self _ _ _ _, fun _ => close_self _ _ _ _⟩

/-- What the default rule measures of a variable. -/
noncomputable def defaultNorm (var : String) : NormRule Exact :=
  ⟨.real (Scalar.ratio 1 10000), var, 1, .ok, .int 2, true⟩

section

variable {lead : Shape} {n m k : ℕ} {var : String} {U V : ℕ → ℕ → ℝ}

lemma defaultNorm_sound (var : String) (kind : ChangeKind) (lead : Shape) (n : ℕ) :
    (defaultNorm var).Sound kind (1 / 10000) (lead ++ [n]) where
  threshold := by
    show Scalar.ratio 1 10000 = finite (1 / 10000)
    rw [ratio_eq, Int.cast_one, Int.cast_ofNat]
  positive := by norm_num
  order := (Number.atMost_iff (Number.is_int 0) Number.is_two).mpr (by norm_num)
  measures := by
    refine ⟨?_, fun h => ?_, fun h => ?_⟩
    · show 1 ≤ (lead ++ [n]).length
      rw [List.length_append]
      exact Nat.le_add_left 1 _
    · exact absurd (Number.is_two.unique h) two_ne_zero
    · cases Number.is_two.symm.trans h
  room _ _ i hi := by cases hi

lemma defaultNorm_sees {x : NdArray Exact} {b : Backend}
    (hx : x.Stack b lead n fun r j => finite (U r j)) :
    (defaultNorm var).Sees (lead ++ [n]) (fun i => U (i / n) (i % n)) (.array x) := by
  refine ⟨x, x, rfl, rfl, hx.real, hx.shape_eq, fun k hk => ?_⟩
  rw [Shape.size_stack] at hk
  have hn : 0 < n := Nat.pos_of_mul_pos_left (Nat.zero_lt_of_lt hk)
  have hentry := hx.entry (k / n) (Nat.div_lt_of_lt_mul (by rwa [Nat.mul_comm])) (k % n)
    (Nat.mod_lt k hn)
  rwa [Nat.div_add_mod'] at hentry

/-- It measures the length of every point. -/
lemma defaultNorm_norm (var : String) (lead : Shape) (n : ℕ) (U : ℕ → ℕ → ℝ) (r : ℕ) :
    (defaultNorm var).norm (lead ++ [n]) (fun i => U (i / n) (i % n)) r
      = lpNorm 2 fun j : Fin n => U r j := by
  have horder : (defaultNorm var).order.order = 2 := by
    rw [← ENNReal.ofReal_ofNat]
    exact Number.order_of_is Number.is_two
  have htail : (Shape.tail (lead ++ [n]) (defaultNorm var).rank.toNat).size = n := by
    show (Shape.tail (lead ++ [n]) 1).size = n
    rw [Shape.tail_stack, Shape.size_singleton]
  rw [NormRule.norm, horder, htail]
  congr 1
  funext j
  rw [blockOf, Shape.place_div j.isLt, Shape.place_mod j.isLt]

/-- It accepts what is close. -/
lemma defaultNorm_accepts (absolute : Bool) : (defaultNorm var).Accepts (lead ++ [n])
      ((defaultNorm var).Passes (if absolute then .absolute else .relative) (1 / 10000)
        (lead ++ [n]) (fun i => U (i / n) (i % n)) fun i => V (i / n) (i % n))
    ↔ Close absolute lead n U V := by
  have hlead : Shape.lead (lead ++ [n]) (defaultNorm var).rank.toNat = lead :=
    Shape.lead_stack lead n
  have hall : (defaultNorm var).satisfyAll = true := rfl
  rw [NormRule.Accepts, hlead, if_pos hall]
  refine forall₂_congr fun r _ => ?_
  have hmoved := defaultNorm_norm var lead n (fun r j => V r j - U r j) r
  have hnorm := defaultNorm_norm var lead n U r
  cases absolute with
  | true =>
    show (defaultNorm var).norm _ _ r ≤ _ ↔ _
    rw [hmoved]
    rfl
  | false =>
    show (defaultNorm var).norm _ _ r ≤ _ * (defaultNorm var).norm _ _ r ↔ _
    rw [hmoved, hnorm]
    rfl

/-! ## One iterate -/

variable {o : ℕ → Observation Exact} {X Z : ℕ → ℕ → ℕ → ℝ}

/-- In each evaluation up to number `k`, a variable is a stack of the real points `X`. -/
def Shows (o : ℕ → Observation Exact) (var : String) (lead : Shape) (n : ℕ) (X : ℕ → ℕ → ℕ → ℝ)
    (k : ℕ) : Prop :=
  ∀ i ≤ k, ∃ x b, (o i).get var = .ok (.array x) ∧ x.Stack b lead n fun r j => finite (X i r j)

lemma Shows.mono (h : Shows o var lead n X k) {i : ℕ} (hi : i ≤ k) : Shows o var lead n X i :=
  fun j hj => h j (hj.trans hi)

lemma Shows.sees (h : Shows o var lead n X k) : ∃ v : ℕ → Value Exact,
    (∀ i ≤ k, (o i).get (defaultNorm var).var = .ok (v i)) ∧
      ∀ i ≤ k, (defaultNorm var).Sees (lead ++ [n]) (fun e => X i (e / n) (e % n)) (v i) := by
  choose! x b hget hx using h
  exact ⟨fun i => .array (x i), hget, fun i hi => defaultNorm_sees (hx i hi)⟩

namespace SplittingState

variable {u : SplittingState Exact}

lemma changeRule_eq (u : SplittingState Exact) (var : String) : u.changeRule var
    = .ofChange (if u.absolute then .absolute else .relative) (defaultNorm var) := rfl

/-- The rule on the change of one iterate compares it with what it was an evaluation before. -/
lemma changeRule_decides (h : Shows o var lead n X k) :
    ∃ d, (u.changeRule var).decides o k = .ok d ∧
      (k ≠ 0 → (d = true ↔ Close u.absolute lead n (X (k - 1)) (X k))) := by
  obtain ⟨v, hget, hsees⟩ := h.sees
  rw [changeRule_eq]
  cases k with
  | zero =>
    exact ⟨false, Criterion.decides_first (hget 0 le_rfl) (hsees 0 le_rfl), fun h => absurd rfl h⟩
  | succ k =>
    obtain ⟨V, d, -, hd, -, hdecision⟩ :=
      Criterion.decides_later (defaultNorm_sound var _ lead n) hget hsees
    exact ⟨d, hd, fun _ => hdecision.trans (defaultNorm_accepts u.absolute)⟩

/-- It keeps one number for each point. -/
lemma changeRule_after (h : Shows o var lead n X k) :
    ∃ kind V previous, (u.changeRule var).after o (k + 1)
      = .change kind (defaultNorm var) V previous ∧ V.size = lead.size := by
  obtain ⟨v, hget, hsees⟩ := h.sees
  rw [changeRule_eq]
  cases k with
  | zero =>
    obtain ⟨V, hshape, hstop⟩ := Criterion.stop_first (if u.absolute then .absolute else .relative)
      (hget 0 le_rfl) (hsees 0 le_rfl)
    have hlead : NormRule.leadingAxes (defaultNorm var).rank (lead ++ [n]) = lead := by
      show (lead ++ [n]).take ((lead ++ [n]).length - 1) = lead
      simp
    refine ⟨_, V, _, congrArg Prod.fst hstop, ?_⟩
    -- before there is a change, zeros stand for the statistics
    rw [NdArray.size, hshape, hlead, Shape.size_stack, Nat.mul_one]
  | succ k =>
    obtain ⟨V, d, hafter, -, hV, -⟩ :=
      Criterion.decides_later (defaultNorm_sound var _ lead n) hget hsees
    have hlead : Shape.lead (lead ++ [n]) (defaultNorm var).rank.toNat = lead :=
      Shape.lead_stack lead n
    refine ⟨_, V, _, hafter, ?_⟩
    rw [NdArray.size, hV.shape_eq, Shape.size_collapsed, hlead]

/-- If there are points at all, there is something to report of them. -/
lemma changeRule_reports (hlead : 0 < lead.size) (h : Shows o var lead n X k) (M : Memory Exact) :
    Yields (((u.changeRule var).after o (k + 1)).info M) fun _ => True := by
  obtain ⟨kind, V, previous, hafter, hsize⟩ := changeRule_after (u := u) h
  have hnonempty : V.size ≠ 0 := hsize.trans_ne hlead.ne'
  rw [hafter, Criterion.info, summary, NdArray.greatest, NdArray.least, if_neg hnonempty,
    if_neg hnonempty]
  split
  · exact Yields.ok trivial
  · exact Yields.ok trivial

/-! ## Both iterates -/

/-- The part of the default rule that is about the changes of the iterates. -/
noncomputable def restRule (u : SplittingState Exact) : Criterion Exact :=
  if u.useDual then .both (u.changeRule "x") (u.changeRule "z") else u.changeRule "x"

lemma defaultRule_eq (u : SplittingState Exact) :
    u.defaultRule = .both (.maxIter 2 0) u.restRule := rfl

/-- Started afresh, the default rule is as new. -/
lemma clear_defaultRule (u : SplittingState Exact) (now : Int) :
    u.defaultRule.clear now = u.defaultRule := by
  rw [defaultRule]
  cases u.useDual <;> rfl

lemma restRule_decides (hx : Shows o "x" lead n X k) (hz : Shows o "z" lead m Z k) :
    ∃ d, u.restRule.decides o k = .ok d ∧
      (k ≠ 0 → (d = true ↔ Settled u.absolute u.useDual lead n m X Z (k - 1) k)) := by
  obtain ⟨a, ha, ha'⟩ := changeRule_decides (u := u) hx
  rw [restRule]
  cases u.useDual with
  | false => exact ⟨a, ha, fun hk => (ha' hk).trans (by simp [Settled])⟩
  | true =>
    obtain ⟨b, hb, hb'⟩ := changeRule_decides (u := u) hz
    refine ⟨a && b, Criterion.both_combines.decides (fun i hi => ?_) ha hb, fun hk => ?_⟩
    · exact (changeRule_decides (hx.mono hi.le)).imp fun _ h => h.1
    · rw [Bool.and_eq_true, ha' hk, hb' hk]
      simp [Settled]

/-- **The default rule** waits for the third evaluation, and for the iterates to settle. -/
theorem defaultRule_decides (hx : Shows o "x" lead n X k) (hz : Shows o "z" lead m Z k) :
    ∃ d, u.defaultRule.decides o k = .ok d ∧
      (d = true ↔ 2 ≤ k ∧ Settled u.absolute u.useDual lead n m X Z (k - 1) k) := by
  obtain ⟨d, hd, hsettled⟩ := restRule_decides (u := u) hx hz
  refine ⟨decide ((2 : ℤ) ≤ k) && d, ?_, ?_⟩
  · rw [defaultRule_eq]
    exact Criterion.both_combines.decides (fun i _ => ⟨_, Criterion.decides_maxIter 2⟩)
      (Criterion.decides_maxIter 2) hd
  · have hcast : (2 : ℤ) ≤ k ↔ 2 ≤ k := by omega
    rw [Bool.and_eq_true, decide_eq_true_eq, hcast]
    exact and_congr_right fun h => hsettled (by omega)

/-- Whatever becomes of the iterates, the default rule lets the first two evaluations pass. -/
lemma defaultRule_waits (h : u.defaultRule.decides o k = .ok true) : 2 ≤ k := by
  rw [defaultRule_eq, Criterion.decides,
    Criterion.both_combines.after fun i _ => ⟨_, Criterion.decides_maxIter 2⟩,
    Criterion.both_combines _ _ _ _ (Criterion.decides_maxIter 2)] at h
  cases hrest : ((u.restRule.after o k).stop (o k)).2 with
  | error e =>
    rw [hrest] at h
    cases h
  | ok d =>
    rw [hrest] at h
    have hboth : (decide ((2 : ℤ) ≤ k) && d) = true := Except.ok.inj h
    rw [Bool.and_eq_true, decide_eq_true_eq] at hboth
    omega

lemma restRule_reports (hlead : 0 < lead.size) (hx : Shows o "x" lead n X k)
    (hz : Shows o "z" lead m Z k) (M : Memory Exact) :
    Yields ((u.restRule.after o (k + 1)).info M) fun _ => True := by
  have hprimal := changeRule_reports (u := u) hlead hx M
  rw [restRule]
  cases u.useDual with
  | false => exact hprimal
  | true =>
    rw [if_pos rfl, Criterion.both_combines.after fun i hi =>
      (changeRule_decides (hx.mono (Nat.le_of_lt_succ hi))).imp fun _ h => h.1]
    have hdual := changeRule_reports (u := u) hlead hz M
    exact hprimal.bind fun a _ => hdual.bind fun b _ => Yields.pure trivial

/-- After any number of evaluations the default rule has something to report. -/
lemma defaultRule_reports (hlead : 0 < lead.size) (hx : Shows o "x" lead n X k)
    (hz : Shows o "z" lead m Z k) (M : Memory Exact) :
    Yields ((u.defaultRule.after o (k + 1)).info M) fun _ => True := by
  have hcount : Yields ((Criterion.maxIter 2 (k + 1)).info M) fun _ => True := Yields.ok trivial
  rw [defaultRule_eq, Criterion.both_combines.after fun i _ => ⟨_, Criterion.decides_maxIter 2⟩,
    Criterion.after_maxIter]
  exact hcount.bind fun a _ => (restRule_reports hlead hx hz M).bind fun b _ => Yields.pure trivial

end SplittingState

end

end PrimalDual
