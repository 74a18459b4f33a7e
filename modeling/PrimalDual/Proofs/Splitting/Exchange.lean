import PrimalDual.Proofs.Splitting.Rows

/-!
# The order in which the terms are given

The caller gives two terms, and at most one of them carries an operator.  The setup sends that one
to the dual side, wherever it stands, and from then on every place that needs a term has to look it
up by its side: the primal proximity operator, the conjugate one, and both values in the objective.
Looking one of them up by its place would go unnoticed, since the iteration would still run.

Giving the same terms the other way round therefore leaves the same state behind with the two terms
exchanged, and everything that an iteration does commutes with this exchange, whether it succeeds or
not.

* `IterationState.exchange` — the same state with its terms given the other way round.
* `exchange_iterate`, `exchange_after` — one iteration and any number of them.
* `iterate_moves`, `after_moves` — what iterations leave alone.
* `start_exchange` — the setup.
* `objectiveAt` — the objective in terms of what the caller gave.
* **`term_order_irrelevant`** — both orders run alike, for good.
-/

namespace PrimalDual

variable {α : Type}

/-- The other assignment of the terms to the sides. -/
def Order.flip : Order → Order
  | .direct => .swapped
  | .swapped => .direct

namespace IterationState

/-- The same state with its terms given the other way round. -/
def exchange (s : IterationState α) : IterationState α :=
  { s with first := s.second, second := s.first, order := s.order.flip }

variable {s : IterationState α}

/-! ## An iteration looks its terms up by their side -/

@[simp] lemma exchange_primalTerm : s.exchange.primalTerm = s.primalTerm := by
  cases horder : s.order <;> simp only [primalTerm, exchange, horder, Order.flip]

@[simp] lemma exchange_dualTerm : s.exchange.dualTerm = s.dualTerm := by
  cases horder : s.order <;> simp only [dualTerm, exchange, horder, Order.flip]

/-- What a failure leaves behind depends on where the point lives, not on the terms. -/
lemma exchange_leaveBehind (x : NdArray α) :
    s.exchange.leaveBehind x = (s.leaveBehind x).exchange := by
  cases hbackend : s.x.backend <;> simp only [leaveBehind, exchange, hbackend]

variable [Scalar α]

lemma exchange_proximalPoints : s.exchange.proximalPoints = s.proximalPoints := by
  rw [proximalPoints, exchange_primalTerm, exchange_dualTerm]
  rfl

lemma exchange_objective : s.exchange.objective = s.objective := by
  rw [objective, exchange_primalTerm, exchange_dualTerm]
  rfl

/-- **One iteration** commutes with the exchange, also where it fails. -/
lemma exchange_iterate : s.exchange.iterate = (s.iterate.1.exchange, s.iterate.2) := by
  have hmomentum : s.exchange.momentum = s.momentum := rfl
  have hprimal : s.exchange.x = s.x := rfl
  have hdual : s.exchange.z = s.z := rfl
  rcases hpoints : s.proximalPoints with e | ⟨p, q⟩
  · simp only [iterate, exchange_proximalPoints, hpoints]
  rcases hweight : s.momentum.weight with e | w
  · simp only [iterate, exchange_proximalPoints, hpoints, hmomentum, hweight]
  rcases hx : relax w s.x p with e | x
  · simp only [iterate, exchange_proximalPoints, hpoints, hmomentum, hweight, hprimal, hx]
    rfl
  rcases hz : relax w s.z q with e | z
  · simp only [iterate, exchange_proximalPoints, hpoints, hmomentum, hweight, hprimal, hx, hdual,
      hz]
    exact congrArg (·, _) (exchange_leaveBehind (s := { s with momentum := s.momentum.advance }) x)
  · simp only [iterate, exchange_proximalPoints, hpoints, hmomentum, hweight, hprimal, hx, hdual,
      hz]
    rfl

/-- The state after any number of iterations, whether they succeed or not. -/
def after (k : ℕ) (s : IterationState α) : IterationState α := (fun t => t.iterate.1)^[k] s

lemma after_succ (k : ℕ) : s.after (k + 1) = (s.after k).iterate.1 :=
  Function.iterate_succ_apply' _ _ _

/-- **Any number of iterations** commute with the exchange. -/
lemma exchange_after (k : ℕ) : s.exchange.after k = (s.after k).exchange := by
  induction k with
  | zero => rfl
  | succ k ih => rw [after_succ, after_succ, ih, exchange_iterate]

/-! ## What iterations leave alone -/

/-- An iteration changes the iterates and the state of the schedule, and nothing else. -/
lemma iterate_moves (s : IterationState α) : ∃ M x z p q d w, s.iterate.1
    = { s with momentum := M, x := x, z := z, p := p, q := q, dual := d, weight := w } := by
  rcases hpoints : s.proximalPoints with e | ⟨p, q⟩
  · exact ⟨_, _, _, _, _, _, _, by simp only [iterate, hpoints]; rfl⟩
  rcases hweight : s.momentum.weight with e | w
  · exact ⟨_, _, _, _, _, _, _, by simp only [iterate, hpoints, hweight]; rfl⟩
  rcases hx : relax w s.x p with e | x
  · exact ⟨_, _, _, _, _, _, _, by simp only [iterate, hpoints, hweight, hx]; rfl⟩
  rcases hz : relax w s.z q with e | z
  · have hleft : s.iterate.1 = leaveBehind { s with momentum := s.momentum.advance } x := by
      simp only [iterate, hpoints, hweight, hx, hz]
    rw [hleft, leaveBehind]
    split <;> exact ⟨_, _, _, _, _, _, _, rfl⟩
  · exact ⟨_, _, _, _, _, _, _, by simp only [iterate, hpoints, hweight, hx, hz]; rfl⟩

lemma after_moves (k : ℕ) (s : IterationState α) : ∃ M x z p q d w, s.after k
    = { s with momentum := M, x := x, z := z, p := p, q := q, dual := d, weight := w } := by
  induction k with
  | zero => exact ⟨_, _, _, _, _, _, _, rfl⟩
  | succ k ih =>
    obtain ⟨M, x, z, p, q, d, w, hafter⟩ := ih
    obtain ⟨M', x', z', p', q', d', w', hiterate⟩ := iterate_moves (s.after k)
    refine ⟨M', x', z', p', q', d', w', ?_⟩
    rw [after_succ, hiterate, hafter]

/-! ## The setup -/

/-- The objective `f(x) + g(x) + h(K x)` in terms of what the caller gave. -/
def objectiveAt (f : Smooth α) (g h : Proximable α) (K : LinearOperator α) (x : NdArray α) :
    Except Fault (NdArray α) := do
  let a ← f.value x
  let b ← g.value x
  let ab ← arith .add (.array a) (.array b)
  let image ← K.map x
  let c ← h.value image
  arith .add (.array ab) (.array c)

variable {x₀ : Value α} {f : Option (Smooth α)} {given : Parameters α} {g : TermArgument α}
  {G h : Proximable α} {K : LinearOperator α}

variable (x₀ f given) in
/-- **The setup** sends the term with the operator to the dual side, from either place. -/
lemma start_exchange (hg : g.fill = .term G) (hG : G.operator = none) (hh : h.operator = some K) :
    Parallel (fun s t => t = s.exchange ∧ s.smooth = f.getD .anyZero ∧ s.first = h ∧ s.second = G ∧
        s.order = .swapped ∧ s.operator = K)
      (start x₀ f (some [.term h, g]) given) (start x₀ f (some [g, .term h]) given) := by
  have hfill : (TermArgument.term h).fill = .term h := rfl
  unfold start
  dsimp only
  rw [hg, hfill]
  split
  · exact .refused _
  have hsides : Parallel (fun a b => a = (.swapped, K) ∧ b = (.direct, K)) (chooseSides h G)
      (chooseSides G h) := by
    rw [chooseSides, chooseSides, hh, hG]
    exact .ok ⟨rfl, rfl⟩
  refine hsides.bind ?_
  rintro _ _ ⟨rfl, rfl⟩
  refine .bind_self _ fun steps _ => ?_
  refine .bind_self _ fun method _ => ?_
  refine .bind_self _ fun momentum _ => ?_
  refine .bind_self _ fun x _ => ?_
  refine .bind_self _ fun z _ => ?_
  exact .pure ⟨rfl, rfl, rfl, rfl, rfl, rfl⟩

/--
**The order of the terms does not matter when one of them carries the operator.**  Let `g` carry
none, which a missing term does not either, and let `h` carry `K`.  The setup refuses `(h, g)`
exactly when it refuses `(g, h)`, and for the same reason.  Otherwise the two runs have the same
steps, operator, iterates and weights after every number of iterations, each iteration ends alike in
both, and both report the objective `f(x) + g(x) + h(K x)`.
-/
theorem term_order_irrelevant (hg : g.fill = .term G) (hG : G.operator = none)
    (hh : h.operator = some K) :
    (∀ e, start x₀ f (some [.term h, g]) given = .error e ↔
      start x₀ f (some [g, .term h]) given = .error e) ∧
    ∀ s, start x₀ f (some [.term h, g]) given = .ok s →
      ∃ t, start x₀ f (some [g, .term h]) given = .ok t ∧
        ∀ k, (s.after k).order = .swapped ∧ (t.after k).order = .direct ∧
          (s.after k).operator = K ∧ (t.after k).operator = K ∧
          (t.after k).tau = (s.after k).tau ∧ (t.after k).sigma = (s.after k).sigma ∧
          (t.after k).method = (s.after k).method ∧
          (t.after k).momentum = (s.after k).momentum ∧
          (t.after k).x = (s.after k).x ∧ (t.after k).z = (s.after k).z ∧
          (t.after k).p = (s.after k).p ∧ (t.after k).q = (s.after k).q ∧
          (t.after k).weight = (s.after k).weight ∧ (t.after k).dual = (s.after k).dual ∧
          (t.after k).iterate.2 = (s.after k).iterate.2 ∧
          (t.after k).objective = (s.after k).objective ∧
          (s.after k).objective = objectiveAt (f.getD .anyZero) G h K (s.after k).x := by
  have hstart := start_exchange x₀ f given hg hG hh
  refine ⟨hstart.error_iff, fun s hs => ?_⟩
  obtain ⟨t, ht, rfl, hsmooth, hfirst, hsecond, horder, hoperator⟩ := hstart.exists_ok hs
  refine ⟨_, ht, fun k => ?_⟩
  have hiterate : (s.exchange.after k).iterate.2 = (s.after k).iterate.2 := by
    rw [exchange_after, exchange_iterate]
  have hobjective : (s.exchange.after k).objective = (s.after k).objective := by
    rw [exchange_after, exchange_objective]
  rw [exchange_after] at hiterate hobjective ⊢
  obtain ⟨M, x, z, p, q, d, w, hafter⟩ := after_moves k s
  have hswapped : (s.after k).order = .swapped := by rw [hafter, horder]
  have hdirect : (s.after k).exchange.order = .direct := by
    show (s.after k).order.flip = .direct
    rw [hswapped]
    rfl
  have hcarried : (s.after k).operator = K := by rw [hafter, hoperator]
  have hvalue : (s.after k).objective = objectiveAt (f.getD .anyZero) G h K (s.after k).x := by
    rw [objective, primalTerm, dualTerm, hswapped, hcarried, hafter, hsmooth, hfirst, hsecond]
    rfl
  exact ⟨hswapped, hdirect, hcarried, hcarried, rfl, rfl, rfl, rfl, rfl, rfl, rfl, rfl, rfl, rfl,
    hiterate, hobjective, hvalue⟩

/-! Two stacked points with data of their own, and a box on the differences. -/

lemma boxedDifferences_start : ∃ s,
    start (.array stackedPoints) (some (distanceTo stackedData))
      (some [.term boxedDifferences, .absent]) unitSteps = .ok s := by
  have hmethod : unitSteps.getD "method" (.text Method.plain.tag) = .text Method.plain.tag := rfl
  unfold start
  dsimp only
  rw [Parameters.withDefaults_method, hmethod, Method.ofTag_tag]
  exact ⟨_, rfl⟩

/-- It does not matter whether the missing term is the first one or the second. -/
theorem missing_term_either_place : ∃ s t,
    start (.array stackedPoints) (some (distanceTo stackedData))
      (some [.term boxedDifferences, .absent]) unitSteps = .ok s ∧
    start (.array stackedPoints) (some (distanceTo stackedData))
      (some [.absent, .term boxedDifferences]) unitSteps = .ok t ∧
    ∀ k, (t.after k).x = (s.after k).x ∧ (t.after k).objective = (s.after k).objective := by
  obtain ⟨s, hs⟩ := boxedDifferences_start
  have hmissing : (TermArgument.absent : TermArgument Exact).fill = .term .anyZero := rfl
  obtain ⟨t, ht, hrun⟩ :=
    (term_order_irrelevant hmissing rfl (h := boxedDifferences) rfl).2 s hs
  refine ⟨s, t, hs, ht, fun k => ?_⟩
  obtain ⟨-, -, -, -, -, -, -, -, hx, -, -, -, -, -, -, hobjective, -⟩ := hrun k
  exact ⟨hx, hobjective⟩

end IterationState

end PrimalDual
