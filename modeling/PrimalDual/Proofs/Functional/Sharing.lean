import PrimalDual.Proofs.Functional.Wrapping

/-!
# Wrapped terms share their parts

A scaled term does not contain the term below it but refers to it, and an attachment copies one
object, which goes on referring to what is below.  So after some wraps several terms have parts in
common, and what is changed in place in one of them shows in the others.  Only one thing is ever
changed: the operator of a fresh copy, before anything refers to it.

Here terms are objects in a heap, and the wraps are what they do to the heap.  They make the same
terms as the wraps on terms as values, are refused for the same reasons, and leave alone what every
object stood for.

* `TermObject`, `TermHeap` — a term that refers to another one.
* `TermHeap.Shows` — the term that an object stands for; there is only one (`Shows.unique`).
* `TermHeap.scale`, `compose`, `wrapAll` — the wraps.
* `Shows.grow` — new objects do not change old ones.
* `wrapAll_agrees`, `wrapAll_append` — a sequence of wraps, and one after another.
* **`wraps_commute`** — what a sequence of scalings and attachments makes, and that it changes
  nothing.
-/

namespace PrimalDual

open Exact NdArray

variable {α : Type}

/-- A term as an object: a scaled one refers to the term below by its place. -/
inductive TermObject (α : Type) where
  | plain (penalty : Penalty α) (dim : Option Int) (operator : Option (LinearOperator α))
  | scaled (factor : α) (inner : ℕ) (dim : Option Int) (operator : Option (LinearOperator α))

namespace TermObject

/-- The size of a point, which a scaled term copies from the one below. -/
def dim : TermObject α → Option Int
  | plain _ n _ | scaled _ _ n _ => n

/-- The operator, which it copies, too. -/
def operator : TermObject α → Option (LinearOperator α)
  | plain _ _ K | scaled _ _ _ K => K

/-- The object with its operator replaced. -/
def carrying (K : LinearOperator α) : TermObject α → TermObject α
  | plain h n _ => plain h n (some K)
  | scaled c i n _ => scaled c i n (some K)

end TermObject

/-- Terms by their places; new ones come last. -/
abbrev TermHeap (α : Type) := List (TermObject α)

namespace TermHeap

/-- The object at a place stands for a term. -/
inductive Shows (H : TermHeap α) : ℕ → Proximable α → Prop
  | plain {a : ℕ} {h : Penalty α} {n : Option Int} {K : Option (LinearOperator α)}
      (read : H[a]? = some (.plain h n K)) : Shows H a (.plain h n K)
  | scaled {a i : ℕ} {c : α} {t : Proximable α} {K : Option (LinearOperator α)}
      (read : H[a]? = some (.scaled c i t.dim K)) (inner : Shows H i t) : Shows H a (.scaled c t K)

variable {H H' : TermHeap α} {a a' : ℕ} {t u : Proximable α}

lemma Shows.object (h : H.Shows a t) :
    ∃ o, H[a]? = some o ∧ o.dim = t.dim ∧ o.operator = t.operator := by
  cases h with
  | plain read => exact ⟨_, read, rfl, rfl⟩
  | scaled read inner => exact ⟨_, read, rfl, rfl⟩

/-- An object stands for one term only. -/
lemma Shows.unique (ht : H.Shows a t) (hu : H.Shows a u) : t = u := by
  induction ht generalizing u with
  | plain read =>
    cases hu with
    | plain read' =>
      obtain ⟨rfl, rfl, rfl⟩ := TermObject.plain.inj (Option.some.inj (read.symm.trans read'))
      rfl
    | scaled read' inner' => cases Option.some.inj (read.symm.trans read')
  | scaled read inner ih =>
    cases hu with
    | plain read' => cases Option.some.inj (read.symm.trans read')
    | scaled read' inner' =>
      obtain ⟨rfl, rfl, -, rfl⟩ := TermObject.scaled.inj (Option.some.inj (read.symm.trans read'))
      rw [ih inner']

/-- **New objects** do not change what the old ones stand for: they refer to older ones only. -/
lemma Shows.grow (h : H.Shows a t) (added : TermHeap α) : (H ++ added).Shows a t := by
  have hold {i : ℕ} {o : TermObject α} (read : H[i]? = some o) : (H ++ added)[i]? = some o := by
    rw [List.getElem?_append_left (List.getElem?_eq_some_iff.mp read).1, read]
  induction h with
  | plain read => exact .plain (hold read)
  | scaled read inner ih => exact .scaled (hold read) ih

/-! ## Wraps on objects -/

/-- A copy of an object, in which the operator is then replaced. -/
def attach (H : TermHeap α) (o : TermObject α) (K : LinearOperator α) :
    TermHeap α × Except Fault.Category ℕ :=
  ((H ++ [o]).set H.length (o.carrying K), .ok H.length)

/-- The copy refers to what the object refers to, so it stands for the same term with the operator.
-/
lemma attach_shows (h : H.Shows a t) (K : LinearOperator α) {o : TermObject α}
    (hread : H[a]? = some o) : ∃ added, (H.attach o K).1 = H ++ added ∧
      (H ++ added).Shows H.length (t.withOperator K) := by
  refine ⟨[o.carrying K], ?_, ?_⟩
  · rw [attach, List.set_append_right _ _ (Nat.le_refl _), Nat.sub_self]
    rfl
  · cases h with
    | plain read =>
      obtain rfl := Option.some.inj (read.symm.trans hread)
      exact .plain List.getElem?_concat_length
    | scaled read inner =>
      obtain rfl := Option.some.inj (read.symm.trans hread)
      exact .scaled List.getElem?_concat_length (inner.grow _)

variable [Scalar α]

/-- A new object that refers to the scaled one. -/
def scale (H : TermHeap α) (a : ℕ) (c : Number α) : TermHeap α × Except Fault.Category ℕ :=
  match H[a]? with
  | none => (H, .error .capability)
  | some o =>
    if !c.isPositive then (H, .error .value)
    else
      match c.toReal with
      | .error e => (H, .error e.category)
      | .ok x => (H ++ [.scaled x a o.dim o.operator], .ok H.length)

/-- An attachment, which looks at nothing but the object itself. -/
def compose (H : TermHeap α) (a : ℕ) (K : LinearOperator α) :
    TermHeap α × Except Fault.Category ℕ :=
  match H[a]? with
  | none => (H, .error .capability)
  | some o =>
    match o.operator with
    | some _ => (H, .error .configuration)
    | none =>
      match o.dim, K.codim with
      | some n, some m => if n = m then H.attach o K else (H, .error .value)
      | _, _ => H.attach o K

/-- One wrap. -/
def wrap (H : TermHeap α) (a : ℕ) : Wrap α → TermHeap α × Except Fault.Category ℕ
  | .scaleLeft c | .scaleRight c => H.scale a c
  | .compose K | .times K => H.compose a K

/-- A sequence of wraps, which ends at the first one that is refused. -/
def wrapAll (H : TermHeap α) (a : ℕ) : List (Wrap α) → TermHeap α × Except Fault.Category ℕ
  | [] => (H, .ok a)
  | w :: ws =>
    match H.wrap a w with
    | (H', .ok a') => H'.wrapAll a' ws
    | (H', .error e) => (H', .error e)

/-- The terms as values and the terms as objects came to the same. -/
inductive Agrees (H : TermHeap α) : Except Fault (Proximable α) → Except Fault.Category ℕ → Prop
  | refused (e : Fault) : Agrees H (.error e) (.error e.category)
  | made {a : ℕ} {t : Proximable α} (h : H.Shows a t) : Agrees H (.ok t) (.ok a)

lemma scale_agrees (h : H.Shows a t) (c : Number α) : ∃ added,
    (H.scale a c).1 = H ++ added ∧ Agrees (H ++ added) (t.scale c) (H.scale a c).2 := by
  obtain ⟨o, hread, hdim, hoperator⟩ := h.object
  rw [scale, hread, Proximable.scale]
  dsimp only
  split
  · exact ⟨[], (List.append_nil H).symm, .refused _⟩
  · cases c.toReal with
    | error e => exact ⟨[], (List.append_nil H).symm, .refused e⟩
    | ok x =>
      refine ⟨_, rfl, .made (.scaled ?_ (h.grow _))⟩
      rw [List.getElem?_concat_length, hdim, hoperator]

lemma compose_agrees (h : H.Shows a t) (K : LinearOperator α) : ∃ added,
    (H.compose a K).1 = H ++ added ∧ Agrees (H ++ added) (t.compose K) (H.compose a K).2 := by
  obtain ⟨o, hread, hdim, hoperator⟩ := h.object
  have hunchanged : H = H ++ [] := (List.append_nil H).symm
  obtain ⟨added, hattach, hshows⟩ := attach_shows h K hread
  rw [compose, hread, Proximable.compose]
  simp only [hdim, hoperator]
  cases t.operator with
  | some K₀ => exact ⟨[], hunchanged, .refused _⟩
  | none =>
    rcases t.dim with _ | n
    · exact ⟨added, hattach, .made hshows⟩
    rcases K.codim with _ | m
    · exact ⟨added, hattach, .made hshows⟩
    by_cases hnm : n = m
    · simp only [if_pos hnm]
      exact ⟨added, hattach, .made hshows⟩
    · simp only [if_neg hnm]
      exact ⟨[], hunchanged, .refused _⟩

lemma wrap_agrees (h : H.Shows a t) (w : Wrap α) : ∃ added,
    (H.wrap a w).1 = H ++ added ∧ Agrees (H ++ added) (t.wrap w) (H.wrap a w).2 := by
  cases w with
  | scaleLeft c | scaleRight c => exact scale_agrees h c
  | compose K | times K => exact compose_agrees h K

/-- **A sequence of wraps** only adds objects, and makes the term that it makes of values. -/
lemma wrapAll_agrees (h : H.Shows a t) (ws : List (Wrap α)) : ∃ added,
    (H.wrapAll a ws).1 = H ++ added ∧ Agrees (H ++ added) (t.wrapAll ws) (H.wrapAll a ws).2 := by
  induction ws generalizing H a t with
  | nil => exact ⟨[], (List.append_nil H).symm, .made (by rwa [List.append_nil])⟩
  | cons w ws ih =>
    obtain ⟨added, hgrown, hagrees⟩ := wrap_agrees h w
    rw [wrapAll, Proximable.wrapAll]
    generalize H.wrap a w = result at hgrown hagrees ⊢
    obtain ⟨H', outcome⟩ := result
    obtain rfl : H' = H ++ added := hgrown
    generalize t.wrap w = term at hagrees ⊢
    cases hagrees with
    | refused e => exact ⟨added, rfl, .refused e⟩
    | made hu =>
      obtain ⟨more, hmore, hagrees⟩ := ih hu
      rw [List.append_assoc] at hmore hagrees
      exact ⟨added ++ more, hmore, hagrees⟩

/-- One sequence after another. -/
lemma wrapAll_append {ws vs : List (Wrap α)} (h : H.wrapAll a ws = (H', .ok a')) :
    H.wrapAll a (ws ++ vs) = H'.wrapAll a' vs := by
  induction ws generalizing H a with
  | nil =>
    cases h
    rfl
  | cons w ws ih =>
    rw [List.cons_append, wrapAll]
    rw [wrapAll] at h
    generalize H.wrap a w = result at h ⊢
    obtain ⟨H₁, e | a₁⟩ := result
    · cases h
    · exact ih h

/-- Whatever comes after it, what a sequence has made stays what it is. -/
lemma wrapAll_keeps (h : H.Shows a t) {ws : List (Wrap α)} (vs : List (Wrap α))
    (hu : t.wrapAll ws = .ok u) :
    ∃ a', (H.wrapAll a ws).2 = .ok a' ∧ (H.wrapAll a (ws ++ vs)).1.Shows a' u := by
  obtain ⟨added, hgrown, hagrees⟩ := wrapAll_agrees h ws
  rw [hu] at hagrees
  generalize hrun : H.wrapAll a ws = result at hgrown hagrees ⊢
  obtain ⟨H', outcome⟩ := result
  obtain rfl : H' = H ++ added := hgrown
  cases hagrees with
  | made hshows =>
    obtain ⟨more, hmore, -⟩ := wrapAll_agrees hshows vs
    refine ⟨_, rfl, ?_⟩
    rw [wrapAll_append hrun, hmore]
    exact hshows.grow more

/--
**Scalings and attachments commute.**  Let an elementary functional go through any sequence of
scalings by positive numbers, from either side, and of attachments, by name or as products.  The
sequence is refused for its value when the size of the first operator clashes with the one of the
functional, and for its configuration when it does not and there is a second operator.  Otherwise
the term that comes out carries the one operator or none, has the size of the functional, and
evaluates as the functional times the product of all factors, wherever the operator came in.  Done
with objects, the sequence makes the same term, and every object that it makes on the way goes on
standing for the term that it stood for.
-/
theorem wraps_commute {h : Penalty Exact} {dim : Option Int} {ws : List (Wrap Exact)}
    {H : TermHeap Exact} {a : ℕ} (hws : Wrap.Positive ws) (ha : H.Shows a (.plain h dim none)) :
    (∀ K Ks, Wrap.attachments ws = K :: Ks → Clashes dim K →
      ∃ e, (Proximable.plain h dim none).wrapAll ws = .error e ∧ e.category = .value) ∧
    (∀ K Ks, Wrap.attachments ws = K :: Ks → ¬ Clashes dim K → Ks ≠ [] →
      ∃ e, (Proximable.plain h dim none).wrapAll ws = .error e ∧ e.category = .configuration) ∧
    ((∀ K Ks, Wrap.attachments ws = K :: Ks → ¬ Clashes dim K ∧ Ks = []) →
      ∃ u, (Proximable.plain h dim none).wrapAll ws = .ok u ∧
        u.operator = (Wrap.attachments ws).head? ∧ u.dim = dim ∧
        Proximable.EvaluatesAs (Wrap.factor ws) (.plain h dim none) u) ∧
    Agrees (H.wrapAll a ws).1 ((Proximable.plain h dim none).wrapAll ws) (H.wrapAll a ws).2 ∧
    ∀ vs vs' u, ws = vs ++ vs' → (Proximable.plain h dim none).wrapAll vs = .ok u →
      ∃ a', (H.wrapAll a vs).2 = .ok a' ∧ (H.wrapAll a ws).1.Shows a' u := by
  obtain ⟨hnone, hsome⟩ := Proximable.wrapAll_free hws (t := .plain h dim none) rfl
  refine ⟨fun K Ks hK => (hsome K Ks hK).1, fun K Ks hK => (hsome K Ks hK).2.2, fun hfine => ?_, ?_,
    ?_⟩
  · have hok : ∃ u, (Proximable.plain h dim none).wrapAll ws = .ok u := by
      rcases hattach : Wrap.attachments ws with _ | ⟨K, Ks⟩
      · exact hnone hattach
      · obtain ⟨hclash, hlast⟩ := hfine K Ks hattach
        exact (hsome K Ks hattach).2.1 hclash hlast
    obtain ⟨u, hu⟩ := hok
    obtain ⟨hmultiple, hoperator⟩ := Proximable.wrapAll_multiple (.base h dim) hws hu
    rw [mul_one] at hmultiple
    exact ⟨u, hu, hoperator, hmultiple.dim_eq, hmultiple.evaluatesAs⟩
  · obtain ⟨added, hgrown, hagrees⟩ := wrapAll_agrees ha ws
    rwa [hgrown]
  · rintro vs vs' u rfl hu
    exact wrapAll_keeps ha vs' hu

/-! The sum of magnitudes of four numbers, and the differences of five. -/

noncomputable def differencesOfFive : LinearOperator Exact :=
  ⟨.difference, some 4, some 5, Scalar.ofInt 2⟩

/-- An operator between two factors, one of them on the right. -/
noncomputable def wrapsAround : List (Wrap Exact) :=
  [.scaleRight (.int 3), .times differencesOfFive, .scaleLeft (.real (finite (1 / 2)))]

theorem magnitudes_wrapped : ∃ u,
    (Proximable.plain .absolute (some 4) none).wrapAll wrapsAround = .ok u ∧
      u.operator = some differencesOfFive ∧
      Proximable.EvaluatesAs (Wrap.factor wrapsAround) (.plain .absolute (some 4) none) u ∧
      (TermHeap.wrapAll [.plain .absolute (some 4) none] 0 wrapsAround).1.Shows 0
        (.plain .absolute (some 4) none) := by
  have hpositive : Wrap.Positive wrapsAround := by
    intro c hc
    rw [show Wrap.scalings wrapsAround = [.int 3, .real (finite (1 / 2))] from rfl,
      List.mem_cons, List.mem_singleton] at hc
    rcases hc with rfl | rfl
    · exact ⟨_, Number.is_int 3, by norm_num⟩
    · exact ⟨_, Number.is_real _, one_half_pos⟩
  have hshows : TermHeap.Shows [.plain .absolute (some 4) none] 0
      (.plain .absolute (some 4) none : Proximable Exact) := .plain rfl
  obtain ⟨-, -, hmade, -, hkept⟩ := wraps_commute hpositive hshows
  have hfine : ∀ K Ks, Wrap.attachments wrapsAround = K :: Ks → ¬ Clashes (some 4) K ∧ Ks = [] := by
    intro K Ks hK
    obtain ⟨rfl, rfl⟩ := List.cons.inj (show [differencesOfFive] = K :: Ks from hK)
    refine ⟨?_, rfl⟩
    rintro ⟨n, m, hn, hm, hne⟩
    exact hne (Option.some.inj (hn.symm.trans hm))
  obtain ⟨u, hu, hoperator, -, hevaluates⟩ := hmade hfine
  obtain ⟨a', ha', hbase⟩ := hkept [] wrapsAround _ rfl rfl
  obtain rfl : 0 = a' := Except.ok.inj ha'
  exact ⟨u, hu, hoperator, hevaluates, hbase⟩

end TermHeap

end PrimalDual
