import PrimalDual.Proofs.Functional.Moreau
import PrimalDual.Proofs.NdArray.Entries

/-!
# Scalings and attachments commute

A term can be scaled any number of times, from either side, and an operator can be attached to it
before, after or between the scalings.  Each scaling puts one more layer around the term and hands
the operator on; an attachment goes to whatever layer happens to be the outermost.  What comes out
does not depend on the order: there is one operator or none, and the functional is the base term
times the product of all factors.

An attachment is refused when the term carries an operator already, and otherwise when the sizes are
known and do not agree.  So of all attachments only the first one can fail by its size, and any
second one fails.

* `Wrap`, `Proximable.wrap`, `wrapAll` — a scaling or an attachment, and a sequence of them.
* `Wrap.attachments`, `Wrap.scalings`, `Wrap.factor` — the operators, the factors and their product.
* `Clashes` — known sizes do not agree.
* `EvaluatesAs` — a term evaluates as a multiple of another one; `Multiple` is what carries over
  from one wrap to the next.
* `wrapAll_multiple`, `wrapAll_attached`, `wrapAll_free` — a sequence of wraps.
-/

namespace PrimalDual

open Exact NdArray

/-! ## Sequences of wraps -/

/-- A scaling from the left or from the right, or an attachment by its name or as a product. -/
inductive Wrap (α : Type) where
  | scaleLeft (c : Number α)
  | scaleRight (c : Number α)
  | compose (K : LinearOperator α)
  | times (K : LinearOperator α)

section

variable {α : Type}

namespace Wrap

/-- The operator that the wrap attaches. -/
def attachment? : Wrap α → Option (LinearOperator α)
  | compose K | times K => some K
  | _ => none

/-- The factor that the wrap scales by. -/
def scaling? : Wrap α → Option (Number α)
  | scaleLeft c | scaleRight c => some c
  | _ => none

/-- The operators that a sequence attaches, in order. -/
def attachments (ws : List (Wrap α)) : List (LinearOperator α) := ws.filterMap attachment?

/-- The factors that it scales by. -/
def scalings (ws : List (Wrap α)) : List (Number α) := ws.filterMap scaling?

/-- All factors are positive real numbers. -/
def Positive (ws : List (Wrap Exact)) : Prop := ∀ c ∈ scalings ws, ∃ γ, c.Is γ ∧ 0 < γ

/-- The product of the factors. -/
noncomputable def factor (ws : List (Wrap Exact)) : ℝ :=
  ((scalings ws).map fun c => c.value.toReal).prod

end Wrap

/-- The size of a point and the size of an image of the operator are known and differ. -/
def Clashes (dim : Option Int) (K : LinearOperator α) : Prop :=
  ∃ n m, dim = some n ∧ K.codim = some m ∧ n ≠ m

namespace Proximable

variable {t : Proximable α} {K K₀ : LinearOperator α}

@[simp] lemma withOperator_dim : (t.withOperator K).dim = t.dim := by cases t <;> rfl

@[simp] lemma withOperator_operator : (t.withOperator K).operator = some K := by cases t <;> rfl

variable [Scalar α]

/-- The term under one wrap. -/
def wrap (t : Proximable α) : Wrap α → Except Fault (Proximable α)
  | .scaleLeft c | .scaleRight c => t.scale c
  | .compose K | .times K => t.compose K

/-- The term under a sequence of wraps, which ends at the first one that is refused. -/
def wrapAll (t : Proximable α) : List (Wrap α) → Except Fault (Proximable α)
  | [] => .ok t
  | w :: ws => do
    let u ← t.wrap w
    u.wrapAll ws

/-! ## One wrap -/

lemma compose_of_free (ht : t.operator = none) (hK : ¬ Clashes t.dim K) :
    t.compose K = .ok (t.withOperator K) := by
  rw [compose, ht]
  dsimp only
  split
  · rename_i n m hn hm
    have hnm : n = m := not_not.mp fun hne => hK ⟨n, m, hn, hm, hne⟩
    rw [if_pos hnm]
  · rfl

lemma compose_of_clash (ht : t.operator = none) (hK : Clashes t.dim K) :
    t.compose K = .error (.composedSizes t.text K.text) := by
  obtain ⟨n, m, hn, hm, hne⟩ := hK
  rw [compose, ht, hn, hm]
  exact if_neg hne

lemma compose_of_attached (ht : t.operator = some K₀) :
    t.compose K = .error (.alreadyComposed t.text K₀.text) := by
  rw [compose, ht]

end Proximable

end

/-! ## Multiples -/

/-- Both are arrays of one shape, and the elements of the second are multiples of those of the
first. -/
def Times (C : ℝ) (V W : Value Exact) : Prop :=
  ∃ y z s F, V = .array y ∧ W = .array z ∧ y.Reads s F ∧ z.Reads s fun k => finite C * F k

/-- A positive multiple of a positive multiple, of whatever. -/
lemma Exact.finite_mul_mul {a b : ℝ} (ha : 0 < a) (hb : 0 < b) (e : Exact) :
    finite a * (finite b * e) = finite (a * b) * e := by
  cases e with
  | finite x => rw [finite_mul, finite_mul, finite_mul, mul_assoc]
  | infinite s =>
    rw [finite_mul_infinite hb, finite_mul_infinite ha, finite_mul_infinite (mul_pos ha hb)]
  | notANumber => rfl

lemma Exact.finite_one_mul (e : Exact) : finite 1 * e = e := by
  cases e with
  | finite x => rw [finite_mul, one_mul]
  | infinite s => exact finite_mul_infinite one_pos s
  | notANumber => rfl

section

variable {a : NdArray Exact} {s k : Number Exact}

/-- Beside floating-point elements only the scalar nearest to a number matters. -/
lemma arith_number_congr (op : Operation) (ha : a.kind.isReal = true) (h : s.value = k.value) :
    arith op (.array a) (.number s) = arith op (.array a) (.number k) := by
  obtain ⟨p, hp⟩ := exists_precision ha
  simp only [arith, hp, Number.kindBeside, bind, Except.bind, spread_real, h]

lemma number_arith_congr (op : Operation) (ha : a.kind.isReal = true) (h : s.value = k.value) :
    arith op (.number s) (.array a) = arith op (.number k) (.array a) := by
  obtain ⟨p, hp⟩ := exists_precision ha
  simp only [arith, hp, Number.kindBeside, bind, Except.bind, spread_real, h]

lemma arith_number_kind {op : Operation} {y : NdArray Exact} (ha : a.kind.isReal = true)
    (h : arith op (.array a) (.number s) = .ok y) : y.kind.isReal = true := by
  obtain ⟨p, hp⟩ := exists_precision ha
  simp only [arith, hp, Number.kindBeside, bind, Except.bind, spread_real, combineIn_real,
    zipReal] at h
  split at h
  · cases h
    rfl
  · cases h

/-- The product of a scalar and a step. -/
lemma arith_mul_number (c : Exact) (s : Number Exact) :
    Value.arith .mul (.number (.real c)) (.number s) = .ok (.number (.real (c * s.value))) := by
  rw [Value.arith]
  show ((Number.real c).mul s).map _ = _
  rw [Number.mul, Number.combine]
  simp only [Number.whole?, Number.toReal_eq]
  rfl

/-- The proximal point goes by the scalar nearest to the step. -/
lemma Penalty.prox_congr (h : Penalty Exact) (x : NdArray Exact) (hs : s.value = k.value) :
    h.prox x (.number s) = h.prox x (.number k) := by
  cases h with
  | absolute =>
    show shrink x (.number s) = shrink x (.number k)
    rw [shrink, shrink, arith_number_congr .sub rfl hs]
  | euclidean =>
    show shorten x (.number s) = shorten x (.number k)
    rw [shorten, shorten, arith_number_congr .maxNum rfl hs]
    cases hlongest : arith .maxNum (.array (lengths x)) (.number k) with
    | error e => rfl
    | ok longest =>
      show (arith .div (.number s) (.array longest) >>= _)
        = arith .div (.number k) (.array longest) >>= _
      rw [number_arith_congr .div (arith_number_kind rfl hlongest) hs]
  | orthant | box _ _ | zero | unspecified => rfl

end

namespace Proximable

variable {h : Penalty Exact} {dim : Option Int} {C γ : ℝ} {t u : Proximable Exact}

/--
The term evaluates as `C` times the elementary functional: values are multiplied by `C`, the step of
the proximal point is, and the conjugate has a closed form only where there are no layers at all.
-/
structure Multiple (h : Penalty Exact) (dim : Option Int) (C : ℝ) (u : Proximable Exact) :
    Prop where
  pos : 0 < C
  dim_eq : u.dim = dim
  apply : ∀ v, Parallel (Times C) ((plain h dim none).apply v) (u.apply v)
  prox : ∀ x s k, k.value = finite C * s.value → u.prox x (.number s) = h.prox x (.number k)
  proxAt : ∀ v s k, k.value = finite C * s.value →
    u.proxAt v (.number s) = (plain h dim none).proxAt v (.number k)
  conjugate :
    (C = 1 ∧ ∀ z sigma, u.conjugateProx z sigma = (plain h dim none).conjugateProx z sigma) ∨
    ∀ z sigma, u.conjugateProx z sigma = u.moreau z sigma

namespace Multiple

/-- An elementary functional has values on arrays only, and they are arrays. -/
lemma apply_once (h : Penalty Exact) (dim : Option Int) (v : Value Exact) :
    Parallel (Times 1) ((plain h dim none).apply v) ((plain h dim none).apply v) := by
  have helsewhere : ∀ v, ∃ e, h.valueElsewhere v = .error e := by
    intro v
    unfold Penalty.valueElsewhere
    split <;> exact ⟨_, rfl⟩
  cases v with
  | array x =>
    show Parallel _ ((h.value x).map Value.array) ((h.value x).map Value.array)
    cases h.value x with
    | error e => exact .refused e
    | ok y =>
      have hy : y.Reads y.shape y.realAt := ⟨rfl, fun _ _ => rfl⟩
      exact .ok ⟨y, y, _, _, rfl, rfl, hy, hy.congr fun k _ => (finite_one_mul _).symm⟩
  | _ =>
    obtain ⟨e, he⟩ := helsewhere _
    rw [Proximable.apply, he]
    · exact .refused e
    · intro x hx
      cases hx

lemma base (h : Penalty Exact) (dim : Option Int) : Multiple h dim 1 (plain h dim none) where
  pos := one_pos
  dim_eq := rfl
  apply := apply_once h dim
  prox x s k hk := by
    rw [finite_one_mul] at hk
    exact h.prox_congr x hk.symm
  proxAt v s k hk := by
    rw [finite_one_mul] at hk
    cases v with
    | array x =>
      show (h.prox x _).map _ = (h.prox x _).map _
      rw [h.prox_congr x hk.symm]
    | _ => rfl
  conjugate := Or.inl ⟨rfl, fun _ _ => rfl⟩

/-- An operator does not take part in the evaluation. -/
lemma withOperator (hu : Multiple h dim C u) (K : LinearOperator Exact) :
    Multiple h dim C (u.withOperator K) where
  pos := hu.pos
  dim_eq := withOperator_dim.trans hu.dim_eq
  apply v := by
    have hsame : (u.withOperator K).apply v = u.apply v := by
      cases u with
      | plain p n K₀ => cases v <;> rfl
      | scaled c t K₀ => rfl
    rw [hsame]
    exact hu.apply v
  prox x s k hk := by
    have hsame : (u.withOperator K).prox x (.number s) = u.prox x (.number s) := by cases u <;> rfl
    rw [hsame, hu.prox x s k hk]
  proxAt v s k hk := by
    have hsame : (u.withOperator K).proxAt v (.number s) = u.proxAt v (.number s) := by
      cases u with
      | plain p n K₀ => cases v <;> rfl
      | scaled c t K₀ => rfl
    rw [hsame, hu.proxAt v s k hk]
  conjugate := by
    have hmoreau z sigma : (u.withOperator K).moreau z sigma = u.moreau z sigma := by
      cases u <;> rfl
    have hconjugate z sigma :
        (u.withOperator K).conjugateProx z sigma = u.conjugateProx z sigma := by
      cases u with
      | plain p n K₀ => cases p <;> rfl
      | scaled c t K₀ => rfl
    simp only [hmoreau, hconjugate]
    exact hu.conjugate

/-- One more factor. -/
lemma scaled (hu : Multiple h dim C u) (hγ : 0 < γ) (K : Option (LinearOperator Exact)) :
    Multiple h dim (γ * C) (.scaled (finite γ) u K) where
  pos := mul_pos hγ hu.pos
  dim_eq := hu.dim_eq
  apply v := by
    have hv := hu.apply v
    show Parallel _ _ (u.apply v >>= Value.arith .mul (.number (.real (finite γ))))
    generalize (plain h dim none).apply v = once at hv ⊢
    generalize u.apply v = often at hv ⊢
    cases hv with
    | refused e => exact .refused e
    | ok htimes =>
      obtain ⟨y, z, s, F, rfl, rfl, hy, hz⟩ := htimes
      obtain ⟨w, hw, hreads⟩ := arith_mul_real_reads (finite γ) hz
      show Parallel _ _
        (arith .mul (.number (.real (finite γ))) (.array z) >>= fun a => pure (Value.array a))
      rw [hw]
      exact .ok ⟨y, w, s, F, rfl, rfl, hy, hreads.congr fun k _ => finite_mul_mul hγ hu.pos _⟩
  prox x s k hk := by
    show (Value.arith .mul (.number (.real (finite γ))) (.number s) >>= u.prox x) = _
    rw [arith_mul_number]
    refine hu.prox x _ k ?_
    rw [hk, mul_comm γ, ← finite_mul_mul hu.pos hγ]
    rfl
  proxAt v s k hk := by
    show (Value.arith .mul (.number (.real (finite γ))) (.number s) >>= u.proxAt v) = _
    rw [arith_mul_number]
    refine hu.proxAt v _ k ?_
    rw [hk, mul_comm γ, ← finite_mul_mul hu.pos hγ]
    rfl
  conjugate := Or.inr fun _ _ => rfl

end Multiple

/-! ### The conjugate -/

/-- Both are arrays of one shape, and have the same elements at point `r`. -/
def SameRow (n r : ℕ) (V W : Value Exact) : Prop :=
  ∃ y z : NdArray Exact, V = .array y ∧ W = .array z ∧ y.shape = z.shape ∧
    ∀ j : Fin n, y.realAt (r * n + j) = z.realAt (r * n + j)

lemma SameRow.refl (n r : ℕ) (y : NdArray Exact) : SameRow n r (.array y) (.array y) :=
  ⟨y, y, rfl, rfl, rfl, fun _ => rfl⟩

variable {lead : Shape} {b : Backend} {n r : ℕ} {v : Fin n → ℝ} {x : NdArray Exact}
  {s : Number Exact} {σ : ℝ}

/-- Terms with the same proximal points take the same detour to the conjugate. -/
lemma moreau_congr (hprox : ∀ x k, t.prox x (.number k) = u.prox x (.number k)) :
    t.moreau x (.number s) = u.moreau x (.number s) := by
  have hstep : Value.arith .div (.number (.int 1)) (.number s)
      = ((Number.int 1).div s).map .number := rfl
  rw [moreau, moreau, hstep]
  cases (Number.int 1).div s with
  | error e => rfl
  | ok k =>
    show (arith .div (.array x) (.number s) >>= fun inner => t.prox inner (.number k) >>= _) = _
    simp only [hprox]
    rfl

/-- A closed form for the conjugate agrees with the detour at every point of real numbers. -/
lemma conjugateProx_moreau (h : Penalty Exact) (dim : Option Int) (hs : s.Is σ) (hσ : 0 < σ)
    (hx : x.Holds b lead n r v) :
    Parallel (SameRow n r) (((plain h dim none).conjugateProx x (.number s)).map .array)
      (((plain h dim none).moreau x (.number s)).map .array) := by
  have hclosed (ht : (plain h dim none).Fits lead n) :
      Parallel (SameRow n r) (((plain h dim none).conjugateProx x (.number s)).map .array)
        (((plain h dim none).moreau x (.number s)).map .array) := by
    obtain ⟨Q, D, F, G, hQ, hD, hF, hG, hsame⟩ := conjugateProx_complement ht hs hσ hx
    obtain ⟨Q', D', F', G', hQ', hD', hF', hG', hsame'⟩ := moreau_complement ht hs hσ hx
    -- both agree with one side of the identity
    obtain rfl : D = D' := Except.ok.inj (hD.symm.trans hD')
    rw [hQ, hQ']
    refine .ok ⟨Q, Q', rfl, rfl, hF.shape_eq.trans hF'.shape_eq.symm, fun j => ?_⟩
    rw [hF.entry r hx.lt j j.isLt, hF'.entry r hx.lt j j.isLt, hsame, hsame',
      ← hG.entry r hx.lt j j.isLt, ← hG'.entry r hx.lt j j.isLt]
  cases h with
  | absolute | zero => exact hclosed trivial
  | euclidean | orthant | box _ _ | unspecified =>
    exact (Parallel.refl (R := Eq) (fun _ => rfl) _).map fun y _ hy => hy ▸ SameRow.refl n r y

/-- The conjugate of a multiple is the one of the functional under a single factor. -/
lemma Multiple.conjugateProx_scaled (hu : Multiple h dim C u) (hs : s.Is σ) (hσ : 0 < σ)
    (hx : x.Holds b lead n r v) :
    Parallel (SameRow n r) (u.conjugateProxAt (.array x) (.number s))
      ((Proximable.scaled (finite C) (plain h dim none) none).conjugateProxAt (.array x)
        (.number s)) := by
  show Parallel _ ((u.conjugateProx x (.number s)).map Value.array)
    (((Proximable.scaled (finite C) (plain h dim none) none).moreau x (.number s)).map Value.array)
  have honce := (Multiple.base h dim).scaled hu.pos none
  rw [mul_one] at honce
  rcases hu.conjugate with ⟨rfl, hclosed⟩ | hdetour
  · have hbase : (Proximable.scaled (finite 1) (plain h dim none) none).moreau x (.number s)
        = (plain h dim none).moreau x (.number s) :=
      moreau_congr fun y k => honce.prox y k k (finite_one_mul _).symm
    rw [hclosed, hbase]
    exact conjugateProx_moreau h dim hs hσ hx
  · have hsame : u.moreau x (.number s)
        = (Proximable.scaled (finite C) (plain h dim none) none).moreau x (.number s) :=
      moreau_congr fun y k => by
        rw [hu.prox y k (.real (finite C * k.value)) rfl,
          honce.prox y k (.real (finite C * k.value)) rfl]
    rw [hdetour, hsame]
    exact (Parallel.refl (R := Eq) (fun _ => rfl) _).map fun y _ hy => hy ▸ SameRow.refl n r y

/-- The term `u` evaluates as `C` times the term `t`, whatever operators the two carry. -/
structure EvaluatesAs (C : ℝ) (t u : Proximable Exact) : Prop where
  apply : ∀ v, Parallel (Times C) (t.apply v) (u.apply v)
  prox : ∀ v s k, k.value = finite C * s.value →
    u.proxAt v (.number s) = t.proxAt v (.number k)
  conjugate : ∃ T, t.scale (.real (finite C)) = .ok T ∧
    ∀ ⦃b lead n r⦄ ⦃v : Fin n → ℝ⦄ ⦃x : NdArray Exact⦄ ⦃s : Number Exact⦄ ⦃σ : ℝ⦄,
      s.Is σ → 0 < σ → x.Holds b lead n r v →
      Parallel (SameRow n r) (u.conjugateProxAt (.array x) (.number s))
        (T.conjugateProxAt (.array x) (.number s))

lemma Multiple.evaluatesAs (hu : Multiple h dim C u) : EvaluatesAs C (plain h dim none) u where
  apply := hu.apply
  prox := hu.proxAt
  conjugate := ⟨_, scale_of_positive (Number.is_real C) hu.pos,
    fun _ _ _ _ _ _ _ _ hs hσ hx => hu.conjugateProx_scaled hs hσ hx⟩

/-! ## Sequences -/

variable {w : Wrap Exact} {ws : List (Wrap Exact)} {K K₀ : LinearOperator Exact}

/-- The first wrap of a sequence is a scaling by a positive number, or it attaches an operator. -/
lemma wrap_cases (t : Proximable Exact) (hws : Wrap.Positive (w :: ws)) : Wrap.Positive ws ∧
    ((∃ γ, 0 < γ ∧ t.wrap w = .ok (.scaled (finite γ) t t.operator) ∧
        Wrap.attachments (w :: ws) = Wrap.attachments ws ∧
        Wrap.factor (w :: ws) = γ * Wrap.factor ws) ∨
      ∃ K, t.wrap w = t.compose K ∧ Wrap.attachments (w :: ws) = K :: Wrap.attachments ws ∧
        Wrap.factor (w :: ws) = Wrap.factor ws) := by
  cases w with
  | scaleLeft c | scaleRight c =>
    obtain ⟨γ, hc, hγ⟩ := hws c List.mem_cons_self
    refine ⟨fun c' hc' => hws c' (List.mem_cons_of_mem _ hc'), Or.inl ⟨γ, hγ, ?_, rfl, ?_⟩⟩
    · exact scale_of_positive hc hγ
    · show c.value.toReal * Wrap.factor ws = _
      rw [hc, toReal_finite]
  | compose K | times K => exact ⟨hws, Or.inr ⟨K, rfl, rfl, rfl⟩⟩

lemma wrapAll_cons_ok (h : t.wrap w = .ok u) : t.wrapAll (w :: ws) = u.wrapAll ws := by
  rw [wrapAll, h]
  rfl

lemma wrapAll_cons_error {e : Fault} (h : t.wrap w = .error e) :
    t.wrapAll (w :: ws) = .error e := by
  rw [wrapAll, h]
  rfl

/-- **What a sequence makes** is a multiple by all factors, and carries the first operator. -/
lemma wrapAll_multiple (ht : Multiple h dim C t) (hws : Wrap.Positive ws)
    (hu : t.wrapAll ws = .ok u) : Multiple h dim (Wrap.factor ws * C) u ∧
      u.operator = t.operator.or (Wrap.attachments ws).head? := by
  induction ws generalizing t C with
  | nil =>
    cases hu
    refine ⟨?_, (Option.or_none).symm⟩
    show Multiple h dim (1 * C) u
    rwa [one_mul]
  | cons w ws ih =>
    obtain ⟨hrest, ⟨γ, hγ, hwrap, hattach, hfactor⟩ | ⟨K, hwrap, hattach, hfactor⟩⟩ :=
      wrap_cases t hws
    · rw [wrapAll_cons_ok hwrap] at hu
      obtain ⟨hmultiple, hfirst⟩ := ih (ht.scaled hγ t.operator) hrest hu
      rw [hattach, hfactor, mul_comm γ, mul_assoc]
      exact ⟨hmultiple, hfirst⟩
    · cases hoperator : t.operator with
      | some K₀ =>
        rw [wrapAll_cons_error (hwrap.trans (compose_of_attached hoperator))] at hu
        cases hu
      | none =>
        by_cases hclash : Clashes t.dim K
        · rw [wrapAll_cons_error (hwrap.trans (compose_of_clash hoperator hclash))] at hu
          cases hu
        · rw [wrapAll_cons_ok (hwrap.trans (compose_of_free hoperator hclash))] at hu
          obtain ⟨hmultiple, hfirst⟩ := ih (ht.withOperator K) hrest hu
          rw [withOperator_operator, Option.some_or] at hfirst
          rw [hattach, hfactor]
          exact ⟨hmultiple, hfirst⟩

/-- **A term with an operator** can be scaled, and every attachment is refused. -/
lemma wrapAll_attached (hws : Wrap.Positive ws) (ht : t.operator = some K₀) :
    (Wrap.attachments ws = [] → ∃ u, t.wrapAll ws = .ok u) ∧
      (Wrap.attachments ws ≠ [] →
        ∃ e, t.wrapAll ws = .error e ∧ e.category = .configuration) := by
  induction ws generalizing t with
  | nil => exact ⟨fun _ => ⟨t, rfl⟩, fun hne => absurd rfl hne⟩
  | cons w ws ih =>
    obtain ⟨hrest, ⟨γ, hγ, hwrap, hattach, -⟩ | ⟨K, hwrap, hattach, -⟩⟩ := wrap_cases t hws
    · rw [hattach, wrapAll_cons_ok hwrap]
      exact ih hrest ht
    · rw [hattach, wrapAll_cons_error (hwrap.trans (compose_of_attached ht))]
      exact ⟨nofun, fun _ => ⟨_, rfl, rfl⟩⟩

/-- **A term without an operator** takes one whose size does not clash, and no second one. -/
lemma wrapAll_free (hws : Wrap.Positive ws) (ht : t.operator = none) :
    (Wrap.attachments ws = [] → ∃ u, t.wrapAll ws = .ok u) ∧
      ∀ K Ks, Wrap.attachments ws = K :: Ks →
        (Clashes t.dim K → ∃ e, t.wrapAll ws = .error e ∧ e.category = .value) ∧
        (¬ Clashes t.dim K → Ks = [] → ∃ u, t.wrapAll ws = .ok u) ∧
        (¬ Clashes t.dim K → Ks ≠ [] →
          ∃ e, t.wrapAll ws = .error e ∧ e.category = .configuration) := by
  induction ws generalizing t with
  | nil => exact ⟨fun _ => ⟨t, rfl⟩, fun _ _ hK => (List.cons_ne_nil _ _ hK.symm).elim⟩
  | cons w ws ih =>
    obtain ⟨hrest, ⟨γ, hγ, hwrap, hattach, -⟩ | ⟨K', hwrap, hattach, -⟩⟩ := wrap_cases t hws
    · rw [hattach, wrapAll_cons_ok hwrap]
      exact ih hrest ht
    · rw [hattach]
      refine ⟨nofun, fun K Ks hK => ?_⟩
      obtain ⟨rfl, rfl⟩ := List.cons.inj hK
      refine ⟨fun hclash => ?_, fun hclash => ?_, fun hclash => ?_⟩
      · rw [wrapAll_cons_error (hwrap.trans (compose_of_clash ht hclash))]
        exact ⟨_, rfl, rfl⟩
      all_goals rw [wrapAll_cons_ok (hwrap.trans (compose_of_free ht hclash))]
      · exact (wrapAll_attached hrest withOperator_operator).1
      · exact (wrapAll_attached hrest withOperator_operator).2

end Proximable

end PrimalDual
