import PrimalDual.Proofs.NdArray.Broadcast

/-!
# Shapes that cover other shapes

A shape covers another one when an operand of the latter can be spread over it without any change of
its own.  The common shape of two operands covers both, and what is spread in two steps is spread as
in one.

* `Shape.Covers` — an operand of one shape can be spread over the other.
* **`covers_of_broadcast?`**, `broadcast?_of_covers` — the common shape is the least one that covers
  both operands.
* `Covers.trans`, **`project_project`** — spreading in two steps.
* `project_lt` — only places of the operand are read.
-/

namespace PrimalDual.Shape

/-- An operand of shape `s` can be spread over shape `t`. -/
def Covers (t s : Shape) : Prop := broadcast? t s = some t

/-! ## From the last axis -/

/-- The common shape of two operands, one trailing axis at a time. -/
lemma broadcastRev?_cons_iff {m n : ℕ} {s t u : List ℕ} :
    broadcastRev? (m :: s) (n :: t) = some u ↔
      ∃ k v, u = k :: v ∧ (m = k ∨ m = 1) ∧ (n = k ∨ n = 1) ∧ (k = m ∨ k = n) ∧
        broadcastRev? s t = some v := by
  have hcons (l : ℕ) (hl : ∀ k, (m = k ∨ m = 1) ∧ (n = k ∨ n = 1) ∧ (k = m ∨ k = n) ↔ k = l) :
      (broadcastRev? s t).map (l :: ·) = some u ↔
        ∃ k v, u = k :: v ∧ (m = k ∨ m = 1) ∧ (n = k ∨ n = 1) ∧ (k = m ∨ k = n) ∧
          broadcastRev? s t = some v := by
    rw [Option.map_eq_some_iff]
    constructor
    · rintro ⟨v, hv, rfl⟩
      obtain ⟨hm, hn, hk⟩ := (hl l).mpr rfl
      exact ⟨l, v, rfl, hm, hn, hk, hv⟩
    · rintro ⟨k, v, rfl, hm, hn, hk, hv⟩
      exact ⟨v, hv, by rw [(hl k).mp ⟨hm, hn, hk⟩]⟩
  rw [broadcastRev?]
  split_ifs with h hm hn
  · exact hcons m (by omega)
  · exact hcons n (by omega)
  · exact hcons m (by omega)
  · constructor
    · intro hnone
      cases hnone
    · rintro ⟨k, v, -, hm', hn', -, -⟩
      omega

/-- The common shape covers the first operand. -/
lemma broadcastRev?_left {s t u : List ℕ} (h : broadcastRev? s t = some u) :
    broadcastRev? u s = some u := by
  induction s generalizing t u with
  | nil => exact broadcastRev?_nil u
  | cons m s ih =>
    cases t with
    | nil =>
      cases h
      exact broadcastRev?_self _
    | cons n t =>
      obtain ⟨k, v, rfl, hm, -, -, hv⟩ := broadcastRev?_cons_iff.mp h
      exact (broadcastRev?_cons_eq_left_iff k m v s).mpr ⟨hm, ih hv⟩

lemma broadcastRev?_trans {s t u : List ℕ} (h : broadcastRev? u t = some u)
    (h' : broadcastRev? t s = some t) : broadcastRev? u s = some u := by
  induction u generalizing s t with
  | nil =>
    cases h
    exact h'
  | cons k u ih =>
    cases t with
    | nil =>
      cases h'
      exact broadcastRev?_nil _
    | cons n t =>
      cases s with
      | nil => exact broadcastRev?_nil _
      | cons m s =>
        rw [broadcastRev?_cons_eq_left_iff] at h h' ⊢
        refine ⟨?_, ih h.2 h'.2⟩
        rcases h'.1 with rfl | hm
        · exact h.1
        · exact Or.inr hm

/-- Two operands that a shape covers have a common shape, which it covers too. -/
lemma broadcastRev?_of_covers {s t u : List ℕ} (h : broadcastRev? u s = some u)
    (h' : broadcastRev? u t = some u) :
    ∃ v, broadcastRev? s t = some v ∧ broadcastRev? u v = some u := by
  induction u generalizing s t with
  | nil =>
    cases h
    cases h'
    exact ⟨[], rfl, rfl⟩
  | cons k u ih =>
    cases s with
    | nil => exact ⟨t, rfl, h'⟩
    | cons m s =>
      cases t with
      | nil => exact ⟨m :: s, rfl, h⟩
      | cons n t =>
        rw [broadcastRev?_cons_eq_left_iff] at h h'
        obtain ⟨v, hv, huv⟩ := ih h.2 h'.2
        -- the longer of the two axes
        have haxis : ∃ l, (m = l ∨ m = 1) ∧ (n = l ∨ n = 1) ∧ (l = m ∨ l = n) ∧ (l = k ∨ l = 1) := by
          by_cases hm : m = 1
          · exact ⟨n, Or.inr hm, Or.inl rfl, Or.inr rfl, h'.1⟩
          · have hmk := h.1.resolve_right hm
            refine ⟨m, Or.inl rfl, ?_, Or.inl rfl, h.1⟩
            rw [hmk]
            exact h'.1
        obtain ⟨l, hm, hn, hl, hk⟩ := haxis
        refine ⟨l :: v, broadcastRev?_cons_iff.mpr ⟨l, v, rfl, hm, hn, hl, hv⟩, ?_⟩
        exact (broadcastRev?_cons_eq_left_iff k l u v).mpr ⟨hk, huv⟩

lemma projectRev_projectRev {s t u : List ℕ} {k : ℕ} (h : broadcastRev? u t = some u)
    (h' : broadcastRev? t s = some t) (hk : k < size u) :
    projectRev t s (projectRev u t k) = projectRev u s k := by
  induction u generalizing s t k with
  | nil =>
    cases h
    cases h'
    rfl
  | cons n u ih =>
    cases t with
    | nil =>
      cases h'
      rw [projectRev_nil, projectRev_nil]
    | cons m t =>
      cases s with
      | nil => rw [projectRev_nil, projectRev_nil]
      | cons l s =>
        rw [broadcastRev?_cons_eq_left_iff] at h h'
        rw [size_cons] at hk
        have hn : 0 < n := Nat.pos_of_ne_zero fun h0 => by simp [h0] at hk
        have hlast : k / n < size u := Nat.div_lt_of_lt_mul hk
        have hm : 0 < m := by rcases h.1 with rfl | rfl <;> omega
        have hmod : (if m = 1 then 0 else k % n) < m := by
          split
          · exact hm
          · rw [h.1.resolve_right ‹_›]
            exact Nat.mod_lt k hn
        simp only [projectRev]
        rw [Nat.add_mul_mod_self_left, Nat.mod_eq_of_lt hmod, Nat.add_mul_div_left _ _ hm,
          Nat.div_eq_of_lt hmod, Nat.zero_add, ih h.2 h'.2 hlast]
        congr 1
        by_cases hl : l = 1
        · rw [if_pos hl, if_pos hl]
        · rw [if_neg hl, if_neg hl, if_neg]
          intro hm'
          exact hl ((h'.1.resolve_right hl).trans hm')

lemma projectRev_lt {s u : List ℕ} {k : ℕ} (h : broadcastRev? u s = some u) (hk : k < size u) :
    projectRev u s k < size s := by
  induction u generalizing s k with
  | nil =>
    cases h
    exact Nat.one_pos
  | cons n u ih =>
    cases s with
    | nil =>
      rw [projectRev_nil]
      exact Nat.one_pos
    | cons m s =>
      rw [broadcastRev?_cons_eq_left_iff] at h
      rw [size_cons] at hk ⊢
      have hn : 0 < n := Nat.pos_of_ne_zero fun h0 => by simp [h0] at hk
      have hrest := ih h.2 (Nat.div_lt_of_lt_mul hk)
      have hm : 0 < m := by rcases h.1 with rfl | rfl <;> omega
      have hmod : (if m = 1 then 0 else k % n) < m := by
        split
        · exact hm
        · rw [h.1.resolve_right ‹_›]
          exact Nat.mod_lt k hn
      rw [projectRev]
      calc (if m = 1 then 0 else k % n) + m * projectRev u s (k / n)
          < m + m * projectRev u s (k / n) := Nat.add_lt_add_right hmod _
        _ = m * (projectRev u s (k / n) + 1) := by rw [Nat.mul_add, Nat.mul_one, Nat.add_comm]
        _ ≤ m * size s := Nat.mul_le_mul_left m hrest

/-! ## From the first axis -/

variable {s t u : Shape} {k : ℕ}

lemma covers_iff : Covers t s ↔ broadcastRev? t.reverse s.reverse = some t.reverse :=
  broadcast?_eq_some_iff t s t

lemma Covers.trans (h : Covers u t) (h' : Covers t s) : Covers u s :=
  covers_iff.mpr (broadcastRev?_trans (covers_iff.mp h) (covers_iff.mp h'))

/-- **The common shape covers both operands.** -/
theorem covers_of_broadcast? (h : broadcast? s t = some u) : Covers u s ∧ Covers u t := by
  have h' := h
  rw [broadcast?_comm] at h'
  rw [broadcast?_eq_some_iff] at h h'
  exact ⟨covers_iff.mpr (broadcastRev?_left h), covers_iff.mpr (broadcastRev?_left h')⟩

/-- Two operands that a shape covers have a common shape, which it covers too. -/
lemma broadcast?_of_covers (h : Covers u s) (h' : Covers u t) :
    ∃ v, broadcast? s t = some v ∧ Covers u v := by
  obtain ⟨v, hv, huv⟩ := broadcastRev?_of_covers (covers_iff.mp h) (covers_iff.mp h')
  refine ⟨v.reverse, ?_, ?_⟩
  · rw [broadcast?_eq_some_iff, List.reverse_reverse]
    exact hv
  · rw [covers_iff, List.reverse_reverse]
    exact huv

/-- **Spreading in two steps** reads what spreading in one step reads. -/
theorem project_project (h : Covers u t) (h' : Covers t s) (hk : k < size u) :
    project t s (project u t k) = project u s k :=
  projectRev_projectRev (covers_iff.mp h) (covers_iff.mp h') (by rwa [size_reverse])

/-- Only places of the operand are read. -/
lemma project_lt (h : Covers u s) (hk : k < size u) : project u s k < size s := by
  rw [← size_reverse s]
  exact projectRev_lt (covers_iff.mp h) (by rwa [size_reverse])

end PrimalDual.Shape
