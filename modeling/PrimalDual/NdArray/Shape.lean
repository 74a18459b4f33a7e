/-!
# Shapes and broadcasting

A shape lists the lengths of the axes of an array, the last axis varying fastest. Two shapes fit
together when, aligned at their last axes, every two lengths agree or one of them is `1`; an axis of
length `1`, or a missing one, is repeated.

* `Shape.size` — the number of elements.
* `Shape.broadcast?` — the common shape of two.
* `Shape.project` — the element of an operand that an element of the result reads.

**`Shape.broadcast?_self`**: a shape fits itself. **`Shape.project_self`**: within one shape every
element reads its own place.
-/

namespace PrimalDual

/-- The lengths of the axes of an array, the last one varying fastest. -/
abbrev Shape := List Nat

namespace Shape

/-- The number of elements. -/
def size (s : Shape) : Nat := s.foldr (· * ·) 1

/-- The size of a shape with one more leading axis. -/
theorem size_cons (n : Nat) (s : Shape) : size (n :: s) = n * size s := rfl

/-- Sizes multiply when axes are appended. -/
theorem size_append (s t : Shape) : size (s ++ t) = size s * size t := by
  induction s with
  | nil => simp [size]
  | cons n s ih => rw [List.cons_append, size_cons, size_cons, ih, Nat.mul_assoc]

/-- The common shape, both given from the last axis. -/
def broadcastRev? : List Nat → List Nat → Option (List Nat)
  | [], t => some t
  | s, [] => some s
  | m :: s, n :: t =>
    if m = n then (broadcastRev? s t).map (m :: ·)
    else if m = 1 then (broadcastRev? s t).map (n :: ·)
    else if n = 1 then (broadcastRev? s t).map (m :: ·)
    else none

/-- The common shape of two operands, if they fit together. -/
def broadcast? (s t : Shape) : Option Shape :=
  (broadcastRev? s.reverse t.reverse).map List.reverse

/-- A reversed shape fits itself. -/
theorem broadcastRev?_self (s : List Nat) : broadcastRev? s s = some s := by
  induction s with
  | nil => rfl
  | cons m s ih => simp [broadcastRev?, ih]

/-- A shape fits itself. -/
theorem broadcast?_self (s : Shape) : broadcast? s s = some s := by
  simp [broadcast?, broadcastRev?_self]

/-- `project` on shapes given from the last axis: the result's first, then the operand's. -/
def projectRev : List Nat → List Nat → Nat → Nat
  | n :: t, m :: s, k => (if m = 1 then 0 else k % n) + m * projectRev t s (k / n)
  | _, _, _ => 0

/-- The flat index in an operand of shape `s` that the flat index `k` of shape `t` reads. -/
def project (t s : Shape) (k : Nat) : Nat := projectRev t.reverse s.reverse k

/-- The size of a reversed shape is unchanged. -/
theorem size_reverse (s : Shape) : size s.reverse = size s := by
  induction s with
  | nil => rfl
  | cons n s ih =>
    rw [List.reverse_cons, size_append, ih, size_cons, Nat.mul_comm]
    simp [size]

/-- Within one reversed shape every index reads its own place. -/
theorem projectRev_self (s : List Nat) (k : Nat) (h : k < size s) : projectRev s s k = k := by
  induction s generalizing k with
  | nil => simp [size] at h; simp [projectRev, h]
  | cons n s ih =>
    rw [size_cons] at h
    have hn : 0 < n := Nat.pos_of_ne_zero fun h0 => by simp [h0] at h
    have hk : k / n < size s := Nat.div_lt_of_lt_mul h
    have hd := Nat.mod_add_div k n
    rw [projectRev, ih _ hk]
    by_cases h1 : n = 1
    · subst h1; simp
    · simpa [h1] using hd

/-- Within one shape every index reads its own place. -/
theorem project_self (s : Shape) (k : Nat) (h : k < size s) : project s s k = k :=
  projectRev_self _ _ (by rwa [size_reverse])

/-- The axes before the last `rank`. -/
def lead (s : Shape) (rank : Nat) : Shape := s.take (s.length - rank)

/-- The last `rank` axes. -/
def tail (s : Shape) (rank : Nat) : Shape := s.drop (s.length - rank)

/-- The shape with its last `rank` axes replaced. -/
def replaceTail (s : Shape) (rank : Nat) (t : Shape) : Shape := s.lead rank ++ t

/-- The leading axes of a replaced tail and the new tail together have the new size. -/
theorem size_replaceTail (s : Shape) (rank : Nat) (t : Shape) :
    size (s.replaceTail rank t) = size (s.lead rank) * size t := size_append _ _

/-- The lengths between round brackets; one length is followed by a comma. -/
def text (s : Shape) : String :=
  match s with
  | [n] => s!"({n},)"
  | s => "(" ++ String.intercalate ", " (s.map toString) ++ ")"

end Shape

end PrimalDual
