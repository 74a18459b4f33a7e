/-!
# Rounding a quotient

Every number this library writes or reads passes through one integer rounding: the quotient of two
natural numbers, rounded to the nearest integer with ties going to the even neighbour.

* `roundQuotient` — the rounded quotient.
* `bitLength` — the number of binary digits of a natural number.
* `scaleQuotient` — the numerator and denominator of a quotient times a power of a base.
* `decimalPosition` — the place of the decimal point of a positive quotient.

**`roundQuotient_le`** and **`le_roundQuotient`** say that the rounded quotient stays within half a
unit of the exact one.
-/

namespace PrimalDual

/-- The integer nearest to `n / d`; a quotient halfway between two integers goes to the even one. -/
def roundQuotient (n d : Nat) : Nat :=
  let q := n / d
  let r := n % d
  if 2 * r < d then q
  else if d < 2 * r then q + 1
  else if q % 2 = 0 then q
  else q + 1

/-- The rounded quotient exceeds the exact one by at most half a unit. -/
theorem roundQuotient_le (n d : Nat) : 2 * (roundQuotient n d * d) ≤ 2 * n + d := by
  have h : d * (n / d) + n % d = n := Nat.div_add_mod n d
  have hc : n / d * d = d * (n / d) := Nat.mul_comm _ _
  simp only [roundQuotient]
  split
  · omega
  · split
    · rw [Nat.add_mul, hc]; omega
    · split
      · omega
      · rw [Nat.add_mul, hc]; omega

/-- The exact quotient exceeds the rounded one by at most half a unit. -/
theorem le_roundQuotient (n d : Nat) (hd : 0 < d) : 2 * n ≤ 2 * (roundQuotient n d * d) + d := by
  have h : d * (n / d) + n % d = n := Nat.div_add_mod n d
  have hr : n % d < d := Nat.mod_lt n hd
  have hc : n / d * d = d * (n / d) := Nat.mul_comm _ _
  simp only [roundQuotient]
  split
  · omega
  · split
    · rw [Nat.add_mul, hc]; omega
    · split
      · omega
      · rw [Nat.add_mul, hc]; omega

/-- The number of binary digits of `n`, zero for `0`. -/
def bitLength (n : Nat) : Nat :=
  if n = 0 then 0 else n.log2 + 1

/-- The quotient `n / d` times `base ^ e`, again as a numerator and a denominator. -/
def scaleQuotient (base n d : Nat) (e : Int) : Nat × Nat :=
  if 0 ≤ e then (n * Nat.pow base e.toNat, d) else (n, d * Nat.pow base (-e).toNat)

/-- Raises `p` as long as the quotient reaches `10 ^ p`, at most `fuel` times. -/
def raisePosition (n d : Nat) : Nat → Int → Int
  | 0, p => p
  | fuel + 1, p =>
    let (a, b) := scaleQuotient 10 n d (-p)
    if b ≤ a then raisePosition n d fuel (p + 1) else p

/--
The place `p` of the decimal point of a positive quotient: `10 ^ (p - 1) ≤ n / d < 10 ^ p`. The
binary lengths give it up to one place; the estimate starts two places low and is raised until the
quotient fits.
-/
def decimalPosition (n d : Nat) : Int :=
  let estimate := Int.fdiv (((bitLength n : Int) - (bitLength d : Int)) * 30103) 100000
  raisePosition n d 6 (estimate - 2)

end PrimalDual
