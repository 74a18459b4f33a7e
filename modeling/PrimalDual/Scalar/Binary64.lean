import PrimalDual.Scalar.Basic

/-!
# Binary64 numbers as scalars

The running program computes with binary64 numbers. The narrower formats are obtained by rounding
each result: a sum, product, quotient or square root of binary32 numbers that is computed in binary64
and then rounded is the correctly rounded one.
-/

namespace PrimalDual

instance : Scalar Float where
  ratio := nearestQuotient
  inf := 1 / 0
  nan := 0 / 0
  abs := Float.abs
  sqrt := Float.sqrt
  pow := Float.pow
  less x y := x < y
  atMost x y := x ≤ y
  isNan := Float.isNaN
  floor? := floorFloat?
  narrow := Precision.narrow
  reading := Reading.ofFloat

end PrimalDual
