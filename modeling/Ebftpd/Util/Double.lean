import Ebftpd.Util.String
import Mathlib.Algebra.Group.Int.Defs
import Mathlib.Algebra.Group.Nat.Defs

/-!
# Ebftpd.Util.Double

The `double` arithmetic the code does on whole numbers: conversion, division and multiplication
round to the nearest value of 53 bits, ties to even. The values met are far from the ends of the
exponent, so a positive double is a mantissa and an exponent without bounds.
-/

namespace Ebftpd
namespace Util

/-- `n / d` to the nearest whole number, ties to even. -/
def nearest (n d : Nat) : Nat :=
  let q := n / d
  let r := n % d
  if 2 * r < d then q else if d < 2 * r then q + 1 else if q % 2 = 0 then q else q + 1

/-- The value `mantissa * 2 ^ exponent`. -/
structure Double where
  mantissa : Nat
  exponent : Int

namespace Double

/-- The quotient of `n / d` and `2 ^ e` as a fraction. -/
def scaled (n d : Nat) (e : Int) : Nat × Nat := (n * 2 ^ (-e).toNat, d * 2 ^ e.toNat)

/-- The double nearest to `n / d`. -/
def ofQuot (n d : Nat) : Double :=
  if n = 0 then ⟨0, 0⟩
  else
    -- the quotient is between 51 and 53 bits long at the first exponent
    let e : Int := (Nat.log2 n : Int) - Nat.log2 d - 52
    let (a, b) := scaled n d e
    if a < b * 2 ^ 52 then
      let (a, b) := scaled n d (e - 1)
      ⟨nearest a b, e - 1⟩
    else ⟨nearest a b, e⟩

def mul (x y : Double) : Double :=
  let e := x.exponent + y.exponent
  ofQuot (x.mantissa * y.mantissa * 2 ^ e.toNat) (2 ^ (-e).toNat)

/-- Truncation to a whole number. -/
def trunc (x : Double) : Nat := x.mantissa * 2 ^ x.exponent.toNat / 2 ^ (-x.exponent).toNat

end Double

/-- `static_cast<long long>(value * (percent / 100.0))`. A product out of range converts to the
least `long long`, as the processor has it. -/
def percentOf (value percent : Int) : Int :=
  let product :=
    ((Double.ofQuot value.natAbs 1).mul (Double.ofQuot percent.natAbs 100)).trunc
  if 2 ^ 63 ≤ product then llongMin
  else if (value < 0) = (percent < 0) then product
  else -product

/-- `percentOf` gives a `long long`. -/
theorem percentOf_bounds (value percent : Int) :
    llongMin ≤ percentOf value percent ∧ percentOf value percent ≤ llongMax := by
  simp only [percentOf, llongMin, llongMax]
  split
  · decide
  · split
    · omega
    · omega

/-- A hundred times `29 / 100.0` is less than 29. -/
example : percentOf 100 29 = 28 := by decide

end Util
end Ebftpd
