import Storefront.Binary64.Basic
/-!
# Whole numbers scaled by powers of ten

A quick way from a decimal to a number: the coefficient is rounded to a number, and that is
multiplied or divided by the number nearest to the power of ten. Each of the steps rounds, so the
outcome can be a neighbour of the number that is nearest to the decimal (`ofDecimal`).

No power beyond `10 ^ 308` is a number. Multiplying by one is too large at once, dividing by one
goes in steps.
-/

namespace Storefront.Binary64

/-- The number nearest to a power of ten, in units. -/
def powerOfTen (k : Nat) : Nat := roundUnits (Nat.pow 10 k * unitsPerOne) 1

/-- A magnitude divided by a power of ten. -/
def divPowerOfTen (negative : Bool) (units k : Nat) : Binary64 :=
  if k ≤ 308 then ofRatio negative (units * unitsPerOne) (powerOfTen k)
  else if units = 0 then zero negative
  else divPowerOfTen negative (roundUnits (units * unitsPerOne) (powerOfTen 308)) (k - 308)
termination_by k
decreasing_by omega

/-- A whole number, multiplied or divided by a power of ten. -/
def scaled (negative : Bool) (n : Nat) (exponent : Int) : Binary64 :=
  let units := roundUnits (n * unitsPerOne) 1
  if exponent < 0 then divPowerOfTen negative units exponent.natAbs
  else if units = 0 then zero negative
  else if exponent ≤ 308 then
    ofRatio negative (units * powerOfTen exponent.toNat) unitsPerOne
  else infinite negative

end Storefront.Binary64
