import Storefront.Binary64.Basic
/-!
# Comparing and truncating binary64 numbers

Every number but not-a-number has a place on a line of integers: its value in units `2 ^ -1074`, and
for the infinities the first places beyond all finite values. Numbers compare as their places do, so
the two zeros are equal, and not-a-number compares with nothing.
-/

namespace Storefront.Binary64

/-- An integer with the given sign and absolute value. -/
def signed (negative : Bool) (n : Nat) : Int := if negative then -(n : Int) else n

/-- Where a number lies, in units; not-a-number lies nowhere. -/
def place? : Binary64 → Option Int
  | nan => none
  | infinite negative => some (signed negative unitsLimit)
  | finite negative m => some (signed negative m.units)

/-- How two numbers compare; `none` when one of them is not a number. -/
def compare? (x y : Binary64) : Option Ordering :=
  match x.place?, y.place? with
  | some a, some b => some (Ord.compare a b)
  | _, _ => none

/-- Numeric equality: the zeros are equal, and not-a-number differs from itself. -/
def sameValue (x y : Binary64) : Bool := x.compare? y == some .eq

/-- The largest signed word that is not above an integer, or the least one. -/
def clampInt64 (n : Int) : Int64 :=
  Int64.ofInt (max Int64.minValue.toInt (min Int64.maxValue.toInt n))

/-- The integer part of a number, toward zero. What lies beyond the signed words gives the limit on
that side, and not-a-number gives zero. -/
def truncate : Binary64 → Int64
  | nan => 0
  | infinite negative => clampInt64 (signed negative unitsLimit)
  | finite negative m => clampInt64 (signed negative (m.units / unitsPerOne))

end Storefront.Binary64
