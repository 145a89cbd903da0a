import Storefront.Text.Blank
import Storefront.Binary64.Text
/-!
# Amounts in texts

Two readers of numbers that people or themes have written.

* A **displayed amount** such as `$1,250.00` always yields a number: everything but ASCII digits and
  points is dropped, and the longest decimal at the front of what is left counts. What cannot be
  read is zero.
* A **threshold** typed into a form yields a number only if the whole trimmed text is a decimal
  numeral of a finite value.
-/

namespace Storefront.Amount

/-- Whether a character of a displayed amount counts: an ASCII digit or a point. -/
def counts (c : Char) : Bool := c.isDigit || c == '.'

/-- The longest part at the front of a text of digits and points that has at most one point. -/
def leadingNumeral (s : List Char) : List Char :=
  let (whole, rest) := s.span Char.isDigit
  match rest with
  | '.' :: r => whole ++ '.' :: r.takeWhile Char.isDigit
  | _ => whole

/-- The number that a displayed amount shows. -/
def ofDisplay (display : String) : Binary64 :=
  (Binary64.read? (leadingNumeral (display.toList.filter counts))).getD (Binary64.zero false)

/-- The finite number that a form field holds. -/
def threshold? (field : String) : Option Binary64 :=
  (Binary64.read? (Text.trim field.toList)).filter Binary64.isFinite

end Storefront.Amount
