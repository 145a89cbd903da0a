import Storefront.Binary64.Basic
/-!
# Binary64 numbers as text

**Reading** takes a decimal numeral to the nearest number, and knows the words `inf`, `infinity` and
`nan` in any mixture of cases, each with an optional sign.

**Writing** gives the fewest significant digits that read back as the same number, at most
seventeen, in positional form. Each number `u · 2 ^ -1074` is exactly the decimal
`u · 5 ^ 1074 · 10 ^ -1074`; on the grid of its first `n` digits the two neighbours are tried, the
nearer one first and the upper one on a tie. Should no grid up to seventeen digits do, the exact
decimal is written, so that reading back holds without an appeal to the sufficiency of seventeen.
-/

namespace Storefront.Binary64

open Text

/-! ### Reading -/

/-- The values of the words that stand for a number that is not finite. -/
def ofWord? (negative : Bool) (word : List Char) : Option Binary64 :=
  if word = "nan".toList then some nan
  else if word = "inf".toList ∨ word = "infinity".toList then some (infinite negative)
  else none

/-- The number that a whole text stands for. -/
def read? (s : List Char) : Option Binary64 :=
  let (negative, body) := splitSign s
  match Decimal.readUnsigned? negative body with
  | some d => some (ofDecimal d)
  | none => ofWord? negative (body.map Char.toLower)

/-- `read?` on strings. -/
def parse? (s : String) : Option Binary64 := read? s.toList

/-! ### Writing -/

/-- How many decimal digits a number has. -/
def digitCount (n : Nat) : Nat :=
  if n < 10 then 1 else digitCount (n / 10) + 1

/-- The decimal that equals `u` units exactly. -/
def exactDecimal (negative : Bool) (u : Nat) : Decimal :=
  { negative, coefficient := u * Nat.pow 5 1074, exponent := -1074 }

/-- The decimals just below and just above `d` whose coefficient drops the last `dropped` digits,
the nearer one first. -/
def neighbours (d : Decimal) (dropped : Nat) : List Decimal :=
  let grid := Nat.pow 10 dropped
  let below := { d with coefficient := d.coefficient / grid, exponent := d.exponent + dropped }
  let above := { below with coefficient := below.coefficient + 1 }
  if 2 * (d.coefficient % grid) < grid then [below, above] else [above, below]

/-- The decimals to try for `d`: its neighbours on the grids of one to seventeen digits. -/
def shortCandidates (d : Decimal) : List Decimal :=
  let count := digitCount d.coefficient
  (List.range 17).flatMap fun i ↦ neighbours d (count - (i + 1))

/-- The decimal that a finite number is written as: the first candidate that reads back. -/
def shortest (negative : Bool) (m : Magnitude) : Decimal :=
  let exact := exactDecimal negative m.units
  ((shortCandidates exact).find? fun d ↦ ofDecimal d = finite negative m).getD exact

/-- The text of a number. -/
def write : Binary64 → List Char
  | nan => "NaN".toList
  | infinite negative => if negative then "-inf".toList else "inf".toList
  | finite negative m => (shortest negative m).positional

/-- `write` as a string. -/
def toText (x : Binary64) : String := String.ofList x.write

end Storefront.Binary64
