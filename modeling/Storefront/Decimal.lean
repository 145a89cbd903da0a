import Storefront.Text.Numeral
/-!
# Decimal numerals

A decimal is a sign, a coefficient and a power of ten. Two texts of it matter here.

* **Reading** takes an optional sign, digits with at most one point among or beside them, and an
  optional exponent: `12`, `.5`, `5.`, `-1.5e3`. At least one digit stands outside the exponent and
  at least one inside it. Blanks, separators and hexadecimal forms are not read.
* **Positional text** writes the digits out with zeros where they are needed and never uses an
  exponent: `0.0000001`, `1000000000000000000000`. A whole number carries no point.
-/

namespace Storefront

open Text

/-- The number `± coefficient · 10 ^ exponent`. The sign is kept apart, so that there are two
zeros. -/
structure Decimal where
  /-- Whether the numeral carries a minus sign. -/
  negative : Bool
  /-- The digits read as a whole number. -/
  coefficient : Nat
  /-- The power of ten that scales the coefficient. -/
  exponent : Int
  deriving DecidableEq, Repr

namespace Decimal

/-! ### Reading -/

/-- The exponent part that ends a numeral: nothing, or an `e` of either case and a signed
numeral. -/
def readExponent? : List Char → Option Int
  | [] => some 0
  | c :: s => if c = 'e' ∨ c = 'E' then readInt? s else none

/-- The fraction digits after a point, if there is one, and what follows them. -/
def splitFraction : List Char → List Char × List Char
  | '.' :: s => s.span Char.isDigit
  | s => ([], s)

/-- An unsigned decimal, given the sign found in front of it. -/
def readUnsigned? (negative : Bool) (s : List Char) : Option Decimal :=
  let (whole, afterWhole) := s.span Char.isDigit
  let (fraction, afterFraction) := splitFraction afterWhole
  if whole = [] ∧ fraction = [] then none
  else (readExponent? afterFraction).map fun e ↦
    { negative
      coefficient := digitsValue (whole ++ fraction)
      exponent := e - fraction.length }

/-- The decimal that a whole text stands for. -/
def read? (s : List Char) : Option Decimal :=
  let (negative, body) := splitSign s
  readUnsigned? negative body

/-! ### Positional text -/

/-- A coefficient and exponent without trailing zeros in the coefficient; zero gets the exponent
zero. -/
def stripZeros (coefficient : Nat) (exponent : Int) : Nat × Int :=
  if coefficient = 0 then (0, 0)
  else if coefficient % 10 = 0 then stripZeros (coefficient / 10) (exponent + 1)
  else (coefficient, exponent)

/-- Digits with a point before the last `places` of them, filled up with zeros on the left so that
at least one digit stands before the point. -/
def placePoint (ds : List Char) (places : Nat) : List Char :=
  let padded := List.replicate (places + 1 - ds.length) '0' ++ ds
  let whole := padded.length - places
  padded.take whole ++ '.' :: padded.drop whole

/-- The positional text of an unsigned decimal. -/
def positionalDigits (coefficient : Nat) (exponent : Int) : List Char :=
  let (c, e) := stripZeros coefficient exponent
  if 0 ≤ e then digits c ++ List.replicate e.toNat '0'
  else placePoint (digits c) e.natAbs

/-- The positional text of a decimal; a zero keeps its minus sign. -/
def positional (d : Decimal) : List Char :=
  (if d.negative then ['-'] else []) ++ positionalDigits d.coefficient d.exponent

end Decimal

end Storefront
