import Storefront.Binary64.Order
import Storefront.Binary64.Scaled
import Storefront.Text.Numeral
/-!
# Numbers in JSON texts

A numeral is a sign, digits, digits behind a point and an exponent. It stands for a decimal
(`Numeral.decimal`) and is read as a binary64 number (`Numeral.toBinary64`), with speed before
precision: as many digits are taken up as fit a word of sixty-four bits, and the word is scaled by
the power of ten. What is read is therefore not always the number nearest to the decimal.

A whole number without fraction and exponent stays an integer as far as it fits sixty-four bits with
or without a sign. In particular `-0` is not an integer.
-/

namespace Storefront

open Text

/-- A number as a JSON text writes it. -/
structure Numeral where
  /-- Whether a minus sign is in front. -/
  negative : Bool
  /-- The digits before the point. -/
  whole : List Char
  /-- The digits behind the point, if there is one. -/
  fraction : List Char := []
  /-- The exponent, if there is one. -/
  exponent : Option Int := none
  deriving DecidableEq, Repr

namespace Numeral

/-! ### Values -/

/-- The decimal that a numeral stands for. -/
def decimal (n : Numeral) : Decimal where
  negative := n.negative
  coefficient := digitsValue (n.whole ++ n.fraction)
  exponent := n.exponent.getD 0 - n.fraction.length

/-- Digits taken up behind those of a word as long as the result is a word, and the digits that are
left over. -/
def takeDigits (word : Nat) : List Char → Nat × List Char
  | [] => (word, [])
  | c :: ds =>
    if 10 * word + digitValue c < UInt64.size then takeDigits (10 * word + digitValue c) ds
    else (word, c :: ds)

/-- The number that a numeral is read as. Digits before the point that are left over count as powers
of ten, those behind it not at all. -/
def toBinary64 (n : Numeral) : Binary64 :=
  let (word, left) := takeDigits 0 n.whole
  let (word, ignored) := takeDigits word n.fraction
  let taken : Int := n.fraction.length - ignored.length
  .scaled n.negative word (n.exponent.getD 0 + left.length - taken)

/-- Whether an integer fits sixty-four bits, with or without a sign. -/
def IsWord (n : Int) : Prop := Int64.minValue.toInt ≤ n ∧ n < UInt64.size

instance (n : Int) : Decidable (IsWord n) := inferInstanceAs (Decidable (_ ∧ _))

/-- The integer that a numeral is read as, if it is. -/
def integer? (n : Numeral) : Option Int :=
  let i := Binary64.signed n.negative (digitsValue n.whole)
  if n.fraction = [] ∧ n.exponent = none ∧ IsWord i ∧ ¬(n.negative ∧ i = 0) then some i else none

/-! ### Reading -/

/-- The digits before the point: a single zero, or digits that do not start with one. -/
def wholeDigits? (s : List Char) : Option (List Char × List Char) :=
  match s with
  | '0' :: r => some (['0'], r)
  | c :: _ => if c.isDigit then some (s.span Char.isDigit) else none
  | [] => none

/-- The digits behind a point, if there is one; at least one has to follow it. -/
def fractionDigits? : List Char → Option (List Char × List Char)
  | '.' :: s =>
    let (ds, rest) := s.span Char.isDigit
    if ds = [] then none else some (ds, rest)
  | s => some ([], s)

/-- The exponent, if there is one; at least one digit has to follow its mark. -/
def exponent? (s : List Char) : Option (Option Int × List Char) :=
  match s with
  | c :: r =>
    if c = 'e' ∨ c = 'E' then
      let (negative, body) := splitSign r
      let (ds, rest) := body.span Char.isDigit
      if ds = [] then none
      else some (some (Binary64.signed negative (digitsValue ds)), rest)
    else some (none, s)
  | [] => some (none, s)

/-- Whether there is a minus sign in front, and what follows it. -/
def minus : List Char → Bool × List Char
  | '-' :: s => (true, s)
  | s => (false, s)

/-- The numeral at the front of a text, and what follows it. -/
def read? (s : List Char) : Option (Numeral × List Char) := do
  let (negative, s) := minus s
  let (whole, s) ← wholeDigits? s
  let (fraction, s) ← fractionDigits? s
  let (exponent, s) ← exponent? s
  pure (⟨negative, whole, fraction, exponent⟩, s)

/-! ### Writing -/

/-- The text of the digits behind the point. -/
def writeFraction (fraction : List Char) : List Char :=
  if fraction = [] then [] else '.' :: fraction

/-- The text of the exponent. -/
def writeExponent : Option Int → List Char
  | some e => 'e' :: writeInt e
  | none => []

/-- The text of a numeral. -/
def write (n : Numeral) : List Char :=
  (if n.negative then ['-'] else []) ++
    (n.whole ++ (writeFraction n.fraction ++ writeExponent n.exponent))

/-- The numeral of an integer. -/
def ofInt (n : Int) : Numeral where
  negative := n < 0
  whole := digits n.natAbs

/-- The numeral of a decimal, never one that is read as an integer. The point stands in its place as
long as no more than sixteen digits are in front of it and no more than four zeros behind it; else
it stands behind the first digit and there is an exponent. -/
def ofDecimal (d : Decimal) : Numeral :=
  let (c, e) := Decimal.stripZeros d.coefficient d.exponent
  let ds := digits c
  let point := ds.length + e
  if 0 ≤ e ∧ point ≤ 16 then
    { negative := d.negative, whole := ds ++ List.replicate e.toNat '0', fraction := ['0'] }
  else if 0 < point ∧ point ≤ 16 then
    { negative := d.negative, whole := ds.take point.toNat, fraction := ds.drop point.toNat }
  else if -5 < point ∧ point ≤ 0 then
    { negative := d.negative, whole := ['0']
      fraction := List.replicate point.natAbs '0' ++ ds }
  else
    { negative := d.negative, whole := ds.take 1, fraction := ds.drop 1
      exponent := some (point - 1) }

end Numeral

end Storefront
