import Storefront.StoredValue.Basic
import Storefront.Document.Basic
/-!
# Stored values given as documents

An options table can be given as a document instead of rows of text. A member name that is the text
of a signed integer becomes an integer key; members are ordered by name, and of members with equal
names the last one counts. An array is keyed `0`, `1`, `2`, … An integer beyond the signed words is
a number that need not be whole.
-/

namespace Storefront.StoredValue

open Text

/-- The array key that a member name amounts to. -/
def keyOfName (name : String) : StoredKey :=
  match readInt64? name with
  | some n => .position n
  | none => .name name

/-- The value of a number written as an integer. -/
def ofInteger (n : Int) : StoredValue :=
  if Int64.minValue.toInt ≤ n ∧ n ≤ Int64.maxValue.toInt then int (Int64.ofInt n)
  else float (Binary64.ofInt n)

/-- The array of an object's members. -/
def ofMembers (members : List (String × StoredValue)) : StoredValue :=
  array ((OrderedMap.ofList members).toList.map fun (name, v) ↦ (keyOfName name, v))

mutual

/-- The stored value that a document gives; a part that stands for nothing gives no value. -/
def ofDocument : Document → StoredValue
  | .null => null
  | .bool b => bool b
  | .integer n => ofInteger n
  | .real x => float x
  | .text s => text s
  | .list items => list (ofItems items)
  | .object members => ofMembers (ofValues members)
  | .unreadable => null

/-- The stored values of an array's items. -/
def ofItems : List Document → List StoredValue
  | [] => []
  | d :: ds => ofDocument d :: ofItems ds

/-- The members of an object with stored values. -/
def ofValues : List (String × Document) → List (String × StoredValue)
  | [] => []
  | (name, d) :: ms => (name, ofDocument d) :: ofValues ms

end

end Storefront.StoredValue
