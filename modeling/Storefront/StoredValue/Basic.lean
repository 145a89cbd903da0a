import Storefront.Text.Blank
import Storefront.Text.Numeral
import Storefront.Binary64.Text
/-!
# Stored values

What an options table holds under a name: a scalar, or an array whose entries are ordered and keyed
by integers or names. Nothing keeps a key from occurring twice; look-ups take the first entry.

A configuration field is an array with one entry per rule-set, keyed by the index of the rule-set.
An index may be spelt as an integer key or as the decimal text of one, so `5`, `"5"` and `"05"` name
the same entry.

Values come from forms and from other software, so every reading of one is partial: a value has a
text, is a list of texts, is a list of ids, or is blank.
-/

namespace Storefront

open Text

/-- The key of an array entry. -/
inductive StoredKey where
  /-- An integer. -/
  | position (n : Int64)
  /-- A name. -/
  | name (s : String)
  deriving DecidableEq

/-- A value in the options table. -/
inductive StoredValue where
  /-- No value. -/
  | null
  /-- A truth value. -/
  | bool (b : Bool)
  /-- An integer. -/
  | int (n : Int64)
  /-- A number that need not be whole. -/
  | float (x : Binary64)
  /-- A text. -/
  | text (s : String)
  /-- Entries in order. -/
  | array (entries : List (StoredKey × StoredValue))

namespace StoredKey

/-- The rule-set index that a key spells, if it spells one. -/
def index? : StoredKey → Option UInt64
  | position n => if 0 ≤ n then some n.toUInt64 else none
  | name s => readUInt64? s

/-- Whether a key is the given name. An integer key answers to every spelling of its number. -/
def answersTo (field : String) : StoredKey → Bool
  | position n => readInt64? field == some n
  | name s => s == field

/-- The key under which the entry of an index is written. -/
def ofIndex (i : UInt64) : StoredKey := position i.toInt64

end StoredKey

namespace StoredValue

instance : Inhabited StoredValue := ⟨null⟩

/-! ### Making arrays -/

/-- The array with the given values under the given indices. -/
def indexed (values : List (UInt64 × StoredValue)) : StoredValue :=
  array (values.map fun (i, v) ↦ (StoredKey.ofIndex i, v))

/-- The array with the given values under the keys `0`, `1`, `2`, … -/
def list (values : List StoredValue) : StoredValue :=
  array (values.zipIdx.map fun (v, i) ↦ (StoredKey.position (Int64.ofNat i), v))

/-- A list of texts. -/
def texts (values : List String) : StoredValue := list (values.map text)

/-- A list of ids, each written as text, as a form submits them. -/
def ids (values : List UInt64) : StoredValue := texts (values.map ofUInt64)

/-! ### Reading arrays -/

/-- The entries of an array; a scalar has none. -/
def entries : StoredValue → List (StoredKey × StoredValue)
  | array es => es
  | _ => []

/-- How many entries an array has. -/
def size? : StoredValue → Option Nat
  | array es => some es.length
  | _ => none

/-- The first entry whose key spells an index. -/
def at? (v : StoredValue) (i : UInt64) : Option StoredValue :=
  (v.entries.find? fun e ↦ e.1.index? == some i).map (·.2)

/-- The first entry whose key is a name. -/
def field? (v : StoredValue) (field : String) : Option StoredValue :=
  (v.entries.find? fun e ↦ e.1.answersTo field).map (·.2)

/-- The indices that the keys spell, in entry order. -/
def indices (v : StoredValue) : List UInt64 :=
  v.entries.filterMap (·.1.index?)

/-! ### Reading scalars -/

/-- Whether a value counts as unset: no value, `false`, a text of blanks, or an array without
entries. A number never does, not even zero. -/
def isBlank : StoredValue → Bool
  | null => true
  | bool b => !b
  | int _ => false
  | float _ => false
  | text s => (trimmed s).isEmpty
  | array es => es.isEmpty

/-- The text of a scalar: `true` is `1` and `false` the empty text. -/
def text? : StoredValue → Option String
  | null => none
  | bool b => some (if b then "1" else "")
  | int n => some (ofInt64 n)
  | float x => some x.toText
  | text s => some s
  | array _ => none

/-- The trimmed text of a scalar, unless nothing is left of it. -/
def trimmedText? (v : StoredValue) : Option String :=
  v.text?.bind Text.trimmed?

/-- The trimmed texts of an array's scalar entries, or of a lone scalar; empty ones are left out. -/
def toTexts : StoredValue → List String
  | array es => es.filterMap fun e ↦ e.2.trimmedText?
  | v => v.trimmedText?.toList

/-- The ids among the texts of a value; texts that are no ids are left out. -/
def toIds (v : StoredValue) : List UInt64 := v.toTexts.filterMap readUInt64?

end StoredValue

end Storefront
