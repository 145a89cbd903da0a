import Storefront.StoredValue.Basic
import Storefront.Text.Bytes
import Mathlib.Algebra.Group.Nat.Defs
/-!
# The grammar of the serialized form

Which texts spell which values, said by rules that do not mention a reader:

* a value is `N;`, `b:` TRUTH `;`, `i:` INTEGER `;`, `d:` NUMBER `;`, `s:` TEXT `;`, `a:` ARRAY or
  `O:` TEXT `:` ARRAY, the last being an object, of which the class name is dropped;
* TRUTH is `0` or `1`;
* INTEGER is `0`, or a positive numeral with at most one sign in front, and fits a signed word;
* NUMBER is a text without a semicolon that stands for a number;
* TEXT is a COUNT, `:"`, as many bytes as it says, which end where a character ends, and `"`;
* ARRAY is a COUNT, `:{`, as many keys and values as it says, and `}`;
* a key is `i:` INTEGER `;` or `s:` TEXT `;`;
* COUNT is `0` or a positive numeral and fits an unsigned word;
* a positive numeral is a digit other than zero and any digits after it.

Values are told apart by how many arrays they stand in. An array is allowed in at most thirty-one
others, so that thirty-two nest.
-/

namespace Storefront.Serialized

open Text

/-! ### Numerals -/

/-- The numerals of positive numbers: a digit other than zero, and any digits after it. -/
inductive PositiveNumeral : List Char → Prop where
  /-- The first digit and the others. -/
  | digits {c : Char} {ds : List Char} (hdigit : c.isDigit = true) (hzero : c ≠ '0')
      (hds : ∀ d ∈ ds, d.isDigit = true) : PositiveNumeral (c :: ds)

/-- The spellings of a length or count. -/
inductive SpellsCount : List Char → Nat → Prop where
  /-- None. -/
  | zero : SpellsCount ['0'] 0
  /-- Some. -/
  | positive {s : List Char} (h : PositiveNumeral s) (hfits : digitsValue s < 2 ^ 64) :
      SpellsCount s (digitsValue s)

/-- The spellings of an integer. Zero takes no sign. -/
inductive SpellsInteger : List Char → Int64 → Prop where
  /-- Zero. -/
  | zero : SpellsInteger ['0'] 0
  /-- A positive integer. -/
  | positive {s : List Char} (h : PositiveNumeral s) (hfits : digitsValue s < 2 ^ 63) :
      SpellsInteger s (Int64.ofInt (digitsValue s))
  /-- A positive integer that shows its sign. -/
  | plus {s : List Char} (h : PositiveNumeral s) (hfits : digitsValue s < 2 ^ 63) :
      SpellsInteger ('+' :: s) (Int64.ofInt (digitsValue s))
  /-- A negative integer. -/
  | minus {s : List Char} (h : PositiveNumeral s) (hfits : digitsValue s ≤ 2 ^ 63) :
      SpellsInteger ('-' :: s) (Int64.ofInt (-(digitsValue s : Int)))

/-- The spellings of a truth value. -/
inductive SpellsTruth : List Char → Bool → Prop where
  /-- False. -/
  | no : SpellsTruth ['0'] false
  /-- True. -/
  | yes : SpellsTruth ['1'] true

/-- The spellings of a number: whatever reads as one and does not hold a semicolon. -/
structure SpellsNumber (s : List Char) (x : Binary64) : Prop where
  /-- There is something to read. -/
  ne_nil : s ≠ []
  /-- The semicolon that ends a number is not part of it. -/
  notMem_semicolon : ';' ∉ s
  /-- What it stands for. -/
  read?_eq : Binary64.read? s = some x

/-! ### Texts and keys -/

/-- The spellings of a text: its length in bytes, and itself in quotes. -/
inductive SpellsText : List Char → String → Prop where
  /-- A length that is that of the text. -/
  | counted {n : List Char} {t : String} (h : SpellsCount n (byteLength t.toList)) :
      SpellsText (n ++ [':', '"'] ++ t.toList ++ ['"']) t

/-- The spellings of an array key. -/
inductive SpellsKey : List Char → StoredKey → Prop where
  /-- An integer. -/
  | position {s : List Char} {n : Int64} (h : SpellsInteger s n) :
      SpellsKey (['i', ':'] ++ s ++ [';']) (.position n)
  /-- A name. -/
  | name {s : List Char} {t : String} (h : SpellsText s t) :
      SpellsKey (['s', ':'] ++ s ++ [';']) (.name t)

/-! ### Values -/

mutual

/-- The spellings of a value that stands in `depth` arrays. -/
inductive SpellsValue : (depth : Nat) → List Char → StoredValue → Prop where
  /-- No value. -/
  | null {depth : Nat} : SpellsValue depth ['N', ';'] .null
  /-- A truth value. -/
  | bool {depth : Nat} {s : List Char} {b : Bool} (h : SpellsTruth s b) :
      SpellsValue depth (['b', ':'] ++ s ++ [';']) (.bool b)
  /-- An integer. -/
  | int {depth : Nat} {s : List Char} {n : Int64} (h : SpellsInteger s n) :
      SpellsValue depth (['i', ':'] ++ s ++ [';']) (.int n)
  /-- A number. -/
  | float {depth : Nat} {s : List Char} {x : Binary64} (h : SpellsNumber s x) :
      SpellsValue depth (['d', ':'] ++ s ++ [';']) (.float x)
  /-- A text. -/
  | text {depth : Nat} {s : List Char} {t : String} (h : SpellsText s t) :
      SpellsValue depth (['s', ':'] ++ s ++ [';']) (.text t)
  /-- An array. -/
  | array {depth : Nat} {s : List Char} {es : List (StoredKey × StoredValue)}
      (h : SpellsArray depth s es) : SpellsValue depth (['a', ':'] ++ s) (.array es)
  /-- An object. It stands for the array of its properties. -/
  | object {depth : Nat} {c s : List Char} {className : String}
      {es : List (StoredKey × StoredValue)} (hclass : SpellsText c className)
      (h : SpellsArray depth s es) :
      SpellsValue depth (['O', ':'] ++ c ++ [':'] ++ s) (.array es)

/-- The spellings of the entries of an array that stands in `depth` others, with their count. -/
inductive SpellsArray :
    (depth : Nat) → List Char → List (StoredKey × StoredValue) → Prop where
  /-- A count that is that of the entries, in an array that may stand where it does. -/
  | counted {depth : Nat} {n s : List Char} {es : List (StoredKey × StoredValue)}
      (hdepth : depth < 32) (hcount : SpellsCount n es.length)
      (h : SpellsEntries (depth + 1) s es) :
      SpellsArray depth (n ++ [':', '{'] ++ s ++ ['}']) es

/-- The spellings of entries whose values stand in `depth` arrays. -/
inductive SpellsEntries :
    (depth : Nat) → List Char → List (StoredKey × StoredValue) → Prop where
  /-- No entry. -/
  | nil {depth : Nat} : SpellsEntries depth [] []
  /-- A key, its value and further entries. -/
  | cons {depth : Nat} {ks vs s : List Char} {k : StoredKey} {v : StoredValue}
      {es : List (StoredKey × StoredValue)} (hkey : SpellsKey ks k)
      (hvalue : SpellsValue depth vs v) (h : SpellsEntries depth s es) :
      SpellsEntries depth (ks ++ vs ++ s) ((k, v) :: es)

end

end Storefront.Serialized
