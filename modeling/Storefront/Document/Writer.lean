import Storefront.Binary64.Text
import Storefront.Document.Basic
/-!
# Writing JSON texts

The text of a document has no gaps. A quote, a backslash and the control characters of a string are
written as escapes, every other character as itself; a number that is not finite is written as
`null`. The way to write finite numbers is given as a function.

A part that stands for nothing has no text.
-/

namespace Storefront.Document

open Text

/-! ### Strings -/

/-- The character that stands for a control character, a quote or a backslash in a short escape. -/
def shortMark? : Char → Option Char
  | '"' => some '"'
  | '\\' => some '\\'
  | '\x08' => some 'b'
  | '\x0c' => some 'f'
  | '\n' => some 'n'
  | '\r' => some 'r'
  | '\t' => some 't'
  | _ => none

/-- The hexadecimal digit of a value below sixteen. -/
def hexDigit (d : Nat) : Char :=
  if d < 10 then digitChar d else Char.ofNat ('a'.toNat + (d - 10))

/-- A character as a string holds it. -/
def escape (c : Char) : List Char :=
  match shortMark? c with
  | some mark => ['\\', mark]
  | none =>
    if c.toNat < 0x20 then ['\\', 'u', '0', '0', hexDigit (c.toNat / 16), hexDigit (c.toNat % 16)]
    else [c]

/-- The text of a string. -/
def quoted (s : String) : List Char := '"' :: s.toList.flatMap escape ++ ['"']

/-! ### Values -/

section

variable (number : Bool → Binary64.Magnitude → List Char)

mutual

/-- The text of a document, with the text that finite numbers have. -/
def chars : Document → List Char
  | null => ['n', 'u', 'l', 'l']
  | bool true => ['t', 'r', 'u', 'e']
  | bool false => ['f', 'a', 'l', 's', 'e']
  | integer n => (Numeral.ofInt n).write
  | real (.finite negative m) => number negative m
  | real _ => ['n', 'u', 'l', 'l']
  | text s => quoted s
  | list [] => ['[', ']']
  | list (d :: ds) => '[' :: (d.chars ++ moreItems ds)
  | object [] => ['{', '}']
  | object ((name, d) :: ms) => '{' :: (quoted name ++ ':' :: (d.chars ++ moreMembers ms))
  | unreadable => []

/-- The text of an array behind an item. -/
def moreItems : List Document → List Char
  | [] => [']']
  | d :: ds => ',' :: (d.chars ++ moreItems ds)

/-- The text of an object behind a member. -/
def moreMembers : List (String × Document) → List Char
  | [] => ['}']
  | (name, d) :: ms => ',' :: (quoted name ++ ':' :: (d.chars ++ moreMembers ms))

end

end

/-- The text of a document, numbers being written with the fewest digits that stand for them. -/
def toText (d : Document) : String :=
  String.ofList (d.chars fun negative m ↦
    (Numeral.ofDecimal (Binary64.shortest negative m)).write)

end Storefront.Document
