import Storefront.Document.Numeral
import Storefront.Ordered.Map
/-!
# Documents

The value that a JSON text stands for. Members of an object are kept in the order of the text with
repeated names, because the two uses of documents treat repetition differently: an options document
lets the last one win, a record refuses them.

A number is what its numeral is read as, an integer or a binary64 number.

Some texts follow the grammar and yet stand for nothing: a number too large for binary64, a string
with half of a surrogate pair, an array nested too deep. Such a part is `unreadable`. It spoils a
document only for a reader that looks at it.
-/

namespace Storefront

/-- What a JSON text stands for. -/
inductive Document where
  /-- The literal `null`. -/
  | null
  /-- A truth value. -/
  | bool (b : Bool)
  /-- A number written as an integer that fits sixty-four bits. -/
  | integer (n : Int)
  /-- Any other number. -/
  | real (x : Binary64)
  /-- A string. -/
  | text (s : String)
  /-- An array. -/
  | list (items : List Document)
  /-- An object: its members as written. -/
  | object (members : List (String × Document))
  /-- A part that stands for nothing. -/
  | unreadable

namespace Document

instance : Inhabited Document := ⟨null⟩

mutual

/-- Whether no part of a document is unreadable. -/
def isReadable : Document → Bool
  | list items => areReadable items
  | object members => haveReadableValues members
  | unreadable => false
  | _ => true

/-- Whether no part of any of the documents is unreadable. -/
def areReadable : List Document → Bool
  | [] => true
  | d :: ds => d.isReadable && areReadable ds

/-- Whether no part of any member's value is unreadable. -/
def haveReadableValues : List (String × Document) → Bool
  | [] => true
  | (_, d) :: ms => d.isReadable && haveReadableValues ms

end

/-- The document of a numeral. -/
def ofNumeral (n : Numeral) : Document :=
  match n.integer? with
  | some i => integer i
  | none => if n.toBinary64.isFinite then real n.toBinary64 else unreadable

end Document

end Storefront
