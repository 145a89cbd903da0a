import Storefront.StoredValue.Basic
import Storefront.Text.Bytes
/-!
# Writing the serialized form

The serialized form of a stored value is one line of text that can be read without looking ahead:

* `N;` for no value, `b:0;` and `b:1;` for truth values, `i:42;` for an integer;
* `d:0.5;` for a number, with `NAN`, `INF` and `-INF` for those that are not finite;
* `s:3:"yes";` for a text, its length given in bytes, so that nothing in it needs escaping;
* `a:1:{i:0;N;}` for an array, its entry count followed by each key and value in turn. A key is
  written as an integer or as a text.
-/

namespace Storefront.Serialized

open Text

/-- The serialized form of an integer. -/
def writeInt64 (n : Int64) : List Char :=
  ['i', ':'] ++ writeInt n.toInt ++ [';']

/-- The serialized form of a text. -/
def writeText (s : String) : List Char :=
  ['s', ':'] ++ digits (byteLength s.toList) ++ [':', '"'] ++ s.toList ++ ['"', ';']

/-- How the serialized form spells a number. -/
def floatText : Binary64 → List Char
  | .nan => ['N', 'A', 'N']
  | .infinite false => ['I', 'N', 'F']
  | .infinite true => ['-', 'I', 'N', 'F']
  | x => x.write

/-- The serialized form of an array key. -/
def writeKey : StoredKey → List Char
  | .position n => writeInt64 n
  | .name s => writeText s

mutual

/-- The serialized form of a value. -/
def write : StoredValue → List Char
  | .null => ['N', ';']
  | .bool false => ['b', ':', '0', ';']
  | .bool true => ['b', ':', '1', ';']
  | .int n => writeInt64 n
  | .float x => ['d', ':'] ++ floatText x ++ [';']
  | .text s => writeText s
  | .array es => ['a', ':'] ++ digits es.length ++ [':', '{'] ++ writeEntries es ++ ['}']

/-- The keys and values of an array, one after the other. -/
def writeEntries : List (StoredKey × StoredValue) → List Char
  | [] => []
  | (k, v) :: es => writeKey k ++ write v ++ writeEntries es

end

/-- The serialized form of a value as a string. -/
def toText (v : StoredValue) : String := String.ofList (write v)

end Storefront.Serialized
