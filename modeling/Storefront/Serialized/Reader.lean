import Storefront.StoredValue.Basic
import Storefront.Text.Bytes
/-!
# Reading the serialized form

The reader takes the value at the front of a text and hands on what follows it. When it gives up it
says *where*, by the text that was left at that moment, and *why*; the byte offset in a
`DecodeError` is worked out once, at the end, from the length of what was left.

Beyond what the writer produces, the reader also takes objects, `O:4:"Rule":1:{…}`: the class
name is dropped and the properties are the entries of an array.

Three limits keep hostile input harmless. Arrays and objects nest at most `maxNesting` deep. A
length or count that does not fit sixty-four bits is refused. And a count is not trusted: entries
are read one at a time, so a false count fails as soon as the text does not go on.

Which errors point where:

* a tag is consumed before it is judged, so a wrong one is reported behind itself;
* a missing literal, numeral or length is reported where it should start;
* the text of a number is consumed up to its semicolon before it is judged;
* nesting is judged before the entry count is read.
-/

namespace Storefront.Serialized

open Text

/-! ### Errors -/

/-- Why a text is not the serialized form of a value. -/
inductive Cause where
  /-- The text does not go on as it should, or ends too early, or goes on after the value. -/
  | unexpected
  /-- A value starts with a character that is no type tag. -/
  | unknownTag
  /-- An array key starts with a character that is no key tag. -/
  | unknownKeyTag
  /-- Arrays nest too deep. -/
  | nesting
  deriving DecidableEq, Repr

/-- What the error message says about a cause. -/
def Cause.detail : Cause → String
  | unexpected => ""
  | unknownTag => "expected a type tag"
  | unknownKeyTag => "expected an array key"
  | nesting => "expected shallower array nesting"

/-- Where and why decoding stopped. -/
structure DecodeError where
  /-- The place, in bytes from the start of the text. -/
  offset : Nat
  /-- The reason. -/
  cause : Cause
  deriving DecidableEq, Repr

/-- The wording of a decode error. -/
def DecodeError.message (e : DecodeError) : String :=
  "decode error at byte " ++ Text.ofNat e.offset ++ ": " ++ e.cause.detail

/-- A reader's failure: what was left of the text, and the reason. -/
structure Failure where
  /-- The text from the place of the failure on. -/
  rest : List Char
  /-- The reason. -/
  cause : Cause
  deriving DecidableEq, Repr

/-- A reader takes a value from the front of a text and hands on what follows it. -/
abbrev Reader (α : Type) := List Char → Except Failure (α × List Char)

/-! ### Pieces -/

/-- Skips the given characters. -/
def literal (expected s : List Char) : Except Failure (List Char) :=
  if expected.isPrefixOf s then .ok (s.drop expected.length) else .error ⟨s, .unexpected⟩

/-- The numeral at the front of a text: `0`, or a digit other than zero and all digits after it. -/
def numeral? (s : List Char) : Option (Nat × List Char) :=
  match s with
  | '0' :: r => some (0, r)
  | c :: _ =>
    if c.isDigit then some (digitsValue (s.takeWhile Char.isDigit), s.dropWhile Char.isDigit)
    else none
  | [] => none

/-- A length or count. -/
def length : Reader Nat := fun s ↦
  match numeral? s with
  | some (n, r) => if n < UInt64.size then .ok (n, r) else .error ⟨s, .unexpected⟩
  | none => .error ⟨s, .unexpected⟩

/-- An integer. Zero takes no sign. -/
def integer : Reader Int64 := fun s ↦
  let (negative, body) := splitSign s
  match numeral? body with
  | some (n, r) =>
    let value : Int := if negative then -(n : Int) else n
    if (n = 0 ∧ body ≠ s) ∨ value < Int64.minValue.toInt ∨
        Int64.maxValue.toInt < value then .error ⟨s, .unexpected⟩
    else .ok (Int64.ofInt value, r)
  | none => .error ⟨s, .unexpected⟩

/-- A truth value. -/
def boolean : Reader Bool
  | '0' :: s => .ok (false, s)
  | '1' :: s => .ok (true, s)
  | s => .error ⟨s, .unexpected⟩

/-- The text of a number, up to the next semicolon. -/
def float : Reader Binary64 := fun s ↦
  let (numeral, r) := s.span (· ≠ ';')
  if numeral = [] then .error ⟨s, .unexpected⟩
  else match Binary64.read? numeral with
    | some x => .ok (x, r)
    | none => .error ⟨r, .unexpected⟩

/-- A text with its length in front: `3:"yes"`. -/
def countedText : Reader String := fun s ↦ do
  let (n, s) ← length s
  let s ← literal [':', '"'] s
  match splitAtByte? n s with
  | none => .error ⟨s, .unexpected⟩
  | some (t, s) =>
    let s ← literal ['"'] s
    pure (String.ofList t, s)

/-- What stands between the colon behind a tag and the closing semicolon. -/
def scalar {α : Type} (body : Reader α) : Reader α := fun s ↦ do
  let s ← literal [':'] s
  let (x, s) ← body s
  let s ← literal [';'] s
  pure (x, s)

/-- An array key. -/
def key : Reader StoredKey
  | [] => .error ⟨[], .unexpected⟩
  | tag :: s =>
    if tag = 'i' then (scalar integer s).map fun (n, s) ↦ (.position n, s)
    else if tag = 's' then (scalar countedText s).map fun (t, s) ↦ (.name t, s)
    else .error ⟨s, .unknownKeyTag⟩

/-! ### Values -/

/-- The given number of keys and values, each value read by `element`. -/
def entries (element : Reader StoredValue) : Nat → Reader (List (StoredKey × StoredValue))
  | 0, s => .ok ([], s)
  | n + 1, s => do
    let (k, s) ← key s
    let (v, s) ← element s
    let (es, s) ← entries element n s
    pure ((k, v) :: es, s)

/-- An array from its count on: `1:{i:0;N;}`. -/
def arrayBody (element : Reader StoredValue) : Reader StoredValue := fun s ↦ do
  let (n, s) ← length s
  let s ← literal [':', '{'] s
  let (es, s) ← entries element n s
  let s ← literal ['}'] s
  pure (.array es, s)

/-- The class name of an object, and the colon behind it. -/
def className (s : List Char) : Except Failure (List Char) := do
  let (_, s) ← countedText s
  literal [':'] s

/-- A value, with the bodies of arrays read by `body`. -/
def tagged (body : Reader StoredValue) : Reader StoredValue
  | [] => .error ⟨[], .unexpected⟩
  | tag :: s =>
    match tag with
    | 'N' => do let s ← literal [';'] s; pure (.null, s)
    | 'b' => (scalar boolean s).map fun (b, s) ↦ (.bool b, s)
    | 'i' => (scalar integer s).map fun (n, s) ↦ (.int n, s)
    | 'd' => (scalar float s).map fun (x, s) ↦ (.float x, s)
    | 's' => (scalar countedText s).map fun (t, s) ↦ (.text t, s)
    | 'a' => do let s ← literal [':'] s; body s
    | 'O' => do let s ← literal [':'] s; let s ← className s; body s
    | _ => .error ⟨s, .unknownTag⟩

/-- A value in which arrays nest at most `room` deep. -/
def value : Nat → Reader StoredValue
  | 0 => tagged fun s ↦ .error ⟨s, .nesting⟩
  | room + 1 => tagged fun s ↦ arrayBody (value room) s

/-! ### Whole texts -/

/-- How deep arrays and objects may nest. -/
def maxNesting : Nat := 32

/-- The error that a failure amounts to within the whole text `s`. -/
def Failure.within (s : List Char) (f : Failure) : DecodeError :=
  ⟨byteLength s - byteLength f.rest, f.cause⟩

/-- The value that a text without blanks at its end is the serialized form of. -/
def decodeChars (s : List Char) : Except DecodeError StoredValue :=
  match value maxNesting s with
  | .ok (v, []) => .ok v
  | .ok (_, rest) => .error (Failure.within s ⟨rest, .unexpected⟩)
  | .error f => .error (f.within s)

/-- The value that a text is the serialized form of; blanks at its end are ignored. -/
def decode (input : String) : Except DecodeError StoredValue :=
  decodeChars (trimEnd input.toList)

/-! ### Telling serialized texts from plain ones -/

/-- Whether a trimmed text has the outline of a serialized value: the null form, or a type tag and a
colon in front and a semicolon or closing brace at the end. -/
def hasOutline (s : List Char) : Bool :=
  s == ['N', ';'] ||
    (match s with
      | tag :: ':' :: _ => ['a', 'O', 's', 'i', 'd', 'b'].contains tag
      | _ => false) &&
    (match s.getLast? with
      | some last => last == ';' || last == '}'
      | none => false)

/-- The value of a text found in the options table: what looks serialized is decoded, anything else
is kept as it stands. -/
def ofStoredText (raw : String) : Except DecodeError StoredValue :=
  if hasOutline (trim raw.toList) then decode raw else .ok (.text raw)

end Storefront.Serialized
