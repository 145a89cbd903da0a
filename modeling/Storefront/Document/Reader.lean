import Storefront.Document.Basic
/-!
# Reading JSON texts

The strict grammar: blanks are space, tab, line feed and carriage return; no comments, no trailing
commas, no leading zeros, no bare words but `true`, `false` and `null`; control characters inside
strings are written as escapes. Nothing but blanks may follow the value.

Reading gives `none` only where the grammar is broken. Parts that follow the grammar and stand for
nothing come out as `Document.unreadable`.
-/

namespace Storefront.Document

open Text

/-! ### Blanks and words -/

/-- Whether a character may stand between the tokens of a JSON text. -/
def isGap (c : Char) : Bool := c == ' ' || c == '\t' || c == '\n' || c == '\r'

/-- A text without the gap it starts with. -/
def skipGap (s : List Char) : List Char := s.dropWhile isGap

/-- What follows a word at the front of a text. -/
def afterWord? (word s : List Char) : Option (List Char) :=
  if word.isPrefixOf s then some (s.drop word.length) else none

/-! ### Strings -/

/-- A piece of a string: a character, or a UTF-16 code unit given by a `\u` escape. -/
inductive Piece where
  /-- A character that stands for itself or is given by a short escape. -/
  | char (c : Char)
  /-- A code unit. -/
  | unit (u : Nat)

/-- The value of a hexadecimal digit. -/
def hexValue? (c : Char) : Option Nat :=
  if c.isDigit then some (c.toNat - '0'.toNat)
  else if 'a' ≤ c ∧ c ≤ 'f' then some (c.toNat - 'a'.toNat + 10)
  else if 'A' ≤ c ∧ c ≤ 'F' then some (c.toNat - 'A'.toNat + 10)
  else none

/-- The number that four hexadecimal digits stand for. -/
def hexUnit? (a b c d : Char) : Option Nat := do
  let a ← hexValue? a
  let b ← hexValue? b
  let c ← hexValue? c
  let d ← hexValue? d
  pure (((a * 16 + b) * 16 + c) * 16 + d)

/-- The character that a short escape stands for. -/
def shortEscape? : Char → Option Char
  | '"' => some '"'
  | '\\' => some '\\'
  | '/' => some '/'
  | 'b' => some '\x08'
  | 'f' => some '\x0c'
  | 'n' => some '\n'
  | 'r' => some '\r'
  | 't' => some '\t'
  | _ => none

/-- The pieces of a string up to its closing quote, and what follows. -/
def pieces? : List Char → Option (List Piece × List Char)
  | [] => none
  | '"' :: s => some ([], s)
  | '\\' :: 'u' :: a :: b :: c :: d :: s => do
    let u ← hexUnit? a b c d
    let (ps, rest) ← pieces? s
    pure (.unit u :: ps, rest)
  | '\\' :: e :: s => do
    let c ← shortEscape? e
    let (ps, rest) ← pieces? s
    pure (.char c :: ps, rest)
  | c :: s =>
    if c.toNat < 0x20 ∨ c = '\\' then none
    else (pieces? s).map fun (ps, rest) ↦ (.char c :: ps, rest)

/-- Whether a code unit is the first half of a surrogate pair. -/
def isHighSurrogate (u : Nat) : Bool := 0xD800 ≤ u && u < 0xDC00

/-- Whether a code unit is the second half of a surrogate pair. -/
def isLowSurrogate (u : Nat) : Bool := 0xDC00 ≤ u && u < 0xE000

/-- The characters that pieces stand for; none if half of a surrogate pair stands alone. -/
def joinPieces? : List Piece → Option (List Char)
  | [] => some []
  | .char c :: ps => (joinPieces? ps).map (c :: ·)
  | .unit u :: .unit v :: ps =>
    if isHighSurrogate u then
      if isLowSurrogate v then
        (joinPieces? ps).map
          (Char.ofNat (0x10000 + (u - 0xD800) * 0x400 + (v - 0xDC00)) :: ·)
      else none
    else if isLowSurrogate u then none
    else (joinPieces? (.unit v :: ps)).map (Char.ofNat u :: ·)
  | .unit u :: ps =>
    if isHighSurrogate u || isLowSurrogate u then none
    else (joinPieces? ps).map (Char.ofNat u :: ·)

/-- A string after its opening quote, and what follows it. The text is missing when the string
stands for nothing. -/
def string? (s : List Char) : Option (Option String × List Char) :=
  (pieces? s).map fun (ps, rest) ↦ ((joinPieces? ps).map String.ofList, rest)

/-! ### Values -/

/-- How many arrays and objects may stand around a value that is still readable. -/
def maxNesting : Nat := 127

/-- The document of an array or object that stands inside `depth` others. -/
def limited (depth : Nat) (d : Document) : Document := if depth < maxNesting then d else unreadable

mutual

/-- A value that stands inside `depth` arrays and objects, and what follows it. Every step of the
reading takes one off `steps`; twice the length of the text is always enough. -/
def value? (steps depth : Nat) (s : List Char) : Option (Document × List Char) :=
  match steps with
  | 0 => none
  | steps + 1 =>
    match skipGap s with
    | 'n' :: s => (afterWord? ['u', 'l', 'l'] s).map (null, ·)
    | 't' :: s => (afterWord? ['r', 'u', 'e'] s).map (bool true, ·)
    | 'f' :: s => (afterWord? ['a', 'l', 's', 'e'] s).map (bool false, ·)
    | '"' :: s => (string? s).map fun (t, rest) ↦ ((t.map text).getD unreadable, rest)
    | '[' :: s =>
      match skipGap s with
      | ']' :: rest => some (limited depth (list []), rest)
      | s => (items? steps (depth + 1) s).map fun (ds, rest) ↦ (limited depth (list ds), rest)
    | '{' :: s =>
      match skipGap s with
      | '}' :: rest => some (limited depth (object []), rest)
      | s => (members? steps (depth + 1) s).map fun (ms, rest) ↦
          (limited depth ((ms.map object).getD unreadable), rest)
    | s => (Numeral.read? s).map fun (n, rest) ↦ (ofNumeral n, rest)

/-- The items of an array up to its closing bracket, and what follows. -/
def items? (steps depth : Nat) (s : List Char) : Option (List Document × List Char) :=
  match steps with
  | 0 => none
  | steps + 1 => do
    let (d, s) ← value? steps depth s
    match skipGap s with
    | ']' :: rest => pure ([d], rest)
    | ',' :: s =>
      let (ds, rest) ← items? steps depth s
      pure (d :: ds, rest)
    | _ => none

/-- The members of an object up to its closing brace, and what follows. They are missing when a name
stands for nothing. -/
def members? (steps depth : Nat) (s : List Char) :
    Option (Option (List (String × Document)) × List Char) :=
  match steps with
  | 0 => none
  | steps + 1 => do
    let s ← afterWord? ['"'] (skipGap s)
    let (name, s) ← string? s
    let s ← afterWord? [':'] (skipGap s)
    let (d, s) ← value? steps depth s
    let m := name.map fun n ↦ (n, d)
    match skipGap s with
    | '}' :: rest => pure (m.map fun m ↦ [m], rest)
    | ',' :: s =>
      let (ms, rest) ← members? steps depth s
      pure (m.bind fun m ↦ ms.map (m :: ·), rest)
    | _ => none

end

/-- The document of a JSON text, unreadable parts included. -/
def parse? (s : String) : Option Document := do
  let chars := s.toList
  let (d, rest) ← value? (2 * chars.length + 2) 0 chars
  if skipGap rest = [] then some d else none

/-- The document of a JSON text that is readable throughout. -/
def read? (s : String) : Option Document := (parse? s).filter isReadable

end Storefront.Document
