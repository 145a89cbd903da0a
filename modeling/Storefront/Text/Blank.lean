/-!
# Blank characters

The Unicode property `White_Space` as a table of closed code point ranges, and trimming by it.

Stored values come out of form fields and option rows, so blanks at their ends carry no meaning:
every reader of this library trims first. The class is the Unicode one, not the ASCII one. It holds
NEL, the no-break space, the en and em spaces and the ideographic space; it does not hold the
zero-width space, the byte order mark or the information separators `U+001C` to `U+001F`.
-/

namespace Storefront.Text

/-- The closed ranges of code points that have the property `White_Space`, ascending. -/
def blankRanges : List (Nat × Nat) :=
  [(0x09, 0x0D), (0x20, 0x20), (0x85, 0x85), (0xA0, 0xA0), (0x1680, 0x1680), (0x2000, 0x200A),
    (0x2028, 0x2029), (0x202F, 0x202F), (0x205F, 0x205F), (0x3000, 0x3000)]

/-- A character is blank when its code point lies in one of `blankRanges`. -/
def isBlank (c : Char) : Bool :=
  blankRanges.any fun (low, high) ↦ low ≤ c.toNat && c.toNat ≤ high

/-- A text without the blanks it ends in. -/
def trimEnd (s : List Char) : List Char :=
  (s.reverse.dropWhile isBlank).reverse

/-- A text without the blanks it starts with and those it ends in. -/
def trim (s : List Char) : List Char :=
  trimEnd (s.dropWhile isBlank)

/-- `trim` on strings. -/
def trimmed (s : String) : String :=
  String.ofList (trim s.toList)

/-- A text trimmed, unless nothing is left of it. -/
def trimmed? (s : String) : Option String :=
  let t := trimmed s
  if t.isEmpty then none else some t

/-! ### What trimming removes -/

/-- Trimming removes blanks only: what follows the trimmed part is blank throughout. -/
theorem exists_eq_trimEnd_append (s : List Char) :
    ∃ w, s = trimEnd s ++ w ∧ ∀ c ∈ w, isBlank c = true := by
  refine ⟨(s.reverse.takeWhile isBlank).reverse, ?_, ?_⟩
  · rw [trimEnd, ← List.reverse_append, List.takeWhile_append_dropWhile, List.reverse_reverse]
  · intro c hc
    have hall : (s.reverse.takeWhile isBlank).all isBlank = true := List.all_takeWhile
    exact List.all_eq_true.1 hall c (List.mem_reverse.1 hc)

end Storefront.Text
