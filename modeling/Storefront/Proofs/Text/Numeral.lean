import Storefront.Text.Blank
import Storefront.Text.Numeral
import Mathlib.Data.List.DropRight
import Mathlib.Data.List.TakeDrop
import Mathlib.Tactic.Ring
/-!
# Numerals read back

What is written as a numeral is read back as the same number, alone or in front of a text that does
not go on with a digit, and it survives trimming because it holds no blank.

* `readInt64?_ofInt64`, `readUInt64?_ofUInt64`: words read back.
* `exists_digits_eq_cons`: the digits of a number other than zero start with a digit other than
  zero, which is what a reader that allows no leading zero looks at.
* `trim_eq_self`, `trimEnd_append`: trimming a text without blanks, and blanks behind a text.
-/

namespace Storefront.Text

/-! ### Cutting a text where a class of characters ends -/

/-- A text that does not start with a character of a class. -/
def StopsAt (p : Char → Bool) (rest : List Char) : Prop := ∀ c ∈ rest.head?, p c = false

theorem stopsAt_nil (p : Char → Bool) : StopsAt p [] := by
  intro c hc
  cases hc

theorem stopsAt_cons {p : Char → Bool} {c : Char} (h : p c = false) (rest : List Char) :
    StopsAt p (c :: rest) := by
  intro d hd
  cases hd
  exact h

section

variable {p : Char → Bool} {front rest : List Char}

theorem takeWhile_append_of_stopsAt (hfront : ∀ c ∈ front, p c = true) (hrest : StopsAt p rest) :
    (front ++ rest).takeWhile p = front := by
  rw [List.takeWhile_append_of_pos hfront]
  cases rest with
  | nil => simp
  | cons c rest => simp [hrest c rfl]

theorem dropWhile_append_of_stopsAt (hfront : ∀ c ∈ front, p c = true) (hrest : StopsAt p rest) :
    (front ++ rest).dropWhile p = rest := by
  rw [List.dropWhile_append_of_pos hfront]
  cases rest with
  | nil => rfl
  | cons c rest => simp [hrest c rfl]

theorem span_append_of_stopsAt (hfront : ∀ c ∈ front, p c = true) (hrest : StopsAt p rest) :
    (front ++ rest).span p = (front, rest) := by
  rw [List.span_eq_takeWhile_dropWhile, takeWhile_append_of_stopsAt hfront hrest,
    dropWhile_append_of_stopsAt hfront hrest]

theorem span_of_forall (hfront : ∀ c ∈ front, p c = true) : front.span p = (front, []) := by
  have happend := span_append_of_stopsAt hfront (stopsAt_nil p)
  rwa [List.append_nil] at happend

end

/-! ### Digits -/

theorem foldl_digits (n : Nat) (ds : List Char) :
    ds.foldl (fun n c ↦ 10 * n + digitValue c) n = n * 10 ^ ds.length + digitsValue ds := by
  induction ds generalizing n with
  | nil => simp [digitsValue]
  | cons c ds ih =>
    rw [digitsValue, List.foldl_cons, List.foldl_cons, ih, ih (10 * 0 + _), List.length_cons]
    ring

theorem digitsValue_append (as bs : List Char) :
    digitsValue (as ++ bs) = digitsValue as * 10 ^ bs.length + digitsValue bs := by
  rw [digitsValue, List.foldl_append, foldl_digits]
  rfl

theorem digitsValue_replicate_zero (k : Nat) : digitsValue (List.replicate k '0') = 0 := by
  induction k with
  | zero => rfl
  | succ k ih =>
    rw [List.replicate_succ, ← List.singleton_append, digitsValue_append, ih]
    simp [digitsValue, digitValue]

/-- The digits of a number start with a digit, and with another one than zero if the number is not
zero. -/
theorem exists_digits_eq_cons (n : Nat) :
    ∃ c ds, digits n = c :: ds ∧ c.isDigit = true ∧ (n ≠ 0 → c ≠ '0') := by
  induction n using Nat.strongRecOn with
  | _ n ih =>
    rw [digits]
    split
    · next h =>
      refine ⟨digitChar n, [], rfl, isDigit_digitChar h, fun hn heq ↦ hn ?_⟩
      rw [← digitValue_digitChar h, heq]
      rfl
    · next h =>
      obtain ⟨c, ds, heq, hdigit, hzero⟩ := ih (n / 10) (by omega)
      exact ⟨c, ds ++ [digitChar (n % 10)], by rw [heq, List.cons_append], hdigit,
        fun _ ↦ hzero (by omega)⟩

theorem digits_zero : digits 0 = ['0'] := by
  rw [digits]
  rfl

/-- A text that starts with neither sign has none. -/
theorem splitSign_of_ne_head? {s : List Char} (hminus : s.head? ≠ some '-')
    (hplus : s.head? ≠ some '+') : splitSign s = (false, s) := by
  unfold splitSign
  split
  · exact absurd rfl hminus
  · exact absurd rfl hplus
  · rfl

/-- A text that starts with a digit has no sign. -/
theorem splitSign_of_isDigit {c : Char} (h : c.isDigit = true) (s : List Char) :
    splitSign (c :: s) = (false, c :: s) := by
  have hne {sign : Char} (hsign : sign.isDigit = false) : (c :: s).head? ≠ some sign := by
    intro heq
    rw [← Option.some.inj heq, h] at hsign
    cases hsign
  exact splitSign_of_ne_head? (hne rfl) (hne rfl)

theorem splitSign_digits_append (n : Nat) (s : List Char) :
    splitSign (digits n ++ s) = (false, digits n ++ s) := by
  obtain ⟨c, ds, heq, hdigit, -⟩ := exists_digits_eq_cons n
  rw [heq]
  exact splitSign_of_isDigit hdigit _

theorem splitSign_digits (n : Nat) : splitSign (digits n) = (false, digits n) := by
  have happend := splitSign_digits_append n []
  rwa [List.append_nil] at happend

/-! ### Reading what was written -/

theorem readDigits?_digits (n : Nat) : readDigits? (digits n) = some n := by
  have hall : (digits n).all Char.isDigit = true :=
    List.all_eq_true.2 fun _ hc ↦ isDigit_of_mem_digits hc
  rw [readDigits?, if_pos ⟨digits_ne_nil n, hall⟩, digitsValue_digits]

theorem readInt?_writeInt (n : Int) : readInt? (writeInt n) = some n := by
  rw [readInt?, writeInt]
  by_cases h : n < 0
  · have hsign : splitSign ('-' :: digits n.natAbs) = (true, digits n.natAbs) := rfl
    simp only [if_pos h, hsign, readDigits?_digits, if_true]
    show some (-(n.natAbs : Int)) = some n
    rw [Int.ofNat_natAbs_of_nonpos (Int.le_of_lt h), Int.neg_neg]
  · simp only [if_neg h, splitSign_digits, readDigits?_digits, Bool.false_eq_true, if_false]
    show some (n.natAbs : Int) = some n
    rw [Int.natAbs_of_nonneg (Int.not_lt.1 h)]

/-- A signed word is read back from its numeral. -/
@[simp] theorem readInt64?_ofInt64 (n : Int64) : readInt64? (ofInt64 n) = some n := by
  rw [readInt64?, ofInt64, String.toList_ofList, readInt?_writeInt, Option.bind_some,
    if_pos ⟨n.minValue_le_toInt, n.toInt_le⟩, Int64.ofInt_toInt]

/-- An unsigned word is read back from its numeral. -/
@[simp] theorem readUInt64?_ofUInt64 (n : UInt64) : readUInt64? (ofUInt64 n) = some n := by
  simp only [readUInt64?, ofUInt64, String.toList_ofList, splitSign_digits, readDigits?_digits,
    Bool.false_eq_true, if_false, Option.bind_some, if_pos n.toNat_lt, UInt64.ofNat_toNat]

/-! ### Blanks -/

theorem isBlank_of_isDigit {c : Char} (h : c.isDigit = true) : isBlank c = false := by
  simp only [Char.isDigit, ge_iff_le, Bool.and_eq_true, decide_eq_true_eq, UInt32.le_iff_toNat_le]
    at h
  have hlow : 48 ≤ c.toNat := h.1
  have hhigh : c.toNat ≤ 57 := h.2
  simp [isBlank, blankRanges]
  omega

/-- Blanks behind a text are trimmed with whatever else ends it. -/
theorem trimEnd_append {w : List Char} (hw : ∀ c ∈ w, isBlank c = true) (s : List Char) :
    trimEnd (s ++ w) = trimEnd s := by
  rw [trimEnd, List.reverse_append,
    List.dropWhile_append_of_pos fun c hc ↦ hw c (List.mem_reverse.1 hc), trimEnd]

/-- A text behind which something other than blanks stands keeps its end. -/
theorem trimEnd_append_of_not_forall {t : List Char} (ht : ¬ ∀ c ∈ t, isBlank c = true)
    (s : List Char) : trimEnd (s ++ t) = s ++ trimEnd t ∧ trimEnd t ≠ [] := by
  have hne : t.reverse.dropWhile isBlank ≠ [] := by
    rw [Ne, List.dropWhile_eq_nil_iff]
    exact fun h ↦ ht fun c hc ↦ h c (List.mem_reverse.2 hc)
  refine ⟨?_, by rwa [trimEnd, Ne, List.reverse_eq_nil_iff]⟩
  rw [trimEnd, List.reverse_append, List.dropWhile_append, if_neg (by simpa using hne),
    List.reverse_append, List.reverse_reverse, trimEnd]

/-- A text that does not end in a blank keeps its end. -/
theorem trimEnd_append_singleton {c : Char} (h : isBlank c = false) (s : List Char) :
    trimEnd (s ++ [c]) = s ++ [c] := by
  simp [trimEnd, h]

/-- A text without blanks is left as it is. -/
theorem trim_eq_self {s : List Char} (h : ∀ c ∈ s, isBlank c = false) : trim s = s := by
  have hfront : s.dropWhile isBlank = s := by
    cases s with
    | nil => rfl
    | cons c s => simp [h c List.mem_cons_self]
  rw [trim, hfront]
  rcases List.eq_nil_or_concat s with rfl | ⟨s, c, rfl⟩
  · rfl
  · rw [List.concat_eq_append] at h ⊢
    exact trimEnd_append_singleton (h c (by simp)) s

/-- Trimming leaves nothing to trim. -/
theorem trim_trim (s : List Char) : trim (trim s) = trim s := by
  have hstart : trim s <+: s.dropWhile isBlank := List.rdropWhile_prefix isBlank _
  -- What trimming leaves starts as the text without its leading blanks does.
  have hfront : (trim s).dropWhile isBlank = trim s := by
    rw [List.dropWhile_eq_self_iff]
    intro hpos
    rw [hstart.getElem hpos]
    exact List.dropWhile_eq_self_iff.1 (List.dropWhile_idempotent isBlank s) _
  rw [trim, hfront]
  exact List.rdropWhile_idempotent isBlank _

theorem trimmed_trimmed (s : String) : trimmed (trimmed s) = trimmed s := by
  rw [trimmed, trimmed, String.toList_ofList, trim_trim]

theorem trimmed_ofList {s : List Char} (h : ∀ c ∈ s, isBlank c = false) :
    trimmed (String.ofList s) = String.ofList s := by
  rw [trimmed, String.toList_ofList, trim_eq_self h]

end Storefront.Text
