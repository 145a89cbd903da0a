import Storefront.Document.Numeral
import Storefront.Proofs.Binary64.RoundTrip
import Storefront.Proofs.Binary64.Scaled
/-!
# Numerals read back and what they are read as

The text of a numeral is read as that numeral, whatever follows it, provided that nothing that could
go on with it does (`Numeral.read?_write`). The numeral of an integer is read as the integer
(`Numeral.integer?_ofInt`), and the numeral of a decimal stands for a decimal of the same value
(`Numeral.ofDecimal_decimal`).

What is read is the number nearest to the decimal if the numeral is short, so that all of its digits
fit a word, the word is a number as it is, and so is the power of ten
(`Numeral.toBinary64_of_isShort`).
-/

namespace Storefront.Numeral

open Text

variable {n : Numeral} {rest : List Char}

/-! ### Texts -/

/-- Whether a character could go on with a numeral that stands in front of it. -/
def continues (c : Char) : Bool := c.isDigit || c == '.' || c == 'e' || c == 'E'

/-- A numeral that can be written: digits in the places of digits, and no zero in front of
others. -/
structure IsWellFormed (n : Numeral) : Prop where
  /-- There is a digit before the point. -/
  whole_ne_nil : n.whole ≠ []
  /-- Only digits stand there. -/
  isDigit_of_mem_whole : ∀ c ∈ n.whole, c.isDigit = true
  /-- A zero in front stands alone. -/
  eq_of_head?_whole : n.whole.head? = some '0' → n.whole = ['0']
  /-- Only digits stand behind the point. -/
  isDigit_of_mem_fraction : ∀ c ∈ n.fraction, c.isDigit = true

theorem isDigit_of_not_continues {c : Char} (h : continues c = false) : c.isDigit = false := by
  simp only [continues, Bool.or_eq_false_iff] at h
  exact h.1.1.1

theorem stopsAt_isDigit (h : StopsAt continues rest) : StopsAt Char.isDigit rest :=
  fun c hc ↦ isDigit_of_not_continues (h c hc)

/-- An integer is its absolute value with its sign. -/
theorem signed_natAbs_eq (i : Int) : Binary64.signed (decide (i < 0)) i.natAbs = i := by
  rw [Binary64.signed]
  split
  · next hneg =>
    have hlt : i < 0 := of_decide_eq_true hneg
    omega
  · next hneg =>
    have hle : ¬ i < 0 := fun hlt ↦ hneg (decide_eq_true hlt)
    omega

theorem write_append (n : Numeral) (rest : List Char) :
    n.write ++ rest = (if n.negative then ['-'] else []) ++
      (n.whole ++ (writeFraction n.fraction ++ (writeExponent n.exponent ++ rest))) := by
  simp only [write, List.append_assoc]

/-- Nothing goes on with a fraction before its exponent. -/
theorem stopsAt_writeExponent_append {p : Char → Bool} (hp : p 'e' = false)
    (hrest : StopsAt p rest) (exponent : Option Int) :
    StopsAt p (writeExponent exponent ++ rest) := by
  cases exponent with
  | none => exact hrest
  | some e => exact stopsAt_cons hp _

/-- The exponent is read back, also where there is none. -/
theorem exponent?_writeExponent_append (h : StopsAt continues rest) (exponent : Option Int) :
    exponent? (writeExponent exponent ++ rest) = some (exponent, rest) := by
  cases exponent with
  | none =>
    show exponent? rest = some (none, rest)
    cases rest with
    | nil => rfl
    | cons c rest =>
      have hc : continues c = false := h c rfl
      have hmark : ¬ (c = 'e' ∨ c = 'E') := by
        rintro (rfl | rfl) <;> cases hc
      simp only [exponent?, if_neg hmark]
  | some e =>
    have hsign : splitSign (writeInt e ++ rest) = (decide (e < 0), digits e.natAbs ++ rest) := by
      rw [writeInt]
      split
      · next hneg => simp [splitSign, hneg]
      · next hneg => simp [splitSign_digits_append, hneg]
    have hspan : (digits e.natAbs ++ rest).span Char.isDigit = (digits e.natAbs, rest) :=
      span_append_of_stopsAt (fun _ ↦ isDigit_of_mem_digits) (stopsAt_isDigit h)
    show exponent? ('e' :: (writeInt e ++ rest)) = _
    simp only [exponent?, hsign, hspan, true_or, if_true, if_neg (digits_ne_nil _),
      digitsValue_digits, signed_natAbs_eq]

/-- So are the digits behind the point. -/
theorem fractionDigits?_writeFraction_append {fraction : List Char}
    (hfraction : ∀ c ∈ fraction, c.isDigit = true) (hpoint : rest.head? ≠ some '.')
    (hrest : StopsAt Char.isDigit rest) :
    fractionDigits? (writeFraction fraction ++ rest) = some (fraction, rest) := by
  rw [writeFraction]
  split
  · next hnil =>
    subst hnil
    show fractionDigits? rest = _
    unfold fractionDigits?
    split
    · exact absurd rfl hpoint
    · rfl
  · next hne =>
    show fractionDigits? ('.' :: (fraction ++ rest)) = _
    simp only [fractionDigits?, span_append_of_stopsAt hfraction hrest, if_neg hne]

/-- So are the digits in front of it, as a zero in front stands alone. -/
theorem wholeDigits?_append {whole : List Char} (hne : whole ≠ [])
    (hdigit : ∀ c ∈ whole, c.isDigit = true) (hzero : whole.head? = some '0' → whole = ['0'])
    (hrest : StopsAt Char.isDigit rest) : wholeDigits? (whole ++ rest) = some (whole, rest) := by
  by_cases hhead : whole.head? = some '0'
  · rw [hzero hhead]
    rfl
  · obtain ⟨c, ds, rfl⟩ := List.exists_cons_of_ne_nil hne
    have hc : c.isDigit = true := hdigit c List.mem_cons_self
    have hspan := span_append_of_stopsAt hdigit hrest
    rw [List.cons_append] at hspan ⊢
    unfold wholeDigits?
    split
    · next heq =>
      obtain rfl := (List.cons.inj heq).1
      exact absurd rfl hhead
    · next heq =>
      obtain ⟨rfl, -⟩ := List.cons.inj heq
      rw [if_pos hc, hspan]
    · next heq => cases heq

/-- So is the sign. -/
theorem minus_append (negative : Bool) {s : List Char} (hs : s.head? ≠ some '-') :
    minus ((if negative then ['-'] else []) ++ s) = (negative, s) := by
  cases negative with
  | true => rfl
  | false =>
    show minus s = (false, s)
    unfold minus
    split
    · exact absurd rfl hs
    · rfl

/-- The text of a numeral is read as the numeral. -/
theorem read?_write (hn : n.IsWellFormed) (hrest : StopsAt continues rest) :
    read? (n.write ++ rest) = some (n, rest) := by
  have hexponent := exponent?_writeExponent_append hrest n.exponent
  have hbehind : StopsAt Char.isDigit (writeExponent n.exponent ++ rest) :=
    stopsAt_writeExponent_append rfl (stopsAt_isDigit hrest) _
  have hpoint : (writeExponent n.exponent ++ rest).head? ≠ some '.' := by
    have hstops : StopsAt (· == '.') (writeExponent n.exponent ++ rest) := by
      refine stopsAt_writeExponent_append rfl (fun c hc ↦ ?_) _
      have hcontinues := hrest c hc
      simp only [continues, Bool.or_eq_false_iff] at hcontinues
      exact hcontinues.1.1.2
    exact fun hhead ↦ absurd (hstops '.' hhead) (by decide)
  have hfraction := fractionDigits?_writeFraction_append hn.isDigit_of_mem_fraction hpoint hbehind
  have hpast : StopsAt Char.isDigit
      (writeFraction n.fraction ++ (writeExponent n.exponent ++ rest)) := by
    rw [writeFraction]
    split
    · exact hbehind
    · exact stopsAt_cons rfl _
  have hwhole := wholeDigits?_append hn.whole_ne_nil hn.isDigit_of_mem_whole
    hn.eq_of_head?_whole hpast
  have hminus : (n.whole ++ (writeFraction n.fraction ++
      (writeExponent n.exponent ++ rest))).head? ≠ some '-' := by
    obtain ⟨c, ds, hcons⟩ := List.exists_cons_of_ne_nil hn.whole_ne_nil
    have hc : c.isDigit = true := hn.isDigit_of_mem_whole c (hcons ▸ List.mem_cons_self)
    rw [hcons]
    rintro ⟨⟩
    cases hc
  rw [write_append, read?, minus_append n.negative hminus]
  simp only [hwhole, hfraction, hexponent, Option.bind_eq_bind, Option.bind_some, Option.pure_def]

theorem isDigit_of_wholeDigits? {c : Char} {s : List Char} {p : List Char × List Char}
    (h : wholeDigits? (c :: s) = some p) : c.isDigit = true := by
  unfold wholeDigits? at h
  split at h
  · next heq =>
    rw [(List.cons.inj heq).1]
    rfl
  · next heq =>
    rw [(List.cons.inj heq).1]
    exact (Option.ite_none_right_eq_some.1 h).1
  · next heq => cases heq

/-- What is read as a numeral starts with a minus sign or a digit. -/
theorem exists_cons_of_read? {s : List Char} (h : read? s = some (n, rest)) :
    ∃ c t, s = c :: t ∧ (c = '-' ∨ c.isDigit = true) := by
  obtain ⟨⟨whole, after⟩, hwhole, -⟩ := Option.bind_eq_some_iff.1 h
  match s with
  | [] => cases hwhole
  | c :: t =>
    refine ⟨c, t, rfl, or_iff_not_imp_left.2 fun hminus ↦ ?_⟩
    have hsign : minus (c :: t) = (false, c :: t) := by
      unfold minus
      split
      · next heq => exact absurd (List.cons.inj heq).1 hminus
      · rfl
    replace hwhole : wholeDigits? (minus (c :: t)).2 = some (whole, after) := hwhole
    rw [hsign] at hwhole
    exact isDigit_of_wholeDigits? hwhole

/-! ### Integers -/

/-- An integer is written in digits without zeros in front. -/
theorem isWellFormed_ofInt (i : Int) : (ofInt i).IsWellFormed where
  whole_ne_nil := digits_ne_nil _
  isDigit_of_mem_whole _ := isDigit_of_mem_digits
  eq_of_head?_whole hhead := by
    obtain ⟨c, ds, heq, -, hzero⟩ := exists_digits_eq_cons i.natAbs
    by_cases hi : i.natAbs = 0
    · show digits i.natAbs = _
      rw [hi, digits_zero]
    · refine absurd ?_ (hzero hi)
      rw [show (ofInt i).whole = c :: ds from heq] at hhead
      exact Option.some.inj hhead
  isDigit_of_mem_fraction := List.forall_mem_nil _

/-- The numeral of an integer is read as the integer. -/
theorem integer?_ofInt {i : Int} (h : IsWord i) : (ofInt i).integer? = some i := by
  have hvalue : Binary64.signed (decide (i < 0)) (digitsValue (digits i.natAbs)) = i := by
    rw [digitsValue_digits, signed_natAbs_eq]
  have hzero : ¬ ((ofInt i).negative = true ∧ i = 0) := by
    rintro ⟨hneg, rfl⟩
    cases hneg
  rw [integer?]
  simp only [show Binary64.signed (ofInt i).negative (digitsValue (ofInt i).whole) = i from hvalue]
  rw [if_pos ⟨rfl, rfl, h, hzero⟩]

/-- A number with a fraction or an exponent is not read as an integer. -/
theorem integer?_eq_none (h : n.fraction ≠ [] ∨ n.exponent ≠ none) : n.integer? = none := by
  rw [integer?]
  refine if_neg fun ⟨hfraction, hexponent, _⟩ ↦ ?_
  exact h.elim (· hfraction) (· hexponent)

/-! ### Short numerals -/

/-- A numeral whose digits make a word that is a number as it is, and so is its power of ten. -/
structure IsShort (n : Numeral) : Prop where
  /-- The digits fit a word of sixty-four bits. -/
  coefficient_lt : n.decimal.coefficient < UInt64.size
  /-- At most 53 of the bits are significant. -/
  fits : Binary64.Fits n.decimal.coefficient
  /-- The power of ten is short. -/
  exponent_le : n.decimal.exponent.natAbs ≤ 22

/-- Taking up digits makes a word no smaller. -/
theorem le_foldl_digits (word : Nat) (ds : List Char) :
    word ≤ ds.foldl (fun n c ↦ 10 * n + digitValue c) word := by
  rw [foldl_digits]
  exact Nat.le_add_right_of_le (Nat.le_mul_of_pos_right _ (Nat.pow_pos (by decide)))

/-- Digits that make a word are all taken up. -/
theorem takeDigits_eq {word : Nat} {ds : List Char}
    (h : ds.foldl (fun n c ↦ 10 * n + digitValue c) word < UInt64.size) :
    takeDigits word ds = (ds.foldl (fun n c ↦ 10 * n + digitValue c) word, []) := by
  induction ds generalizing word with
  | nil => rfl
  | cons c ds ih =>
    rw [List.foldl_cons] at h ⊢
    rw [takeDigits, if_pos (Nat.lt_of_le_of_lt (le_foldl_digits _ ds) h), ih h]

/-- **A short numeral is read as the number nearest to its decimal.** -/
theorem toBinary64_of_isShort (h : n.IsShort) : n.toBinary64 = .ofDecimal n.decimal := by
  have hall : n.decimal.coefficient =
      n.fraction.foldl (fun n c ↦ 10 * n + digitValue c) (digitsValue n.whole) :=
    List.foldl_append
  have hlt := h.coefficient_lt
  rw [hall] at hlt
  have hwhole : takeDigits 0 n.whole = (digitsValue n.whole, []) :=
    takeDigits_eq (Nat.lt_of_le_of_lt (le_foldl_digits _ n.fraction) hlt)
  have hfraction : takeDigits (digitsValue n.whole) n.fraction = (n.decimal.coefficient, []) :=
    (takeDigits_eq hlt).trans (by rw [← hall])
  have hexponent : n.exponent.getD 0 + (0 : Nat) - ((n.fraction.length : Int) - (0 : Nat)) =
      n.decimal.exponent := by
    show _ = n.exponent.getD 0 - (n.fraction.length : Int)
    omega
  rw [toBinary64, hwhole]
  simp only [hfraction, List.length_nil, hexponent]
  exact Binary64.scaled_eq_ofDecimal h.fits h.exponent_le

end Storefront.Numeral
