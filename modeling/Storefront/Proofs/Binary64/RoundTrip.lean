import Storefront.Binary64.Text
import Storefront.Proofs.Binary64.Rounding
import Storefront.Proofs.Text.Numeral
/-!
# Numbers read back from their text

Every binary64 number is read back from the text it is written as (`read?_write`), not-a-number and
the two zeros included.

Positional text stands for the decimal it was made from: digits, at most one point, and padding
zeros that change nothing (`read?_positional`). The decimal that a finite number is written as gives
that number: a short candidate is taken only if it does, and the exact decimal does because a
representable magnitude rounds to itself (`ofDecimal_shortest`).

The text consists of digits and a few signs and letters (`all_isNumberChar_write`). None of them is
blank, so that trimming leaves it alone (`isBlank_of_mem_write`).
-/

namespace Storefront

open Text

namespace Decimal

/-! ### Reading digits with and without a point -/

theorem readUnsigned?_of_isDigit (negative : Bool) {ds : List Char} (hne : ds ≠ [])
    (hds : ∀ c ∈ ds, c.isDigit = true) :
    readUnsigned? negative ds = some ⟨negative, digitsValue ds, 0⟩ := by
  simp only [readUnsigned?, span_of_forall hds, splitFraction, readExponent?, and_true, if_neg hne,
    List.append_nil, Option.map_some]
  rfl

theorem readUnsigned?_point (negative : Bool) {whole fraction : List Char}
    (hne : ¬ (whole = [] ∧ fraction = [])) (hwhole : ∀ c ∈ whole, c.isDigit = true)
    (hfraction : ∀ c ∈ fraction, c.isDigit = true) :
    readUnsigned? negative (whole ++ '.' :: fraction) =
      some ⟨negative, digitsValue (whole ++ fraction), -fraction.length⟩ := by
  have hpoint : StopsAt Char.isDigit ('.' :: fraction) := stopsAt_cons (by decide) _
  simp only [readUnsigned?, span_append_of_stopsAt hwhole hpoint, splitFraction,
    span_of_forall hfraction, readExponent?, if_neg hne, Option.map_some, Int.zero_sub]

/-! ### What positional text holds -/

/-- Stripping moves trailing zeros from the coefficient to the exponent. -/
theorem exists_stripZeros (c : Nat) (e : Int) (hc : c ≠ 0) :
    ∃ k : Nat, c = (stripZeros c e).1 * 10 ^ k ∧ (stripZeros c e).2 = e + k := by
  induction c, e using stripZeros.induct with
  | case1 e => exact absurd rfl hc
  | case2 c e _ hmod ih =>
    obtain ⟨k, hk, he⟩ := ih (by omega)
    rw [stripZeros, if_neg hc, if_pos hmod]
    refine ⟨k + 1, ?_, by rw [he]; omega⟩
    rw [Nat.pow_succ, ← Nat.mul_assoc, ← hk]
    omega
  | case3 c e _ hmod =>
    rw [stripZeros, if_neg hc, if_neg hmod]
    exact ⟨0, by rw [Nat.pow_zero, Nat.mul_one], by simp⟩

theorem stripZeros_zero (e : Int) : stripZeros 0 e = (0, 0) := by
  rw [stripZeros, if_pos rfl]

theorem isDigit_of_mem_replicate {k : Nat} {c : Char} (h : c ∈ List.replicate k '0') :
    c.isDigit = true := by
  rw [List.eq_of_mem_replicate h]
  rfl

/-- Placing a point cuts the digits, with zeros in front, into a part that is not empty and the
given number of places. -/
theorem exists_placePoint_eq {ds : List Char} (places : Nat)
    (hds : ∀ c ∈ ds, c.isDigit = true) :
    ∃ whole fraction, placePoint ds places = whole ++ '.' :: fraction ∧ whole ≠ [] ∧
      fraction.length = places ∧ (∀ c ∈ whole ++ fraction, c.isDigit = true) ∧
      digitsValue (whole ++ fraction) = digitsValue ds := by
  have hlength : places < (List.replicate (places + 1 - ds.length) '0' ++ ds).length := by
    rw [List.length_append, List.length_replicate]
    omega
  refine ⟨_, _, rfl, ?_, ?_, ?_, ?_⟩
  · intro hnil
    have hempty := congrArg List.length hnil
    rw [List.length_take, List.length_nil] at hempty
    omega
  · rw [List.length_drop]
    omega
  -- Put together again, the two parts are the digits with their zeros.
  · rw [List.take_append_drop]
    intro c hc
    rcases List.mem_append.1 hc with hc | hc
    · exact isDigit_of_mem_replicate hc
    · exact hds c hc
  · rw [List.take_append_drop, digitsValue_append, digitsValue_replicate_zero, Nat.zero_mul,
      Nat.zero_add]

theorem isDigit_of_mem_digits_append {n k : Nat} {c : Char}
    (h : c ∈ digits n ++ List.replicate k '0') : c.isDigit = true := by
  rcases List.mem_append.1 h with h | h
  · exact isDigit_of_mem_digits h
  · exact isDigit_of_mem_replicate h

/-- Positional text without its sign consists of digits and points. -/
theorem isDigit_or_eq_point {c : Char} {n : Nat} {e : Int} (h : c ∈ positionalDigits n e) :
    c.isDigit = true ∨ c = '.' := by
  simp only [positionalDigits] at h
  split at h
  · exact .inl (isDigit_of_mem_digits_append h)
  · obtain ⟨whole, fraction, heq, -, -, hdigit, -⟩ :=
      exists_placePoint_eq (stripZeros n e).2.natAbs fun c hc ↦ isDigit_of_mem_digits hc
    rw [heq, List.mem_append, List.mem_cons] at h
    rcases h with h | rfl | h
    · exact .inl (hdigit c (List.mem_append_left _ h))
    · exact .inr rfl
    · exact .inl (hdigit c (List.mem_append_right _ h))

end Decimal

namespace Binary64

/-! ### Positional text read as a number -/

theorem ofDecimal_zero (negative : Bool) (e : Int) :
    ofDecimal ⟨negative, 0, e⟩ = zero negative := by
  rw [ofDecimal, if_pos rfl]

theorem ofDecimal_stripZeros (negative : Bool) (c : Nat) (e : Int) :
    ofDecimal ⟨negative, (Decimal.stripZeros c e).1, (Decimal.stripZeros c e).2⟩ =
      ofDecimal ⟨negative, c, e⟩ := by
  by_cases hc : c = 0
  · rw [hc, Decimal.stripZeros_zero, ofDecimal_zero, ofDecimal_zero]
  · obtain ⟨k, hk, he⟩ := Decimal.exists_stripZeros c e hc
    exact (ofDecimal_eq_of_scaled k hk he).symm

theorem readUnsigned?_positionalDigits (negative : Bool) (c : Nat) (e : Int) :
    ∃ d, Decimal.readUnsigned? negative (Decimal.positionalDigits c e) = some d ∧
      ofDecimal d = ofDecimal ⟨negative, c, e⟩ := by
  rw [← ofDecimal_stripZeros, Decimal.positionalDigits]
  generalize Decimal.stripZeros c e = stripped
  obtain ⟨c, e⟩ := stripped
  simp only
  split
  · -- No point: the exponent went into the digits as zeros, so it reads as exponent zero.
    next he =>
    refine ⟨_, Decimal.readUnsigned?_of_isDigit negative ?_ ?_, ?_⟩
    · exact List.append_ne_nil_of_left_ne_nil (digits_ne_nil c) _
    · exact fun _ ↦ Decimal.isDigit_of_mem_digits_append
    · rw [digitsValue_append, digitsValue_digits, digitsValue_replicate_zero, Nat.add_zero,
        List.length_replicate]
      exact ofDecimal_eq_of_scaled e.toNat rfl (by omega)
  · -- A point: it stands as many places from the end as the exponent is below zero.
    next he =>
    obtain ⟨whole, fraction, heq, hne, hlength, hdigit, hvalue⟩ :=
      Decimal.exists_placePoint_eq e.natAbs fun d hd ↦ isDigit_of_mem_digits (n := c) hd
    refine ⟨⟨negative, c, e⟩, ?_, rfl⟩
    rw [heq, Decimal.readUnsigned?_point negative (fun hnone ↦ hne hnone.1)
      (fun d hd ↦ hdigit d (List.mem_append_left _ hd))
      (fun d hd ↦ hdigit d (List.mem_append_right _ hd)), hvalue, digitsValue_digits, hlength]
    have hexp : -((e.natAbs : Nat) : Int) = e := by omega
    rw [hexp]

theorem splitSign_positionalDigits (c : Nat) (e : Int) :
    splitSign (Decimal.positionalDigits c e) = (false, Decimal.positionalDigits c e) := by
  refine splitSign_of_ne_head? (fun hminus ↦ ?_) fun hplus ↦ ?_
  · exact absurd (Decimal.isDigit_or_eq_point (List.mem_of_mem_head? hminus)) (by decide)
  · exact absurd (Decimal.isDigit_or_eq_point (List.mem_of_mem_head? hplus)) (by decide)

/-- The positional text of a decimal is read as the number nearest to the decimal. -/
theorem read?_positional (d : Decimal) : read? d.positional = some (ofDecimal d) := by
  obtain ⟨negative, c, e⟩ := d
  obtain ⟨d, hread, hd⟩ := readUnsigned?_positionalDigits negative c e
  have hsign : splitSign (Decimal.positional ⟨negative, c, e⟩) =
      (negative, Decimal.positionalDigits c e) := by
    cases negative with
    | false => exact splitSign_positionalDigits c e
    | true => rfl
  simp only [read?, hsign, hread, hd]

/-! ### Numbers and the decimals they are written as -/

/-- A power of five and one of two make one of ten, over which a representable magnitude is
exact. -/
theorem roundUnits_five_pow {u : Nat} (h : Fits u) (k : Nat) :
    roundUnits (u * 5 ^ k * 2 ^ k) (10 ^ k) = u := by
  rw [Nat.mul_assoc, ← Nat.mul_pow]
  exact roundUnits_of_fits h (Nat.pow_pos (by decide))

/-- The exact decimal of a finite number gives that number. -/
theorem ofDecimal_exactDecimal (negative : Bool) (m : Magnitude) :
    ofDecimal (exactDecimal negative m.units) = finite negative m := by
  have hround := roundUnits_five_pow m.fits 1074
  have hnum : (-1074 : Int).toNat = 0 := rfl
  have hden : (-(-1074) : Int).toNat = 1074 := rfl
  rw [ofDecimal_eq_ofRatio, exactDecimal]
  simp only [hnum, hden, Nat.pow_zero, Nat.mul_one, unitsPerOne_eq, Nat.pow_eq]
  rw [ofRatio]
  -- The powers are never computed: what follows holds for any exponent.
  generalize 1074 = k at hround ⊢
  simp only [hround, m.units_lt, dite_true]

theorem ofDecimal_shortest (negative : Bool) (m : Magnitude) :
    ofDecimal (shortest negative m) = finite negative m := by
  rw [shortest]
  cases hfind : (shortCandidates (exactDecimal negative m.units)).find? fun d ↦
      ofDecimal d = finite negative m with
  | none => exact ofDecimal_exactDecimal negative m
  | some d => exact of_decide_eq_true (List.find?_some hfind :)

/-- Every number is read back from its text. -/
theorem read?_write (x : Binary64) : read? x.write = some x := by
  match x with
  | nan => rfl
  | infinite false => rfl
  | infinite true => rfl
  | finite negative m => rw [write, read?_positional, ofDecimal_shortest]

/-! ### The characters of a number's text -/

/-- The characters that the text of a number is made of. -/
def isNumberChar (c : Char) : Bool :=
  c.isDigit || ['-', '.', 'N', 'a', 'i', 'n', 'f'].contains c

theorem all_isNumberChar_write (x : Binary64) : x.write.all isNumberChar = true := by
  match x with
  | nan => rfl
  | infinite false => rfl
  | infinite true => rfl
  | finite negative m =>
    rw [write, Decimal.positional, List.all_append, Bool.and_eq_true]
    constructor
    · split
      · rfl
      · rfl
    · refine List.all_eq_true.2 fun c hc ↦ ?_
      rcases Decimal.isDigit_or_eq_point hc with hdigit | rfl
      · rw [isNumberChar, hdigit, Bool.true_or]
      · rfl

theorem isBlank_of_isNumberChar {c : Char} (h : isNumberChar c = true) : isBlank c = false := by
  rcases Bool.or_eq_true_iff.1 h with hdigit | hother
  · exact isBlank_of_isDigit hdigit
  · have hall : ['-', '.', 'N', 'a', 'i', 'n', 'f'].all (fun c ↦ isBlank c == false) = true := rfl
    exact beq_iff_eq.1 (List.all_eq_true.1 hall c (List.contains_iff_mem.1 hother))

theorem isBlank_of_mem_write {x : Binary64} {c : Char} (h : c ∈ x.write) : isBlank c = false :=
  isBlank_of_isNumberChar (List.all_eq_true.1 (all_isNumberChar_write x) c h)

theorem write_ne_nil (x : Binary64) : x.write ≠ [] := by
  intro hnil
  have hread := read?_write x
  rw [hnil] at hread
  cases hread

end Binary64

end Storefront
