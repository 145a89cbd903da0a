import Storefront.Document.Writer
import Storefront.Proofs.Document.Numeral
/-!
# Ways to write numbers

Where the point of a number stands and from which size on there is an exponent is up to whoever
writes the number. A `NumberFormat` is any way to write finite numbers of which three things hold:
the text is read as a numeral whatever follows it, the numeral is not that of an integer, and the
number nearest to its decimal is the number that was written. So the numeral says which number is
meant. It need not be what the quick reading makes of it: that is a number which may be another one,
or too large to be a number at all (`NumberFormat.reread?`).

Writing the fewest digits that stand for a number is such a way (`NumberFormat.shortest`).
-/

namespace Storefront

open Text

namespace Numeral

/-! ### The numeral of a decimal -/

/-- Without a coefficient there is no exponent either. -/
theorem stripZeros_snd_eq_zero {c : Nat} {e : Int} (h : (Decimal.stripZeros c e).1 = 0) :
    (Decimal.stripZeros c e).2 = 0 := by
  by_cases hc : c = 0
  · rw [hc, Decimal.stripZeros_zero]
  · obtain ⟨k, hk, -⟩ := Decimal.exists_stripZeros c e hc
    rw [h, Nat.zero_mul] at hk
    exact absurd hk hc

/-- If the digits of a number start with zero, there is no other digit. -/
theorem eq_zero_of_head?_digits {c : Nat} (h : (digits c).head? = some '0') : c = 0 := by
  obtain ⟨d, ds, heq, -, hzero⟩ := exists_digits_eq_cons c
  rw [heq] at h
  by_contra hc
  exact hzero hc (Option.some.inj h)

theorem head?_take {α : Type} (as : List α) {k : Nat} (hk : 0 < k) :
    (as.take k).head? = as.head? := by
  cases as with
  | nil => rw [List.take_nil]
  | cons a as =>
    obtain ⟨k, rfl⟩ := Nat.exists_eq_add_of_lt hk
    rw [Nat.zero_add, List.take_succ_cons]
    rfl

/-- The numeral of a decimal can be written, wherever its point stands. -/
theorem isWellFormed_ofDecimal (d : Decimal) : (ofDecimal d).IsWellFormed := by
  have hstrip := @stripZeros_snd_eq_zero d.coefficient d.exponent
  rw [ofDecimal]
  generalize Decimal.stripZeros d.coefficient d.exponent = stripped at hstrip ⊢
  obtain ⟨c, e⟩ := stripped
  have hdigit : ∀ x ∈ digits c, x.isDigit = true := fun _ ↦ isDigit_of_mem_digits
  have hlength : 0 < (digits c).length := List.length_pos_iff.2 (digits_ne_nil c)
  -- Cut anywhere but in front of the first digit, the digits have no leading zero.
  have hcut {k : Nat} (hk : 0 < k) : ((digits c).take k).head? = some '0' →
      (digits c).take k = ['0'] := by
    intro hhead
    rw [head?_take _ hk] at hhead
    rw [eq_zero_of_head?_digits hhead, digits_zero, List.take_of_length_le hk]
  have hne {k : Nat} (hk : 0 < k) : (digits c).take k ≠ [] := by
    refine List.ne_nil_of_length_pos ?_
    rw [List.length_take]
    omega
  dsimp only at hstrip ⊢
  split
  · refine ⟨List.append_ne_nil_of_left_ne_nil (digits_ne_nil c) _,
      fun x ↦ Decimal.isDigit_of_mem_digits_append, fun hhead ↦ ?_,
      List.forall_mem_singleton.2 rfl⟩
    rw [List.head?_append_of_ne_nil _ (digits_ne_nil c)] at hhead
    have hc := eq_zero_of_head?_digits hhead
    rw [hstrip hc, hc, digits_zero]
    rfl
  split
  · next hpoint =>
    have hk : 0 < ((digits c).length + e).toNat := by omega
    exact ⟨hne hk, fun x hx ↦ hdigit x (List.mem_of_mem_take hx), hcut hk,
      fun x hx ↦ hdigit x (List.mem_of_mem_drop hx)⟩
  split
  · refine ⟨nofun, List.forall_mem_singleton.2 rfl, fun _ ↦ rfl, fun x hx ↦ ?_⟩
    exact (List.mem_append.1 hx).elim Decimal.isDigit_of_mem_replicate (hdigit x)
  · exact ⟨hne Nat.one_pos, fun x hx ↦ hdigit x (List.mem_of_mem_take hx), hcut Nat.one_pos,
      fun x hx ↦ hdigit x (List.mem_of_mem_drop hx)⟩

/-- The numeral of a decimal has a fraction or an exponent. -/
theorem integer?_ofDecimal (d : Decimal) : (ofDecimal d).integer? = none := by
  refine integer?_eq_none ?_
  rw [ofDecimal]
  generalize Decimal.stripZeros d.coefficient d.exponent = stripped
  obtain ⟨c, e⟩ := stripped
  dsimp only
  split
  · exact .inl nofun
  split
  · refine .inl (List.ne_nil_of_length_pos ?_)
    rw [List.length_drop]
    omega
  split
  · exact .inl (List.append_ne_nil_of_right_ne_nil _ (digits_ne_nil c))
  · exact .inr nofun

/-- The numeral of a decimal stands for the same number. -/
theorem ofDecimal_decimal (d : Decimal) :
    Binary64.ofDecimal (ofDecimal d).decimal = .ofDecimal d := by
  obtain ⟨negative, coefficient, exponent⟩ := d
  refine Eq.trans ?_ (Binary64.ofDecimal_stripZeros negative coefficient exponent)
  rw [ofDecimal]
  generalize Decimal.stripZeros coefficient exponent = stripped
  obtain ⟨c, e⟩ := stripped
  have hlength : 0 < (digits c).length := List.length_pos_iff.2 (digits_ne_nil c)
  dsimp only
  split
  · -- The zeros in front of the point and the one behind it go back into the exponent.
    next hpoint =>
    refine Binary64.ofDecimal_eq_of_scaled (e.toNat + 1) ?_ ?_
    · have hzeros : List.replicate e.toNat '0' ++ ['0'] = List.replicate (e.toNat + 1) '0' :=
        List.replicate_succ'.symm
      rw [List.append_assoc, hzeros, digitsValue_append, digitsValue_digits,
        digitsValue_replicate_zero, List.length_replicate, Nat.add_zero]
    · simp only [Option.getD_none, List.length_singleton]
      omega
  -- Otherwise the digits are those of the coefficient, with at most zeros in front.
  congr 1
  split
  · rw [decimal, Decimal.mk.injEq]
    refine ⟨rfl, ?_, ?_⟩
    · rw [List.take_append_drop, digitsValue_digits]
    · simp only [Option.getD_none, List.length_drop]
      omega
  split
  · rw [decimal, Decimal.mk.injEq]
    refine ⟨rfl, ?_, ?_⟩
    · rw [← List.append_assoc, digitsValue_append, digitsValue_digits, List.singleton_append,
        ← List.replicate_succ, digitsValue_replicate_zero, Nat.zero_mul, Nat.zero_add]
    · simp only [Option.getD_none, List.length_append, List.length_replicate]
      omega
  · rw [decimal, Decimal.mk.injEq]
    refine ⟨rfl, ?_, ?_⟩
    · rw [List.take_append_drop, digitsValue_digits]
    · simp only [Option.getD_some, List.length_drop]
      omega

end Numeral

/-! ### Formats -/

/-- A way to write finite numbers. -/
structure NumberFormat where
  /-- The text of a number. -/
  text : Bool → Binary64.Magnitude → List Char
  /-- The numeral that the text is. -/
  numeral : Bool → Binary64.Magnitude → Numeral
  /-- The text is read as the numeral, whatever follows that does not go on with it. -/
  read?_text (negative : Bool) (m : Binary64.Magnitude) {rest : List Char}
    (h : StopsAt Numeral.continues rest) :
    Numeral.read? (text negative m ++ rest) = some (numeral negative m, rest)
  /-- The numeral is not taken for an integer. -/
  integer?_numeral (negative : Bool) (m : Binary64.Magnitude) :
    (numeral negative m).integer? = none
  /-- The number is the one nearest to what the numeral stands for. -/
  ofDecimal_decimal (negative : Bool) (m : Binary64.Magnitude) :
    .ofDecimal (numeral negative m).decimal = Binary64.finite negative m

namespace NumberFormat

/-- The fewest digits that stand for a number. -/
def shortest : NumberFormat where
  text negative m := (Numeral.ofDecimal (Binary64.shortest negative m)).write
  numeral negative m := Numeral.ofDecimal (Binary64.shortest negative m)
  read?_text _ _ _ h := Numeral.read?_write (Numeral.isWellFormed_ofDecimal _) h
  integer?_numeral _ _ := Numeral.integer?_ofDecimal _
  ofDecimal_decimal negative m :=
    (Numeral.ofDecimal_decimal _).trans (Binary64.ofDecimal_shortest negative m)

/-- What the text of a number is read as, if that is a number. -/
def reread? (format : NumberFormat) : Binary64 → Option Binary64
  | .finite negative m =>
    let y := (format.numeral negative m).toBinary64
    if y.isFinite then some y else none
  | _ => none

/-- Only numbers are read. -/
theorem isFinite_of_reread? {format : NumberFormat} {x y : Binary64}
    (h : format.reread? x = some y) : y.isFinite = true := by
  unfold reread? at h
  split at h
  · obtain ⟨hfinite, hy⟩ := Option.ite_none_right_eq_some.1 h
    exact Option.some.inj hy ▸ hfinite
  · cases h

/-- A number with a short numeral is read back. -/
theorem reread?_of_isShort (format : NumberFormat) {negative : Bool} {m : Binary64.Magnitude}
    (h : (format.numeral negative m).IsShort) :
    format.reread? (.finite negative m) = some (.finite negative m) := by
  rw [reread?, Numeral.toBinary64_of_isShort h, format.ofDecimal_decimal]
  rfl

end NumberFormat

end Storefront
