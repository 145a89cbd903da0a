import Storefront.Decimal
/-!
# Binary64 numbers

Thresholds, prices and subtotals are binary floating-point numbers with 53 significant bits. They
are held as what they are: a sign and a magnitude, the magnitude being a count of the smallest
positive value `2 ^ -1074`. No bit pattern and no machine arithmetic is involved, so that every
statement about them is a statement about natural numbers. All not-a-number values are one value.

One function makes every finite number: `ofRatio` takes a quotient of natural numbers to the nearest
representable magnitude, a tie to the even neighbour, and to infinity where the result is too large.

* `fits_roundUnits`: what rounding gives has at most 53 significant bits.
* `roundUnits_of_fits`: a representable magnitude rounds to itself.
-/

namespace Storefront

namespace Binary64

/-- How many units `2 ^ -1074` make one. -/
def unitsPerOne : Nat := Nat.pow 2 1074

/-- One more than the largest power of two below which magnitudes stay, in units: `2 ^ 1024`. -/
def unitsLimit : Nat := Nat.pow 2 2098

/-- Whether a count of units has at most 53 significant bits. -/
def Fits (units : Nat) : Prop := Nat.pow 2 (units.log2 - 52) ∣ units

instance (units : Nat) : Decidable (Fits units) :=
  inferInstanceAs (Decidable (_ ∣ _))

/-- The absolute value of a finite binary64 number. -/
structure Magnitude where
  /-- The value as a multiple of `2 ^ -1074`. -/
  units : Nat
  /-- At most 53 significant bits. -/
  fits : Fits units
  /-- Below `2 ^ 1024`. -/
  units_lt : units < unitsLimit
  deriving DecidableEq

end Binary64

/-- A binary64 number. -/
inductive Binary64 where
  /-- Not a number. -/
  | nan
  /-- An infinity, with whether it is the negative one. -/
  | infinite (negative : Bool)
  /-- A finite number; zero comes with either sign. -/
  | finite (negative : Bool) (magnitude : Binary64.Magnitude)
  deriving DecidableEq

namespace Binary64

/-! ### Rounding a quotient -/

/-- The whole number nearest to `n / d`; of two equally near ones the even one. -/
def roundHalfEven (n d : Nat) : Nat :=
  let q := n / d
  let r := n % d
  if 2 * r < d then q else if d < 2 * r then q + 1 else q + q % 2

/-- The count of units with at most 53 significant bits that is nearest to `n / d`, a tie going to
the even significand. Near `n / d` such counts are the multiples of `2 ^ s`, with `s` the number of
bits that the quotient has in excess of 53. -/
def roundUnits (n d : Nat) : Nat :=
  let s := (n / d).log2 - 52
  roundHalfEven n (d * Nat.pow 2 s) * Nat.pow 2 s

theorem le_roundHalfEven (n d : Nat) : n / d ≤ roundHalfEven n d := by
  simp only [roundHalfEven]
  split
  · exact Nat.le_refl _
  · split <;> omega

theorem roundHalfEven_le (n d : Nat) : roundHalfEven n d ≤ n / d + 1 := by
  simp only [roundHalfEven]
  split
  · omega
  · split <;> omega

theorem roundHalfEven_mul (k d : Nat) (h : 0 < d) : roundHalfEven (k * d) d = k := by
  simp [roundHalfEven, Nat.mul_div_cancel k h, h]

/-- At most 53 bits, shifted left, fit. -/
theorem fits_mul_pow {k : Nat} (h : k ≤ Nat.pow 2 53) (s : Nat) : Fits (k * Nat.pow 2 s) := by
  rw [Nat.pow_eq] at *
  rcases Nat.lt_or_ge k (2 ^ 53) with hlt | hge
  · rcases Nat.eq_zero_or_pos k with rfl | hpos
    · simp [Fits]
    · have hne : k * 2 ^ s ≠ 0 := Nat.pos_iff_ne_zero.1 (Nat.mul_pos hpos (Nat.two_pow_pos s))
      have hbound : k * 2 ^ s < 2 ^ (53 + s) := by
        rw [Nat.pow_add]
        exact (Nat.mul_lt_mul_right (Nat.two_pow_pos s)).2 hlt
      have hlog : (k * 2 ^ s).log2 < 53 + s := (Nat.log2_lt hne).2 hbound
      exact Nat.dvd_trans (Nat.pow_dvd_pow 2 (by omega)) (Nat.dvd_mul_left _ _)
  · have hk : k = 2 ^ 53 := Nat.le_antisymm h hge
    subst hk
    rw [Fits, ← Nat.pow_add, Nat.log2_two_pow]
    exact Nat.pow_dvd_pow 2 (by omega)

theorem fits_roundUnits (n d : Nat) : Fits (roundUnits n d) := by
  refine fits_mul_pow ?_ _
  have hq : n / d < 2 ^ ((n / d).log2 + 1) := Nat.lt_log2_self
  have hle : n / d < 2 ^ (53 + ((n / d).log2 - 52)) :=
    Nat.lt_of_lt_of_le hq (Nat.pow_le_pow_right (by decide) (by omega))
  have hdiv : n / (d * 2 ^ ((n / d).log2 - 52)) < 2 ^ 53 := by
    rw [← Nat.div_div_eq_div_mul]
    rw [Nat.pow_add] at hle
    exact (Nat.div_lt_iff_lt_mul (Nat.two_pow_pos _)).2 hle
  exact Nat.le_trans (roundHalfEven_le _ _) hdiv

/-- A representable magnitude rounds to itself, over any denominator. -/
theorem roundUnits_of_fits {u d : Nat} (h : Fits u) (hd : 0 < d) : roundUnits (u * d) d = u := by
  obtain ⟨k, hk⟩ := h
  simp only [roundUnits, Nat.pow_eq, Nat.mul_div_cancel u hd] at *
  generalize u.log2 - 52 = s at hk
  have hfold : u * d = k * (d * 2 ^ s) := by
    rw [hk, Nat.mul_comm (2 ^ s) k, Nat.mul_assoc, Nat.mul_comm d]
  rw [hfold, roundHalfEven_mul _ _ (Nat.mul_pos hd (Nat.two_pow_pos s)), hk, Nat.mul_comm]

/-! ### Making numbers -/

/-- The binary64 number nearest to `± n / d` units. -/
def ofRatio (negative : Bool) (n d : Nat) : Binary64 :=
  if h : roundUnits n d < unitsLimit then
    finite negative ⟨roundUnits n d, fits_roundUnits n d, h⟩
  else infinite negative

/-- The number nearest to a count. -/
def ofNat (n : Nat) : Binary64 := ofRatio false (n * unitsPerOne) 1

/-- The number nearest to an integer. -/
def ofInt (n : Int) : Binary64 := ofRatio (n < 0) (n.natAbs * unitsPerOne) 1

theorem unitsLimit_pos : 0 < unitsLimit := by
  delta unitsLimit
  apply Nat.pow_pos
  decide

/-- Zero, with the given sign. -/
def zero (negative : Bool) : Binary64 := finite negative ⟨0, Nat.dvd_zero _, unitsLimit_pos⟩

instance : Inhabited Binary64 := ⟨zero false⟩

/-- The number nearest to a decimal.

A coefficient of at least one times `10 ^ 401` is beyond every finite number, and one below
`2 ^ (log2 + 1)` times a power of ten that leaves it under `10 ^ -400` rounds to zero, so that the
powers which are computed stay within the length of the numeral. -/
def ofDecimal (d : Decimal) : Binary64 :=
  if d.coefficient = 0 then zero d.negative
  else if 400 < d.exponent then infinite d.negative
  else if d.exponent + d.coefficient.log2 + 1 < -400 then zero d.negative
  else if 0 ≤ d.exponent then
    ofRatio d.negative (d.coefficient * Nat.pow 10 d.exponent.toNat * unitsPerOne) 1
  else
    ofRatio d.negative (d.coefficient * unitsPerOne) (Nat.pow 10 d.exponent.natAbs)

/-! ### Classes -/

/-- Whether a number is neither infinite nor not a number. -/
def isFinite : Binary64 → Bool
  | finite .. => true
  | _ => false

end Binary64

end Storefront
