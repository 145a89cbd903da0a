import Storefront.Binary64.Scaled
import Storefront.Proofs.Binary64.Rounding
/-!
# Where scaling is exact

Scaling rounds three times: the whole number, the power of ten, and their product or quotient. A
whole number of at most 53 significant bits is a number as it is, and so are the powers of ten up to
`10 ^ 22`, because `5 ^ 22` has 52 bits (`powerOfTen_eq`). Then only the last step rounds, and it
rounds the decimal itself: the outcome is the number nearest to it (`scaled_eq_ofDecimal`).
-/

namespace Storefront.Binary64

/-- Bits that fit, shifted left, fit. -/
theorem Fits.mul_two_pow {u : Nat} (h : Fits u) (s : Nat) : Fits (u * 2 ^ s) := by
  obtain ⟨k, hk⟩ := h
  rw [Nat.pow_eq] at hk
  have hu : u < 2 ^ (u.log2 + 1) := Nat.lt_log2_self
  generalize u.log2 = l at hk hu
  have hle : k * 2 ^ (l - 52) < 2 ^ 53 * 2 ^ (l - 52) := by
    rw [← Nat.pow_add, Nat.mul_comm, ← hk]
    exact Nat.lt_of_lt_of_le hu (Nat.pow_le_pow_right (by decide) (by omega))
  have hk53 : k < 2 ^ 53 := Nat.lt_of_mul_lt_mul_right hle
  rw [hk, Nat.mul_comm (2 ^ (l - 52)) k, Nat.mul_assoc, ← Nat.pow_add, ← Nat.pow_eq]
  exact fits_mul_pow (Nat.le_of_lt hk53) _

/-- A whole number of few enough bits is not rounded. -/
theorem roundUnits_mul_unitsPerOne {n : Nat} (h : Fits n) :
    roundUnits (n * unitsPerOne) 1 = n * unitsPerOne := by
  have hfits : Fits (n * unitsPerOne) := by
    rw [unitsPerOne_eq]
    generalize 1074 = s
    exact h.mul_two_pow s
  simpa only [Nat.mul_one] using roundUnits_of_fits hfits Nat.one_pos

/-- A power of ten has no more bits than the power of five in it. -/
theorem fits_ten_pow {k : Nat} (hk : k ≤ 22) : Fits (10 ^ k) := by
  have hfive : 5 ^ k ≤ Nat.pow 2 53 :=
    Nat.le_trans (Nat.pow_le_pow_right (by decide) hk) (by decide)
  rw [show 10 = 5 * 2 from rfl, Nat.mul_pow, ← Nat.pow_eq (n := k)]
  exact fits_mul_pow hfive k

/-- The powers of ten up to `10 ^ 22` are not rounded. -/
theorem powerOfTen_eq {k : Nat} (hk : k ≤ 22) : powerOfTen k = 10 ^ k * unitsPerOne :=
  roundUnits_mul_unitsPerOne (fits_ten_pow hk)

/-- **Scaling a short whole number by a short power of ten gives the nearest number.** -/
theorem scaled_eq_ofDecimal {negative : Bool} {n : Nat} {e : Int} (hn : Fits n)
    (he : e.natAbs ≤ 22) : scaled negative n e = ofDecimal ⟨negative, n, e⟩ := by
  rw [ofDecimal_eq_ofRatio, scaled]
  simp only [roundUnits_mul_unitsPerOne hn]
  split
  · next hneg =>
    -- A quotient of two numbers that are exact.
    have hnum : e.toNat = 0 := by omega
    have hden : (-e).toNat = e.natAbs := by omega
    rw [divPowerOfTen, if_pos (by omega), powerOfTen_eq he, hnum, hden, Nat.pow_zero, Nat.mul_one]
    exact ofRatio_congr _ (roundUnits_mul_mul unitsPerOne_pos _ _)
  next hnonneg =>
  have hden : (-e).toNat = 0 := by omega
  split
  · next hzero =>
    have hn : n = 0 := (Nat.mul_eq_zero.1 hzero).resolve_right (Nat.ne_of_gt unitsPerOne_pos)
    rw [hden, hn, Nat.zero_mul, Nat.zero_mul, ofRatio_zero _ (by decide)]
  next hpos =>
  -- A product of two numbers that are exact.
  have hproduct : n * unitsPerOne * (10 ^ e.toNat * unitsPerOne) =
      n * 10 ^ e.toNat * unitsPerOne * unitsPerOne := by ring
  rw [if_pos (by omega), powerOfTen_eq (by omega), hden, Nat.pow_zero, hproduct]
  refine ofRatio_congr _ ?_
  rw [← roundUnits_mul_mul unitsPerOne_pos (n * 10 ^ e.toNat * unitsPerOne) 1, Nat.one_mul]

end Storefront.Binary64
