import Storefront.Binary64.Basic
import Mathlib.Tactic.Ring
/-!
# Rounding decimals

The number nearest to a decimal depends on the value of the decimal only, not on how it is split
into a coefficient and a power of ten.

Rounding a quotient reads the quotient alone (`roundUnits_eq_of_mul_eq`). `ofDecimal` decides very
large and very small decimals by their exponents, without computing the powers; both decisions agree
with rounding (`unitsLimit_le_roundUnits`, `roundUnits_eq_zero`), so that `ofDecimal` is one
quotient throughout (`ofDecimal_eq_ofRatio`), and moving powers of ten between coefficient and
exponent changes nothing (`ofDecimal_eq_of_scaled`).
-/

namespace Storefront.Binary64

/-! ### Rounding reads the quotient -/

theorem roundHalfEven_mul_mul {k : Nat} (hk : 0 < k) (n d : Nat) :
    roundHalfEven (n * k) (d * k) = roundHalfEven n d := by
  have hbelow : 2 * (n % d * k) < d * k ↔ 2 * (n % d) < d := by
    rw [← Nat.mul_assoc]
    exact Nat.mul_lt_mul_right hk
  have habove : d * k < 2 * (n % d * k) ↔ d < 2 * (n % d) := by
    rw [← Nat.mul_assoc]
    exact Nat.mul_lt_mul_right hk
  simp only [roundHalfEven, Nat.mul_div_mul_right _ _ hk, Nat.mul_mod_mul_right, hbelow, habove]

theorem roundUnits_mul_mul {k : Nat} (hk : 0 < k) (n d : Nat) :
    roundUnits (n * k) (d * k) = roundUnits n d := by
  simp only [roundUnits, Nat.mul_div_mul_right _ _ hk, Nat.mul_right_comm d k,
    roundHalfEven_mul_mul hk]

/-- Equal quotients round alike. -/
theorem roundUnits_eq_of_mul_eq {n d n' d' : Nat} (hd : 0 < d) (hd' : 0 < d')
    (h : n * d' = n' * d) : roundUnits n d = roundUnits n' d' := by
  rw [← roundUnits_mul_mul hd' n d, ← roundUnits_mul_mul hd n' d', h, Nat.mul_comm d d']

theorem ofRatio_congr (negative : Bool) {n d n' d' : Nat}
    (h : roundUnits n d = roundUnits n' d') : ofRatio negative n d = ofRatio negative n' d' := by
  simp only [ofRatio, h]

/-! ### Quotients that are decided without rounding -/

/-- Less than half a unit rounds to zero. -/
theorem roundUnits_eq_zero {n d : Nat} (h : 2 * n < d) : roundUnits n d = 0 := by
  have hlt : n < d := by omega
  have hlog : Nat.log2 0 - 52 = 0 := by simp
  simp only [roundUnits, Nat.pow_eq, Nat.div_eq_of_lt hlt, hlog, Nat.pow_zero, Nat.mul_one,
    roundHalfEven, Nat.mod_eq_of_lt hlt, if_pos h]

/-- Rounding does not go below the leading bit of a quotient. -/
theorem two_pow_log2_le_roundUnits {n d : Nat} (h : n / d ≠ 0) :
    2 ^ (n / d).log2 ≤ roundUnits n d := by
  have hlead : 2 ^ (n / d).log2 ≤ n / d := Nat.log2_self_le h
  have hfloor := le_roundHalfEven n (d * 2 ^ ((n / d).log2 - 52))
  rw [← Nat.div_div_eq_div_mul] at hfloor
  simp only [roundUnits, Nat.pow_eq]
  generalize n / d = q at hlead hfloor ⊢
  generalize roundHalfEven n (d * 2 ^ (q.log2 - 52)) = r at hfloor ⊢
  -- The leading bit is a multiple of the grid `2 ^ (log2 - 52)`, so rounding down keeps it.
  have hsplit : 2 ^ q.log2 = 2 ^ (q.log2 - (q.log2 - 52)) * 2 ^ (q.log2 - 52) := by
    rw [← Nat.pow_add]
    congr 1
    omega
  have hquot : 2 ^ (q.log2 - (q.log2 - 52)) ≤ q / 2 ^ (q.log2 - 52) := by
    rw [Nat.le_div_iff_mul_le (Nat.two_pow_pos _), ← hsplit]
    exact hlead
  rw [hsplit]
  exact Nat.mul_le_mul_right _ (Nat.le_trans hquot hfloor)

theorem unitsLimit_eq : unitsLimit = 2 ^ 2098 := by
  delta unitsLimit
  generalize 2098 = k
  exact Nat.pow_eq

theorem unitsPerOne_eq : unitsPerOne = 2 ^ 1074 := by
  delta unitsPerOne
  generalize 1074 = k
  exact Nat.pow_eq

/-- The limit in ones, for any way to cut the power of two. -/
theorem unitsLimit_eq_mul {k : Nat} (hk : k + 1074 = 2098) :
    unitsLimit = 2 ^ k * unitsPerOne := by
  rw [unitsLimit_eq, unitsPerOne_eq]
  generalize 1074 = l at hk ⊢
  rw [← hk, Nat.pow_add]

theorem unitsPerOne_pos : 0 < unitsPerOne := by
  delta unitsPerOne
  generalize 1074 = k
  exact Nat.pow_pos (by decide)

/-- A quotient beyond every finite number stays beyond when it is rounded. -/
theorem unitsLimit_le_roundUnits {n d : Nat} (h : unitsLimit ≤ n / d) :
    unitsLimit ≤ roundUnits n d := by
  have hne : n / d ≠ 0 := Nat.pos_iff_ne_zero.1 (Nat.lt_of_lt_of_le unitsLimit_pos h)
  refine Nat.le_trans ?_ (two_pow_log2_le_roundUnits hne)
  rw [unitsLimit_eq] at h ⊢
  generalize 2098 = k at h ⊢
  exact Nat.pow_le_pow_right (by decide) ((Nat.le_log2 hne).2 h)

/-! ### Decimals as quotients -/

theorem two_pow_le_ten_pow {a b : Nat} (h : a ≤ 3 * b) : 2 ^ a ≤ 10 ^ b :=
  calc 2 ^ a ≤ 2 ^ (3 * b) := Nat.pow_le_pow_right (by decide) h
    _ = 8 ^ b := Nat.pow_mul 2 3 b
    _ ≤ 10 ^ b := Nat.pow_le_pow_left (by decide) b

theorem ofRatio_zero (negative : Bool) {d : Nat} (hd : 0 < d) :
    ofRatio negative 0 d = zero negative := by
  have hzero : roundUnits 0 d = 0 := roundUnits_eq_zero (by omega)
  simp only [ofRatio, hzero, unitsLimit_pos, dite_true, zero]

/-- A coefficient times more than `10 ^ 400` is beyond every finite number. -/
theorem unitsLimit_le_roundUnits_of_large {c e : Nat} (hc : c ≠ 0) (he : 400 < e) :
    unitsLimit ≤ roundUnits (c * 10 ^ e * unitsPerOne) 1 := by
  refine unitsLimit_le_roundUnits ?_
  obtain ⟨k, hk⟩ : ∃ k, k + 1074 = 2098 := ⟨1024, rfl⟩
  rw [Nat.div_one, unitsLimit_eq_mul hk]
  have hpow : 2 ^ k ≤ 10 ^ e := two_pow_le_ten_pow (by omega)
  have hcoefficient : 10 ^ e ≤ c * 10 ^ e := Nat.le_mul_of_pos_left _ (Nat.pos_of_ne_zero hc)
  exact Nat.mul_le_mul_right _ (Nat.le_trans hpow hcoefficient)

/-- A coefficient over a power of ten that has over four hundred digits more is below half a
unit. -/
theorem roundUnits_eq_zero_of_small {c k : Nat} (hk : c.log2 + 402 ≤ k) :
    roundUnits (c * unitsPerOne) (10 ^ k) = 0 := by
  refine roundUnits_eq_zero ?_
  have hc : c < 2 ^ (c.log2 + 1) := Nat.lt_log2_self
  calc 2 * (c * unitsPerOne) < 2 * (2 ^ (c.log2 + 1) * unitsPerOne) := by
        have hunits := Nat.mul_lt_mul_of_pos_right hc unitsPerOne_pos
        exact Nat.mul_lt_mul_of_pos_left hunits (by decide)
    _ = 2 ^ (c.log2 + 1076) := by
        rw [unitsPerOne_eq, ← Nat.pow_add, ← Nat.pow_succ']
    _ ≤ 10 ^ k := two_pow_le_ten_pow (by omega)

/-- The number nearest to a decimal is its value in units, rounded. -/
theorem ofDecimal_eq_ofRatio (d : Decimal) :
    ofDecimal d =
      ofRatio d.negative (d.coefficient * 10 ^ d.exponent.toNat * unitsPerOne)
        (10 ^ (-d.exponent).toNat) := by
  obtain ⟨negative, c, e⟩ := d
  -- One case for each branch of the definition; in each, one of the two powers is one.
  simp only [ofDecimal, Nat.pow_eq]
  have hpos : 0 < 10 ^ (-e).toNat := Nat.pow_pos (by decide)
  split
  · next hc => rw [hc, Nat.zero_mul, Nat.zero_mul, ofRatio_zero _ hpos]
  next hc =>
  split
  · next he =>
    have hden : (-e).toNat = 0 := by omega
    have hlarge := unitsLimit_le_roundUnits_of_large (e := e.toNat) hc (by omega)
    rw [hden, Nat.pow_zero, ofRatio, dif_neg (Nat.not_lt.2 hlarge)]
  next hlarge =>
  split
  · next he =>
    have hnum : e.toNat = 0 := by omega
    have hsmall := roundUnits_eq_zero_of_small (c := c) (k := (-e).toNat) (by omega)
    rw [hnum, Nat.pow_zero, Nat.mul_one, ← ofRatio_zero negative hpos]
    exact ofRatio_congr _ (by rw [hsmall, roundUnits_eq_zero (by omega)])
  next hsmall =>
  split
  · next he =>
    have hden : (-e).toNat = 0 := by omega
    rw [hden, Nat.pow_zero]
  · next he =>
    have hnum : e.toNat = 0 := by omega
    have hden : (-e).toNat = e.natAbs := by omega
    rw [hnum, hden, Nat.pow_zero, Nat.mul_one]

/-- Moving a power of ten from the coefficient to the exponent does not change the number. -/
theorem ofDecimal_eq_of_scaled {negative : Bool} {c c' : Nat} {e e' : Int} (k : Nat)
    (hc : c = c' * 10 ^ k) (he : e' = e + k) :
    ofDecimal ⟨negative, c, e⟩ = ofDecimal ⟨negative, c', e'⟩ := by
  rw [ofDecimal_eq_ofRatio, ofDecimal_eq_ofRatio]
  refine ofRatio_congr _ (roundUnits_eq_of_mul_eq (Nat.pow_pos (by decide))
    (Nat.pow_pos (by decide)) ?_)
  -- Only one of `e.toNat` and `(-e).toNat` differs from zero, whichever side of zero `e` is on.
  have hexp : k + e.toNat + (-e').toNat = e'.toNat + (-e).toNat := by omega
  calc c * 10 ^ e.toNat * unitsPerOne * 10 ^ (-e').toNat
      = c' * 10 ^ (k + e.toNat + (-e').toNat) * unitsPerOne := by
        rw [hc, Nat.pow_add, Nat.pow_add]
        ring
    _ = c' * 10 ^ e'.toNat * unitsPerOne * 10 ^ (-e).toNat := by
        rw [hexp, Nat.pow_add]
        ring

end Storefront.Binary64
