import Storefront.Operator
import Storefront.Proofs.Binary64.Rounding
import Mathlib.Data.Rat.Floor
import Mathlib.Order.WithBot
/-!
# What numbers are exactly

A binary64 number other than not-a-number is a rational number or an infinity (`extended?`), and
numbers compare as their exact values do (`holds_iff_relates`). So a comparison of numbers says what
it seems to say wherever the numbers are exactly what they stand for. Integers of at most 53
significant bits are (`extended?_ofInt`), in particular every count up to `2 ^ 53`
(`extended?_ofNat`) and the integer part of every number (`fits_integerPart`).
-/

namespace Storefront

/-- The rational numbers with an infinity at either end. -/
abbrev Extended : Type := WithBot (WithTop ℚ)

/-- A rational number as an extended one. -/
def Extended.ofRat (q : ℚ) : Extended := WithBot.some (WithTop.some q)

/-- Two things of an ordered kind stand in the relation that a comparison names. -/
def Comparison.Relates {α : Type} [LT α] [LE α] : Comparison → α → α → Prop
  | less, x, y => x < y
  | greater, x, y => y < x
  | lessOrEqual, x, y => x ≤ y
  | greaterOrEqual, x, y => y ≤ x
  | equal, x, y => x = y
  | notEqual, x, y => x ≠ y

namespace Extended

theorem ofRat_lt_ofRat {p q : ℚ} : ofRat p < ofRat q ↔ p < q :=
  WithBot.coe_lt_coe.trans WithTop.coe_lt_coe

theorem ofRat_injective : Function.Injective ofRat :=
  WithBot.coe_injective.comp WithTop.coe_injective

theorem bot_lt_ofRat (q : ℚ) : ⊥ < ofRat q := WithBot.bot_lt_coe _

theorem ofRat_lt_top (q : ℚ) : ofRat q < ⊤ := WithBot.coe_lt_coe.2 (WithTop.coe_lt_top q)

end Extended

namespace Binary64

/-! ### Exact values -/

/-- The value of a number of units. -/
def ofUnits (n : Int) : ℚ := n / unitsPerOne

/-- The exact value of a number. -/
def extended? : Binary64 → Option Extended
  | nan => none
  | infinite true => some ⊥
  | infinite false => some ⊤
  | finite negative m => some (.ofRat (ofUnits (signed negative m.units)))

theorem exists_extended?_ofRatio (negative : Bool) (n d : Nat) :
    ∃ a, (ofRatio negative n d).extended? = some a := by
  rw [ofRatio]
  split
  · exact ⟨_, rfl⟩
  · cases negative with
    | false => exact ⟨⊤, rfl⟩
    | true => exact ⟨⊥, rfl⟩

theorem extended?_eq_none_iff {x : Binary64} : x.extended? = none ↔ x = nan := by
  match x with
  | nan => exact iff_of_true rfl rfl
  | infinite true => exact iff_of_false nofun nofun
  | infinite false => exact iff_of_false nofun nofun
  | finite _ _ => exact iff_of_false nofun nofun

theorem unitsPerOne_pos_rat : (0 : ℚ) < unitsPerOne := Nat.cast_pos.2 unitsPerOne_pos

theorem ofUnits_lt_ofUnits {n k : Int} : ofUnits n < ofUnits k ↔ n < k := by
  rw [ofUnits, ofUnits, div_lt_div_iff_of_pos_right unitsPerOne_pos_rat, Int.cast_lt]

theorem natAbs_signed (negative : Bool) (n : Nat) : (signed negative n).natAbs = n := by
  cases negative <;> simp [signed]

/-- An integer whose absolute value is below a bound lies between the bounds. -/
theorem signed_bounds (negative : Bool) {n k : Nat} (h : n < k) :
    -(k : Int) < signed negative n ∧ signed negative n < k := by
  have habs := natAbs_signed negative n
  omega

/-- A place on the line of numbers and the value that lies there. -/
inductive Lies : Int → Extended → Prop where
  /-- The negative infinity lies below all finite numbers. -/
  | bot : Lies (-unitsLimit) ⊥
  /-- A finite number lies at its count of units. -/
  | ofRat {n : Int} (hlow : -unitsLimit < n) (hhigh : n < unitsLimit) : Lies n (.ofRat (ofUnits n))
  /-- The positive infinity lies above all finite numbers. -/
  | top : Lies unitsLimit ⊤

theorem lies_of_extended? {x : Binary64} {a : Extended} (h : x.extended? = some a) :
    ∃ i, x.place? = some i ∧ Lies i a := by
  match x with
  | infinite true => exact ⟨_, rfl, Option.some.inj h ▸ .bot⟩
  | infinite false => exact ⟨_, rfl, Option.some.inj h ▸ .top⟩
  | finite negative m =>
    obtain ⟨hlow, hhigh⟩ := signed_bounds negative m.units_lt
    exact ⟨_, rfl, Option.some.inj h ▸ .ofRat hlow hhigh⟩

/-- Places have the order of the values that lie there. -/
theorem Lies.lt_iff {i j : Int} {a b : Extended} (hi : Lies i a) (hj : Lies j b) :
    i < j ↔ a < b := by
  have hpos : (0 : Int) < unitsLimit := Int.natCast_pos.2 unitsLimit_pos
  cases hi with
  | bot =>
    cases hj with
    | bot => exact iff_of_false (lt_irrefl _) (lt_irrefl _)
    | ofRat hlow hhigh => exact iff_of_true hlow (Extended.bot_lt_ofRat _)
    | top => exact iff_of_true (by omega) bot_lt_top
  | ofRat hlow hhigh =>
    cases hj with
    | bot => exact iff_of_false (Int.lt_asymm hlow) not_lt_bot
    | ofRat => rw [Extended.ofRat_lt_ofRat, ofUnits_lt_ofUnits]
    | top => exact iff_of_true hhigh (Extended.ofRat_lt_top _)
  | top =>
    cases hj with
    | bot => exact iff_of_false (by omega) not_top_lt
    | ofRat hlow hhigh => exact iff_of_false (Int.lt_asymm hhigh) not_top_lt
    | top => exact iff_of_false (lt_irrefl _) (lt_irrefl _)

/-- Numbers other than not-a-number compare as their exact values do. -/
theorem compare?_eq {x y : Binary64} {a b : Extended} (ha : x.extended? = some a)
    (hb : y.extended? = some b) : x.compare? y = some (compare a b) := by
  obtain ⟨i, hi, hia⟩ := lies_of_extended? ha
  obtain ⟨j, hj, hjb⟩ := lies_of_extended? hb
  have hlt : i < j ↔ a < b := hia.lt_iff hjb
  have hgt : j < i ↔ b < a := hjb.lt_iff hia
  have hplaces : x.compare? y = some (compare i j) := by rw [compare?, hi, hj]
  rw [hplaces]
  rcases lt_trichotomy a b with h | h | h
  · rw [compare_lt_iff_lt.2 h, compare_lt_iff_lt.2 (hlt.2 h)]
  · have heq : i = j := by
      have hle : ¬ i < j := fun hij ↦ (hlt.1 hij).ne h
      have hge : ¬ j < i := fun hji ↦ (hgt.1 hji).ne h.symm
      omega
    rw [compare_eq_iff_eq.2 h, compare_eq_iff_eq.2 heq]
  · rw [compare_gt_iff_gt.2 h, compare_gt_iff_gt.2 (hgt.2 h)]

/-- A comparison holds of numbers if it relates their exact values. -/
theorem holds_iff_relates (op : Comparison) {x y : Binary64} {a b : Extended}
    (ha : x.extended? = some a) (hb : y.extended? = some b) :
    op.holds x y = true ↔ op.Relates a b := by
  rw [Comparison.holds, compare?_eq ha hb]
  rcases lt_trichotomy a b with hlt | heq | hgt
  · rw [compare_lt_iff_lt.2 hlt]
    cases op <;>
      simp [Comparison.accepts, Comparison.Relates, hlt, hlt.le, hlt.ne, hlt.not_gt, hlt.not_ge]
  · rw [compare_eq_iff_eq.2 heq]
    cases op <;> simp [Comparison.accepts, Comparison.Relates, heq]
  · rw [compare_gt_iff_gt.2 hgt]
    cases op <;>
      simp [Comparison.accepts, Comparison.Relates, hgt, hgt.le, hgt.ne', hgt.not_gt, hgt.not_ge]

/-! ### Integers that are exact -/

theorem ofRatio_of_fits (negative : Bool) {u : Nat} (h : Fits u) (hlt : u < unitsLimit) :
    ofRatio negative u 1 = finite negative ⟨u, h, hlt⟩ := by
  have hround : roundUnits u 1 = u := by simpa using roundUnits_of_fits h Nat.one_pos
  simp only [ofRatio, hround, hlt, dite_true]

theorem ofUnits_mul (n : Int) : ofUnits (n * unitsPerOne) = n := by
  rw [ofUnits, Int.cast_mul, Int.cast_natCast, mul_div_cancel_right₀ _ unitsPerOne_pos_rat.ne']

theorem signed_natAbs (n : Int) (u : Nat) : signed (n < 0) (n.natAbs * u) = n * u := by
  rcases lt_or_ge n 0 with hneg | hnonneg
  · have habs : (n.natAbs : Int) = -n := Int.ofNat_natAbs_of_nonpos hneg.le
    simp only [signed, hneg, decide_true, if_true, Nat.cast_mul, habs]
    ring
  · have habs : (n.natAbs : Int) = n := Int.natAbs_of_nonneg hnonneg
    simp only [signed, Int.not_lt.2 hnonneg, decide_false, Nat.cast_mul, habs]
    rfl

/-- An integer of at most 53 significant bits is taken to a number as it is. -/
theorem extended?_ofInt {n : Int} (h : Fits (n.natAbs * unitsPerOne))
    (hlt : n.natAbs * unitsPerOne < unitsLimit) : (ofInt n).extended? = some (.ofRat n) := by
  rw [ofInt, ofRatio_of_fits _ h hlt, extended?]
  simp only [signed_natAbs, ofUnits_mul]

theorem mul_two_pow_lt {n a b c : Nat} (h : n < 2 ^ a) (hc : a + b ≤ c) : n * 2 ^ b < 2 ^ c :=
  calc n * 2 ^ b < 2 ^ a * 2 ^ b := Nat.mul_lt_mul_of_pos_right h (Nat.two_pow_pos b)
    _ = 2 ^ (a + b) := (Nat.pow_add 2 a b).symm
    _ ≤ 2 ^ c := Nat.pow_le_pow_right (by decide) hc

theorem div_two_pow_lt {n a b c : Nat} (h : n < 2 ^ a) (hc : a ≤ b + c) : n / 2 ^ b < 2 ^ c := by
  refine Nat.div_lt_of_lt_mul (Nat.lt_of_lt_of_le h ?_)
  rw [← Nat.pow_add]
  exact Nat.pow_le_pow_right (by decide) hc

/-- Integers of moderate size are not beyond all finite numbers. -/
theorem mul_unitsPerOne_lt {n k : Nat} (h : n < 2 ^ k) (hk : k ≤ 1024) :
    n * unitsPerOne < unitsLimit := by
  rw [unitsLimit_eq, unitsPerOne_eq]
  exact mul_two_pow_lt h (by omega)

theorem fits_mul_unitsPerOne {n : Nat} (h : n ≤ 2 ^ 53) : Fits (n * unitsPerOne) := by
  rw [unitsPerOne_eq, ← Nat.pow_eq]
  generalize 1074 = s
  exact fits_mul_pow h s

/-- Every count up to `2 ^ 53` is exact. -/
theorem extended?_ofNat {n : Nat} (h : n ≤ 2 ^ 53) : (ofNat n).extended? = some (.ofRat n) := by
  have hlt : n < 2 ^ 54 := Nat.lt_of_le_of_lt h (by decide)
  exact extended?_ofInt (n := n) (fits_mul_unitsPerOne h) (mul_unitsPerOne_lt hlt (by decide))

/-- The integer part of a number has no more significant bits than the number. -/
theorem fits_integerPart (m : Magnitude) : Fits (m.units / unitsPerOne * unitsPerOne) := by
  obtain ⟨u, hfits, -⟩ := m
  have hu : u < 2 ^ (u.log2 + 1) := Nat.lt_log2_self
  simp only [Fits, Nat.pow_eq] at hfits
  rcases Nat.le_total 1074 (u.log2 - 52) with hlarge | hsmall
  · -- The last bit is worth one or more, so there is no fraction.
    have hdvd : unitsPerOne ∣ u := by
      rw [unitsPerOne_eq]
      generalize 1074 = b at hlarge ⊢
      exact Nat.dvd_trans (Nat.pow_dvd_pow 2 hlarge) hfits
    rw [Nat.div_mul_cancel hdvd]
    simpa only [Fits, Nat.pow_eq] using hfits
  · -- The last bit is worth one or less, so what is above one has at most 53 bits.
    have hlt : u / unitsPerOne < 2 ^ 53 := by
      rw [unitsPerOne_eq]
      generalize 1074 = b at hsmall ⊢
      exact div_two_pow_lt hu (by omega)
    exact fits_mul_unitsPerOne (Nat.le_of_lt hlt)

/-! ### Integer parts -/

/-- The integer part of a rational number, toward zero. -/
def towardZero (q : ℚ) : Int := if q < 0 then ⌈q⌉ else ⌊q⌋

theorem towardZero_neg (q : ℚ) : towardZero (-q) = -towardZero q := by
  rcases lt_trichotomy q 0 with hlt | rfl | hgt
  · have hnonneg : ¬ -q < 0 := not_lt.2 (neg_nonneg.2 hlt.le)
    rw [towardZero, towardZero, if_neg hnonneg, if_pos hlt, Int.floor_neg]
  · rfl
  · have hneg : -q < 0 := neg_neg_iff_pos.2 hgt
    rw [towardZero, towardZero, if_pos hneg, if_neg (not_lt.2 hgt.le), Int.ceil_neg]

theorem ofUnits_signed (negative : Bool) (u : Nat) :
    ofUnits (signed negative u) =
      if negative then -((u : ℚ) / unitsPerOne) else u / unitsPerOne := by
  rw [ofUnits, signed]
  split
  · rw [Int.cast_neg, Int.cast_natCast, neg_div]
  · rw [Int.cast_natCast]

theorem abs_ofUnits_signed (negative : Bool) (u : Nat) :
    |ofUnits (signed negative u)| = (u : ℚ) / unitsPerOne := by
  have hnonneg : (0 : ℚ) ≤ u / unitsPerOne :=
    div_nonneg (Nat.cast_nonneg u) unitsPerOne_pos_rat.le
  rw [ofUnits_signed]
  split
  · rw [abs_neg, abs_of_nonneg hnonneg]
  · exact abs_of_nonneg hnonneg

theorem towardZero_natCast_div (u d : Nat) : towardZero ((u : ℚ) / d) = (u / d : Nat) := by
  have hnonneg : ¬ (u : ℚ) / d < 0 := not_lt.2 (by positivity)
  rw [towardZero, if_neg hnonneg, Rat.floor_natCast_div_natCast, Int.natCast_ediv]

theorem towardZero_ofUnits (negative : Bool) (u : Nat) :
    towardZero (ofUnits (signed negative u)) = signed negative (u / unitsPerOne) := by
  rw [ofUnits_signed]
  cases negative with
  | false => exact towardZero_natCast_div u unitsPerOne
  | true =>
    rw [if_pos rfl, towardZero_neg, towardZero_natCast_div]
    rfl

theorem clampInt64_toInt {n : Int} (hlow : -2 ^ 63 ≤ n) (hhigh : n < 2 ^ 63) :
    (clampInt64 n).toInt = n := by
  have hmax : max Int64.minValue.toInt (min Int64.maxValue.toInt n) = n := by
    rw [Int64.toInt_minValue, Int64.toInt_maxValue]
    omega
  rw [clampInt64, hmax, Int64.toInt_ofInt_of_le hlow hhigh]

section

variable {x : Binary64} {q : ℚ}

theorem exists_of_extended?_ofRat (h : x.extended? = some (.ofRat q)) :
    ∃ negative m, x = finite negative m ∧ q = ofUnits (signed negative m.units) := by
  match x with
  | infinite true => exact absurd (Option.some.inj h) (Extended.bot_lt_ofRat q).ne
  | infinite false => exact absurd (Option.some.inj h) (Extended.ofRat_lt_top q).ne'
  | finite negative m =>
    exact ⟨negative, m, rfl, (Extended.ofRat_injective (Option.some.inj h)).symm⟩

/-- A number that is no larger than the signed words has its integer part as one. -/
theorem toInt_truncate (h : x.extended? = some (.ofRat q)) (hq : |q| < 2 ^ 63) :
    x.truncate.toInt = towardZero q := by
  obtain ⟨negative, m, rfl, rfl⟩ := exists_of_extended?_ofRat h
  have hlt : m.units / unitsPerOne < 2 ^ 63 := by
    rw [abs_ofUnits_signed, div_lt_iff₀ unitsPerOne_pos_rat] at hq
    exact Nat.div_lt_of_lt_mul (by rw [Nat.mul_comm]; exact_mod_cast hq)
  obtain ⟨hlow, hhigh⟩ := signed_bounds negative hlt
  have hclamp : (clampInt64 (signed negative (m.units / unitsPerOne))).toInt =
      signed negative (m.units / unitsPerOne) := clampInt64_toInt (by omega) (by omega)
  rw [truncate, hclamp, towardZero_ofUnits]

/-- The integer part of a number is a number as it is. -/
theorem extended?_ofInt_towardZero (h : x.extended? = some (.ofRat q)) :
    (ofInt (towardZero q)).extended? = some (.ofRat (towardZero q)) := by
  obtain ⟨negative, m, rfl, rfl⟩ := exists_of_extended?_ofRat h
  rw [towardZero_ofUnits]
  refine extended?_ofInt ?_ ?_
  · rw [natAbs_signed]
    exact fits_integerPart m
  · rw [natAbs_signed]
    exact Nat.lt_of_le_of_lt (Nat.div_mul_le_self _ _) m.units_lt

end

end Binary64

end Storefront
