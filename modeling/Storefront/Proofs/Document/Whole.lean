import Storefront.Proofs.Binary64.Exact
import Storefront.Proofs.Document.Format
/-!
# Whole numbers written with the fewest digits

Written with the fewest digits that stand for it, a whole number `n` is rounded at one of its own
digits: the decimal is `n / 10 ^ j` or one more, times `10 ^ j` (`Binary64.exists_shortest_eq`).
Nothing is claimed about which `j` it is, or about whether rounding changes `n` at all. What matters
is the size. The decimal is at most twice as large as `n`, so that its numeral is short if `n` has
no more than fourteen digits (`Numeral.isShort_ofDecimal`), and then `n` comes back from its text
(`NumberFormat.reread?_shortest_ofInt`).
-/

namespace Storefront

open Text

namespace Binary64

/-! ### Digits -/

theorem digitCount_pos (n : Nat) : 0 < digitCount n := by
  rw [digitCount]
  split
  · exact Nat.one_pos
  · exact Nat.succ_pos _

/-- A power of ten appends as many zeros. -/
theorem digitCount_mul_ten_pow {n : Nat} (hn : 0 < n) (k : Nat) :
    digitCount (n * 10 ^ k) = digitCount n + k := by
  induction k with
  | zero => rw [Nat.pow_zero, Nat.mul_one, Nat.add_zero]
  | succ k ih =>
    have hpos : 0 < n * 10 ^ k := Nat.mul_pos hn (Nat.pow_pos (by decide))
    rw [Nat.pow_succ, ← Nat.mul_assoc, digitCount, if_neg (by omega),
      Nat.mul_div_cancel _ (by decide), ih, Nat.add_assoc]

/-- A number with more than `k` digits is no less than the least of these. -/
theorem ten_pow_le_of_lt_digitCount {n k : Nat} (hn : 0 < n) (hk : k < digitCount n) :
    10 ^ k ≤ n := by
  induction k generalizing n with
  | zero => exact hn
  | succ k ih =>
    rw [digitCount] at hk
    split at hk
    · omega
    · have hle := ih (n := n / 10) (by omega) (Nat.lt_of_succ_lt_succ hk)
      rw [Nat.pow_succ]
      omega

/-- The digits of a number are as many as it has. -/
theorem length_digits (n : Nat) : (digits n).length = digitCount n := by
  induction n using digitCount.induct with
  | case1 n h => rw [digits, digitCount, if_pos h, if_pos h, List.length_singleton]
  | case2 n h ih =>
    rw [digits, digitCount, if_neg h, if_neg h, List.length_append, ih, List.length_singleton]

/-- Whole numbers up to `2 ^ 53` have few enough bits. -/
theorem fits_of_le {n : Nat} (h : n ≤ 2 ^ 53) : Fits n := by
  have hfits := fits_mul_pow (k := n) h 0
  rwa [Nat.pow_eq, Nat.pow_zero, Nat.mul_one] at hfits

/-! ### The shortest decimal -/

/-- The two decimals to try on a grid. -/
theorem mem_neighbours {d d' : Decimal} {k : Nat} :
    d' ∈ neighbours d k ↔
      d' = ⟨d.negative, d.coefficient / 10 ^ k, d.exponent + k⟩ ∨
        d' = ⟨d.negative, d.coefficient / 10 ^ k + 1, d.exponent + k⟩ := by
  rw [neighbours]
  dsimp only
  split
  · simp
  · simp [or_comm]

/-- A whole number in units is exactly the decimal that has some number of zeros behind it, and the
same number everywhere. -/
theorem exists_exactDecimal_eq : ∃ s : Nat, ∀ negative n,
    exactDecimal negative (n * unitsPerOne) = ⟨negative, n * 10 ^ s, -s⟩ := by
  refine ⟨1074, fun negative n ↦ ?_⟩
  have hexponent : (-1074 : Int) = -((1074 : Nat) : Int) := rfl
  rw [exactDecimal, unitsPerOne_eq, hexponent]
  -- The powers are never computed: what follows holds for any exponent.
  generalize 1074 = s
  rw [Nat.pow_eq, Nat.mul_assoc, ← Nat.mul_pow]

/-- The decimals to try for a whole number with `s` zeros behind it on the grids that drop all of
these. -/
def wholeCandidates (negative : Bool) (n s : Nat) : List Decimal :=
  (List.range (digitCount n)).flatMap fun i ↦
    neighbours ⟨negative, n * 10 ^ s, -s⟩ (digitCount n + s - (i + 1))

/-- They are tried before all others. -/
theorem exists_shortCandidates_eq (negative : Bool) {n : Nat} (s : Nat) (hn : 0 < n)
    (hcount : digitCount n ≤ 17) : ∃ finer,
      shortCandidates ⟨negative, n * 10 ^ s, -s⟩ = wholeCandidates negative n s ++ finer := by
  obtain ⟨rest, hrest⟩ := Nat.exists_eq_add_of_le hcount
  refine ⟨((List.range rest).map (digitCount n + ·)).flatMap fun i ↦
    neighbours ⟨negative, n * 10 ^ s, -s⟩ (digitCount n + s - (i + 1)), ?_⟩
  rw [shortCandidates, digitCount_mul_ten_pow hn, hrest, List.range_add, List.flatMap_append,
    wholeCandidates]

/-- The number itself is one of them. -/
theorem mem_wholeCandidates (negative : Bool) (n s : Nat) :
    (⟨negative, n, 0⟩ : Decimal) ∈ wholeCandidates negative n s := by
  have hpos := digitCount_pos n
  refine List.mem_flatMap.2 ⟨digitCount n - 1, List.mem_range.2 (by omega), ?_⟩
  have hdropped : digitCount n + s - (digitCount n - 1 + 1) = s := by omega
  refine mem_neighbours.2 (.inl ?_)
  rw [hdropped, Nat.mul_div_cancel _ (Nat.pow_pos (by decide)), Int.add_left_neg]

/-- Each of them is the number rounded, down or up, at one of its digits. -/
theorem exists_of_mem_wholeCandidates {negative : Bool} {n s : Nat} {d : Decimal} (hn : 0 < n)
    (hd : d ∈ wholeCandidates negative n s) :
    ∃ j c : Nat, d = ⟨negative, c, j⟩ ∧ 10 ^ j ≤ n ∧ c ≤ n / 10 ^ j + 1 := by
  obtain ⟨i, hi, hgrid⟩ := List.mem_flatMap.1 hd
  rw [List.mem_range] at hi
  -- Beside the zeros, `j` of the digits of the number are dropped.
  obtain ⟨j, hj⟩ : ∃ j, digitCount n + s - (i + 1) = j + s := ⟨digitCount n - (i + 1), by omega⟩
  have hquotient : n * 10 ^ s / 10 ^ (j + s) = n / 10 ^ j := by
    rw [Nat.pow_add, Nat.mul_div_mul_right _ _ (Nat.pow_pos (by decide))]
  have hexponent : -(s : Int) + (j + s : Nat) = j := by omega
  have hle : 10 ^ j ≤ n := ten_pow_le_of_lt_digitCount hn (by omega)
  rw [hj, mem_neighbours] at hgrid
  simp only [hquotient, hexponent] at hgrid
  rcases hgrid with rfl | rfl
  · exact ⟨j, _, rfl, hle, Nat.le_succ _⟩
  · exact ⟨j, _, rfl, hle, Nat.le_refl _⟩

/-- The shortest decimal of a whole number rounds it, down or up, at one of its digits. -/
theorem exists_shortest_eq {negative : Bool} {m : Magnitude} {n : Nat} (hn : 0 < n)
    (hcount : digitCount n ≤ 17) (hunits : m.units = n * unitsPerOne)
    (hm : ofDecimal ⟨negative, n, 0⟩ = finite negative m) :
    ∃ j c : Nat, shortest negative m = ⟨negative, c, j⟩ ∧ 10 ^ j ≤ n ∧ c ≤ n / 10 ^ j + 1 := by
  obtain ⟨s, hexact⟩ := exists_exactDecimal_eq
  obtain ⟨finer, hcandidates⟩ := exists_shortCandidates_eq negative s hn hcount
  -- The number itself reads back, so that the search ends at it if not before.
  obtain ⟨d, hd⟩ : ∃ d, (wholeCandidates negative n s).find?
      (fun d ↦ ofDecimal d = finite negative m) = some d :=
    Option.isSome_iff_exists.1
      (List.find?_isSome.2 ⟨_, mem_wholeCandidates negative n s, decide_eq_true hm⟩)
  have hshortest : shortest negative m = d := by
    rw [shortest, hunits, hexact]
    show ((shortCandidates _).find? _).getD _ = d
    rw [hcandidates, List.find?_append, hd]
    rfl
  rw [hshortest]
  exact exists_of_mem_wholeCandidates hn (List.mem_of_find?_eq_some hd)

/-- A whole number of at most fourteen digits is exact. -/
theorem exists_ofInt_eq {n : Int} (h : n.natAbs ≤ 10 ^ 14) : ∃ m : Magnitude,
    m.units = n.natAbs * unitsPerOne ∧ ofInt n = finite (n < 0) m ∧
      ofDecimal ⟨n < 0, n.natAbs, 0⟩ = finite (n < 0) m := by
  have hlt : n.natAbs < 2 ^ 47 := Nat.lt_of_le_of_lt h (by decide)
  let m : Magnitude := ⟨_, fits_mul_unitsPerOne (Nat.le_trans h (by decide)),
    mul_unitsPerOne_lt hlt (by decide)⟩
  have hfinite : ofInt n = finite (n < 0) m := ofRatio_of_fits _ _ _
  refine ⟨m, rfl, hfinite, ?_⟩
  rw [← hfinite, ofDecimal_eq_ofRatio, ofInt]
  simp only [Int.neg_zero, Int.toNat_zero, Nat.pow_zero, Nat.mul_one]

end Binary64

/-! ### Short numerals -/

namespace Numeral

/-- Stripping the zeros of a decimal without a fraction leaves one of the same value. -/
theorem exists_stripZeros_eq (c j : Nat) :
    ∃ c' j' : Nat, Decimal.stripZeros c j = (c', (j' : Int)) ∧ c' * 10 ^ j' = c * 10 ^ j ∧
      (c' = 0 → j' = 0) := by
  by_cases hc : c = 0
  · refine ⟨0, 0, ?_, ?_, fun _ ↦ rfl⟩
    · rw [hc, Decimal.stripZeros_zero]
      rfl
    · rw [hc, Nat.zero_mul, Nat.zero_mul]
  · obtain ⟨k, hk, he⟩ := Decimal.exists_stripZeros c j hc
    refine ⟨(Decimal.stripZeros c j).1, j + k, Prod.ext rfl (by rw [he, Nat.cast_add]), ?_, ?_⟩
    · rw [Nat.add_comm, Nat.pow_add, ← Nat.mul_assoc, ← hk]
    · intro hzero
      rw [hzero, Nat.zero_mul] at hk
      exact absurd hk hc

/-- A decimal of moderate size without a fraction is written in digits, with a zero behind the
point. -/
theorem isShort_ofDecimal {negative : Bool} {c j : Nat} (h : c * 10 ^ j * 10 ≤ 2 ^ 53) :
    (ofDecimal ⟨negative, c, j⟩).IsShort := by
  obtain ⟨c', j', hstrip, hvalue, hzero⟩ := exists_stripZeros_eq c j
  have hlength : (digits c').length + j' ≤ 16 := by
    rw [Binary64.length_digits]
    rcases Nat.eq_zero_or_pos c' with rfl | hpos
    · rw [hzero rfl, Binary64.digitCount, if_pos (by decide)]
      decide
    · rw [← Binary64.digitCount_mul_ten_pow hpos, hvalue]
      by_contra hlong
      have hpos' : 0 < c * 10 ^ j := hvalue ▸ Nat.mul_pos hpos (Nat.pow_pos (by decide))
      have hle := Binary64.ten_pow_le_of_lt_digitCount hpos' (Nat.not_le.1 hlong)
      omega
  have hwritten : ofDecimal ⟨negative, c, j⟩ =
      { negative, whole := digits c' ++ List.replicate j' '0', fraction := ['0'] } := by
    rw [ofDecimal]
    simp only [hstrip]
    rw [if_pos (by omega), Int.toNat_natCast]
  have hcoefficient : (ofDecimal ⟨negative, c, j⟩).decimal.coefficient = c * 10 ^ j * 10 := by
    rw [hwritten, decimal, digitsValue_append_singleton, digitsValue_append, digitsValue_digits,
      digitsValue_replicate_zero, List.length_replicate, hvalue]
    exact Nat.mul_comm _ _
  have hexponent : (ofDecimal ⟨negative, c, j⟩).decimal.exponent = -1 := by
    rw [hwritten]
    rfl
  refine ⟨?_, ?_, ?_⟩
  · rw [hcoefficient]
    exact Nat.lt_of_le_of_lt h (by decide)
  · rw [hcoefficient]
    exact Binary64.fits_of_le h
  · rw [hexponent]
    decide

end Numeral

/-- A whole number of at most fourteen digits comes back from its text. -/
theorem NumberFormat.reread?_shortest_ofInt {n : Int} (h : n.natAbs ≤ 10 ^ 14) :
    shortest.reread? (.ofInt n) = some (.ofInt n) := by
  by_cases hzero : n = 0
  · subst hzero
    decide +kernel
  have hn : 0 < n.natAbs := Int.natAbs_pos.2 hzero
  obtain ⟨m, hunits, hfinite, hdecimal⟩ := Binary64.exists_ofInt_eq h
  have hcount : Binary64.digitCount n.natAbs ≤ 17 := by
    by_contra hlong
    have hle := Binary64.ten_pow_le_of_lt_digitCount hn (Nat.not_le.1 hlong)
    omega
  obtain ⟨j, c, hshortest, hj, hc⟩ :=
    Binary64.exists_shortest_eq hn hcount hunits hdecimal
  have hvalue : c * 10 ^ j ≤ n.natAbs + 10 ^ j :=
    calc c * 10 ^ j ≤ (n.natAbs / 10 ^ j + 1) * 10 ^ j := Nat.mul_le_mul_right _ hc
      _ = n.natAbs / 10 ^ j * 10 ^ j + 10 ^ j := Nat.succ_mul _ _
      _ ≤ n.natAbs + 10 ^ j := Nat.add_le_add_right (Nat.div_mul_le_self _ _) _
  rw [hfinite]
  refine shortest.reread?_of_isShort ?_
  show (Numeral.ofDecimal (Binary64.shortest _ _)).IsShort
  rw [hshortest]
  exact Numeral.isShort_ofDecimal (by omega)

end Storefront
