import Mathlib.Logic.Relation
import Storefront.Amount
import Storefront.Proofs.Binary64.Exact
import Storefront.Proofs.Binary64.RoundTrip
/-!
# What a displayed amount shows

Only the ASCII digits and the points of a display matter, and of these only what stands before the
second point. If that part holds a digit it is read as a whole, as any text of a number would be;
otherwise the amount is zero (`ofDisplay_eq_read`).

The longest numeral at the front of a text of digits and points is what stands before its second
point, a lone point included (`leadingNumeral_eq_beforePoint`). The reader of numbers takes every
such numeral that has a digit, `5.` and `.5` among them, and refuses the two that have none
(`exists_readUnsigned?_of_digit`, `readUnsigned?_of_not_digit`). No sign ever reaches the reader, so
that no amount is negative (`ofDisplay_eq_finite_or_infinite`).
-/

namespace Storefront

/-! ### Numbers without a minus sign -/

namespace Decimal

theorem negative_of_readUnsigned? {negative : Bool} {s : List Char} {d : Decimal}
    (h : readUnsigned? negative s = some d) : d.negative = negative := by
  simp only [readUnsigned?] at h
  split at h
  · cases h
  · obtain ⟨_, -, rfl⟩ := Option.map_eq_some_iff.1 h
    rfl

end Decimal

namespace Binary64

/-- A decimal is read as a number of its sign. -/
theorem ofDecimal_eq_finite_or_infinite (d : Decimal) :
    (∃ m, ofDecimal d = .finite d.negative m) ∨ ofDecimal d = .infinite d.negative := by
  rw [ofDecimal_eq_ofRatio, ofRatio]
  split
  · exact .inl ⟨_, rfl⟩
  · exact .inr rfl

end Binary64

namespace Amount

/-! ### The part before a point -/

/-- The part of a text before the point that follows `n` others; all of it if it has no more than
`n` points. -/
def beforePoint : Nat → List Char → List Char
  | _, [] => []
  | 0, c :: s => if c = '.' then [] else c :: beforePoint 0 s
  | n + 1, c :: s => if c = '.' then c :: beforePoint n s else c :: beforePoint (n + 1) s

@[simp] theorem beforePoint_zero_point (s : List Char) : beforePoint 0 ('.' :: s) = [] := by
  rw [beforePoint, if_pos rfl]

@[simp] theorem beforePoint_succ_point (n : Nat) (s : List Char) :
    beforePoint (n + 1) ('.' :: s) = '.' :: beforePoint n s := by
  rw [beforePoint, if_pos rfl]

theorem beforePoint_cons {c : Char} (h : c ≠ '.') (n : Nat) (s : List Char) :
    beforePoint n (c :: s) = c :: beforePoint n s := by
  cases n <;> rw [beforePoint, if_neg h]

/-- What follows the point that ends the part does not matter. -/
theorem beforePoint_append {n : Nat} {front : List Char} (h : n < front.count '.')
    (rest : List Char) : beforePoint n (front ++ rest) = beforePoint n front := by
  induction n, front using beforePoint.induct with
  | case1 n => exact absurd h (Nat.not_lt_zero n)
  | case2 front => rw [List.cons_append, beforePoint_zero_point, beforePoint_zero_point]
  | case3 c front hc ih =>
    rw [List.count_cons_of_ne hc] at h
    rw [List.cons_append, beforePoint_cons hc, beforePoint_cons hc, ih h]
  | case4 n front ih =>
    rw [List.count_cons_self] at h
    rw [List.cons_append, beforePoint_succ_point, beforePoint_succ_point,
      ih (Nat.lt_of_succ_lt_succ h)]
  | case5 n c front hc ih =>
    rw [List.count_cons_of_ne hc] at h
    rw [List.cons_append, beforePoint_cons hc, beforePoint_cons hc, ih h]

theorem count_beforePoint_le (n : Nat) (s : List Char) : (beforePoint n s).count '.' ≤ n := by
  induction n, s using beforePoint.induct with
  | case1 n => exact Nat.zero_le n
  | case2 s => rw [beforePoint_zero_point, List.count_nil]
  | case3 c s hc ih =>
    rw [beforePoint_cons hc, List.count_cons_of_ne hc]
    exact ih
  | case4 n s ih =>
    rw [beforePoint_succ_point, List.count_cons_self]
    exact Nat.succ_le_succ ih
  | case5 n c s hc ih =>
    rw [beforePoint_cons hc, List.count_cons_of_ne hc]
    exact ih

theorem beforePoint_sublist (n : Nat) (s : List Char) : (beforePoint n s).Sublist s := by
  induction n, s using beforePoint.induct with
  | case1 => exact List.nil_sublist _
  | case2 => exact beforePoint_zero_point _ ▸ List.nil_sublist _
  | case3 c s hc ih => exact beforePoint_cons hc 0 s ▸ ih.cons_cons c
  | case4 n s ih => exact beforePoint_succ_point n s ▸ ih.cons_cons '.'
  | case5 n c s hc ih => exact beforePoint_cons hc (n + 1) s ▸ ih.cons_cons c

/-! ### The numeral at the front -/

theorem isDigit_of_counts {c : Char} (h : counts c = true) (hc : c ≠ '.') : c.isDigit = true := by
  rcases Bool.or_eq_true_iff.1 h with hdigit | hpoint
  · exact hdigit
  · exact absurd (eq_of_beq hpoint) hc

theorem leadingNumeral_cons {c : Char} (h : c.isDigit = true) (s : List Char) :
    leadingNumeral (c :: s) = c :: leadingNumeral s := by
  simp only [leadingNumeral, List.span_eq_takeWhile_dropWhile, List.takeWhile_cons_of_pos h,
    List.dropWhile_cons_of_pos h]
  split <;> rfl

theorem leadingNumeral_point (s : List Char) :
    leadingNumeral ('.' :: s) = '.' :: s.takeWhile Char.isDigit := by
  have hpoint : ¬ '.'.isDigit = true := by decide
  simp only [leadingNumeral, List.span_eq_takeWhile_dropWhile, List.takeWhile_cons_of_neg hpoint,
    List.dropWhile_cons_of_neg hpoint, List.nil_append]

theorem takeWhile_isDigit_eq_beforePoint {s : List Char} (h : ∀ c ∈ s, counts c = true) :
    s.takeWhile Char.isDigit = beforePoint 0 s := by
  induction s with
  | nil => rfl
  | cons c s ih =>
    obtain ⟨hcounts, hs⟩ := List.forall_mem_cons.1 h
    by_cases hc : c = '.'
    · subst hc
      rw [beforePoint_zero_point, List.takeWhile_cons_of_neg (by decide)]
    · rw [beforePoint_cons hc, List.takeWhile_cons_of_pos (isDigit_of_counts hcounts hc), ih hs]

/-- The longest numeral at the front of digits and points is what stands before the second point. -/
theorem leadingNumeral_eq_beforePoint {s : List Char} (h : ∀ c ∈ s, counts c = true) :
    leadingNumeral s = beforePoint 1 s := by
  induction s with
  | nil => rfl
  | cons c s ih =>
    obtain ⟨hcounts, hs⟩ := List.forall_mem_cons.1 h
    by_cases hc : c = '.'
    · subst hc
      rw [leadingNumeral_point, beforePoint_succ_point, takeWhile_isDigit_eq_beforePoint hs]
    · rw [leadingNumeral_cons (isDigit_of_counts hcounts hc), beforePoint_cons hc, ih hs]

/-! ### Reading digits and points -/

theorem toLower_of_counts {c : Char} (h : counts c = true) : c.toLower = c := by
  rcases Bool.or_eq_true_iff.1 h with hdigit | hpoint
  · -- Digits come before the capital letters.
    have hle : c.val ≤ '9'.val := of_decide_eq_true (Bool.and_eq_true_iff.1 hdigit).2
    have hlt : ¬ 'A'.val ≤ c.val := fun hge ↦ absurd (UInt32.le_trans hge hle) (by decide)
    exact dif_neg fun hupper ↦ hlt hupper.1
  · rw [eq_of_beq hpoint]
    rfl

/-- Digits and points spell no word. -/
theorem ofWord?_of_counts (negative : Bool) {s : List Char} (h : ∀ c ∈ s, counts c = true) :
    Binary64.ofWord? negative (s.map Char.toLower) = none := by
  have hsame : s.map Char.toLower = s := by
    have hlower : s.map Char.toLower = s.map id :=
      List.map_congr_left fun c hc ↦ toLower_of_counts (h c hc)
    rwa [List.map_id] at hlower
  have hne {word : List Char} (hword : ∃ c ∈ word, counts c = false) : s ≠ word := by
    rintro rfl
    obtain ⟨c, hc, hcounts⟩ := hword
    rw [h c hc] at hcounts
    cases hcounts
  rw [hsame, Binary64.ofWord?, if_neg (hne ⟨'n', by decide, rfl⟩), if_neg]
  exact not_or.2 ⟨hne ⟨'i', by decide, rfl⟩, hne ⟨'i', by decide, rfl⟩⟩

theorem read?_of_counts {s : List Char} (h : ∀ c ∈ s, counts c = true) :
    Binary64.read? s = (Decimal.readUnsigned? false s).map Binary64.ofDecimal := by
  have hhead {sign : Char} (hsign : counts sign = false) : s.head? ≠ some sign := by
    intro heq
    rw [h sign (List.mem_of_head? heq)] at hsign
    cases hsign
  simp only [Binary64.read?, Text.splitSign_of_ne_head? (hhead rfl) (hhead rfl),
    ofWord?_of_counts false h]
  cases Decimal.readUnsigned? false s <;> rfl

/-- Digits and at most one point are digits alone, or digits with a point among or beside them. -/
theorem isDigit_or_exists_point {s : List Char} (h : ∀ c ∈ s, counts c = true)
    (hpoints : s.count '.' ≤ 1) :
    (∀ c ∈ s, c.isDigit = true) ∨ ∃ whole fraction, s = whole ++ '.' :: fraction ∧
      (∀ c ∈ whole, c.isDigit = true) ∧ ∀ c ∈ fraction, c.isDigit = true := by
  by_cases hmem : '.' ∈ s
  · obtain ⟨whole, fraction, rfl⟩ := List.append_of_mem hmem
    rw [List.count_append, List.count_cons_self] at hpoints
    have hdigits {part : List Char} (hpart : ∀ c ∈ part, counts c = true)
        (hnone : part.count '.' = 0) : ∀ c ∈ part, c.isDigit = true := fun c hc ↦
      isDigit_of_counts (hpart c hc) (ne_of_mem_of_not_mem hc (List.count_eq_zero.1 hnone))
    have hwhole : ∀ c ∈ whole, counts c = true := fun c hc ↦ h c (List.mem_append_left _ hc)
    have hfraction : ∀ c ∈ fraction, counts c = true := fun c hc ↦
      h c (List.mem_append_right _ (List.mem_cons_of_mem _ hc))
    exact .inr ⟨whole, fraction, rfl, hdigits hwhole (by omega), hdigits hfraction (by omega)⟩
  · exact .inl fun c hc ↦ isDigit_of_counts (h c hc) (ne_of_mem_of_not_mem hc hmem)

/-- A digit is enough for a number to be read. -/
theorem exists_readUnsigned?_of_digit (negative : Bool) {s : List Char}
    (h : ∀ c ∈ s, counts c = true) (hpoints : s.count '.' ≤ 1)
    (hdigit : ∃ c ∈ s, c.isDigit = true) :
    ∃ d, Decimal.readUnsigned? negative s = some d := by
  obtain ⟨c, hc, hcdigit⟩ := hdigit
  rcases isDigit_or_exists_point h hpoints with hall | ⟨whole, fraction, rfl, hwhole, hfraction⟩
  · exact ⟨_, Decimal.readUnsigned?_of_isDigit negative (List.ne_nil_of_mem hc) hall⟩
  · refine ⟨_, Decimal.readUnsigned?_point negative ?_ hwhole hfraction⟩
    rintro ⟨rfl, rfl⟩
    rw [List.mem_singleton.1 hc] at hcdigit
    exact absurd hcdigit (by decide)

/-- Without a digit nothing is read: the text is empty or a lone point. -/
theorem readUnsigned?_of_not_digit (negative : Bool) {s : List Char}
    (h : ∀ c ∈ s, counts c = true) (hpoints : s.count '.' ≤ 1)
    (hdigit : ∀ c ∈ s, c.isDigit = false) : Decimal.readUnsigned? negative s = none := by
  have hnil {part : List Char} (hsub : ∀ c ∈ part, c ∈ s)
      (hpart : ∀ c ∈ part, c.isDigit = true) : part = [] :=
    List.eq_nil_iff_forall_not_mem.2 fun c hc ↦
      Bool.false_ne_true ((hdigit c (hsub c hc)).symm.trans (hpart c hc))
  rcases isDigit_or_exists_point h hpoints with hall | ⟨whole, fraction, rfl, hwhole, hfraction⟩
  · rw [hnil (fun _ hc ↦ hc) hall]
    rfl
  · rw [hnil (fun _ hc ↦ List.mem_append_left _ hc) hwhole,
      hnil (fun _ hc ↦ List.mem_append_right _ (List.mem_cons_of_mem _ hc)) hfraction]
    rfl

/-! ### What a display shows -/

/-- The digits and points of a display that stand before its second point. -/
def shown (display : String) : List Char :=
  beforePoint 1 (display.toList.filter fun c ↦ c.isDigit || c == '.')

theorem counts_of_mem_shown {display : String} {c : Char} (h : c ∈ shown display) :
    counts c = true :=
  (List.mem_filter.1 ((beforePoint_sublist _ _).subset h)).2

theorem count_shown_le (display : String) : (shown display).count '.' ≤ 1 :=
  count_beforePoint_le _ _

theorem leadingNumeral_eq_shown (display : String) :
    leadingNumeral (display.toList.filter counts) = shown display :=
  leadingNumeral_eq_beforePoint fun _ hc ↦ (List.mem_filter.1 hc).2

/-- An amount is what the shown part reads as, without a sign. -/
theorem ofDisplay_eq_getD (display : String) :
    ofDisplay display =
      ((Decimal.readUnsigned? false (shown display)).map Binary64.ofDecimal).getD
        (.zero false) := by
  rw [ofDisplay, leadingNumeral_eq_shown, read?_of_counts fun _ hc ↦ counts_of_mem_shown hc]

theorem ofDisplay_congr {a b : String} (h : shown a = shown b) : ofDisplay a = ofDisplay b := by
  rw [ofDisplay_eq_getD, ofDisplay_eq_getD, h]

/-- An amount carries no minus sign and is a number. -/
theorem ofDisplay_eq_finite_or_infinite (display : String) :
    (∃ m, ofDisplay display = .finite false m) ∨ ofDisplay display = .infinite false := by
  rw [ofDisplay_eq_getD]
  cases hread : Decimal.readUnsigned? false (shown display) with
  | none => exact .inl ⟨_, rfl⟩
  | some d =>
    have hd := Binary64.ofDecimal_eq_finite_or_infinite d
    rwa [Decimal.negative_of_readUnsigned? hread] at hd

/-- A displayed amount has an exact value, infinity included. -/
theorem exists_extended?_ofDisplay (display : String) :
    ∃ a, (ofDisplay display).extended? = some a := by
  rcases ofDisplay_eq_finite_or_infinite display with ⟨m, h⟩ | h
  · exact ⟨_, by rw [h]; rfl⟩
  · exact ⟨_, by rw [h]; rfl⟩

/-! ### Changes that do not show -/

/-- A character that is neither a digit nor a point. -/
def IsDecoration (c : Char) : Prop := c.isDigit = false ∧ c ≠ '.'

instance (c : Char) : Decidable (IsDecoration c) :=
  inferInstanceAs (Decidable (_ ∧ _))

/-- One change of a text that leaves its digits and points alone: another character is put in, taken
out or exchanged. -/
inductive Redecorated : List Char → List Char → Prop where
  | insert (front rest : List Char) {c : Char} (h : IsDecoration c) :
      Redecorated (front ++ rest) (front ++ c :: rest)
  | delete (front rest : List Char) {c : Char} (h : IsDecoration c) :
      Redecorated (front ++ c :: rest) (front ++ rest)
  | replace (front rest : List Char) {c c' : Char} (h : IsDecoration c) (h' : IsDecoration c') :
      Redecorated (front ++ c :: rest) (front ++ c' :: rest)

theorem counts_of_isDecoration {c : Char} (h : IsDecoration c) : ¬ counts c = true :=
  fun hc ↦ Bool.false_ne_true (h.1.symm.trans (isDigit_of_counts hc h.2))

theorem filter_append_decoration {c : Char} (h : IsDecoration c) (front rest : List Char) :
    (front ++ c :: rest).filter counts = (front ++ rest).filter counts := by
  rw [List.filter_append, List.filter_append, List.filter_cons_of_neg (counts_of_isDecoration h)]

/-- A change keeps the digits and points. -/
theorem Redecorated.filter_eq {s s' : List Char} (h : Redecorated s s') :
    s'.filter counts = s.filter counts := by
  cases h with
  | insert front rest h => exact filter_append_decoration h front rest
  | delete front rest h => exact (filter_append_decoration h front rest).symm
  | replace front rest h h' =>
    rw [filter_append_decoration h', filter_append_decoration h]

/-- So do any number of changes. -/
theorem filter_eq_of_redecorated {s s' : List Char}
    (h : Relation.ReflTransGen Redecorated s s') : s'.filter counts = s.filter counts := by
  induction h with
  | refl => rfl
  | tail _ hstep ih => rw [hstep.filter_eq, ih]

theorem shown_of_redecorated {a b : String}
    (h : Relation.ReflTransGen Redecorated a.toList b.toList) : shown b = shown a :=
  congrArg (beforePoint 1) (filter_eq_of_redecorated h)

/-- What follows the second point does not show. -/
theorem shown_append {front : String} (h : 2 ≤ front.toList.count '.') (rest : String) :
    shown (front ++ rest) = shown front := by
  rw [shown, shown, String.toList_append, List.filter_append]
  refine beforePoint_append ?_ _
  rwa [List.count_filter rfl]

/-- **What a displayed amount is.** If a digit stands before the second of its points, it is the
number that the digits and points up to there spell; otherwise it is zero. Changes of other
characters and of whatever follows the second point do not change it, and it is neither negative nor
not a number. -/
theorem ofDisplay_eq_read (display : String) :
    ((∃ c ∈ shown display, c.isDigit = true) →
      Binary64.read? (shown display) = some (ofDisplay display)) ∧
    ((∀ c ∈ shown display, c.isDigit = false) → ofDisplay display = .zero false) ∧
    (∀ display' : String, Relation.ReflTransGen Redecorated display.toList display'.toList →
      ofDisplay display' = ofDisplay display) ∧
    (∀ rest : String, 2 ≤ display.toList.count '.' →
      ofDisplay (display ++ rest) = ofDisplay display) ∧
    ((∃ m, ofDisplay display = .finite false m) ∨ ofDisplay display = .infinite false) := by
  have hcounts : ∀ c ∈ shown display, counts c = true := fun _ ↦ counts_of_mem_shown
  have hpoints := count_shown_le display
  refine ⟨fun hdigit ↦ ?_, fun hdigit ↦ ?_, fun _ hchanges ↦ ?_, fun rest htwo ↦ ?_,
    ofDisplay_eq_finite_or_infinite display⟩
  · obtain ⟨d, hd⟩ := exists_readUnsigned?_of_digit false hcounts hpoints hdigit
    rw [read?_of_counts hcounts, ofDisplay_eq_getD, hd]
    rfl
  · rw [ofDisplay_eq_getD, readUnsigned?_of_not_digit false hcounts hpoints hdigit]
    rfl
  · exact ofDisplay_congr (shown_of_redecorated hchanges)
  · exact ofDisplay_congr (shown_append htwo rest)

/-- An Arabic digit, a currency sign and a second point; no digit before the second point; another
separator; and a longer text after two points. -/
theorem ofDisplay_eq_read_decorated :
    (shown "٣1.2€50,.9" = "1.250".toList ∧
      Binary64.read? "1.250".toList = some (ofDisplay "٣1.2€50,.9")) ∧
    (shown "free. .7" = ['.'] ∧ ofDisplay "free. .7" = .zero false) ∧
    (Redecorated "1,250 kr".toList "1 250 kr".toList ∧
      ofDisplay "1 250 kr" = ofDisplay "1,250 kr") ∧
    (2 ≤ "..12.5".toList.count '.' ∧ ofDisplay ("..12.5" ++ "3") = ofDisplay "..12.5") := by
  have hdecorated : shown "٣1.2€50,.9" = "1.250".toList := by decide
  have hpoint : shown "free. .7" = ['.'] := by decide
  have hcomma : IsDecoration ',' := by decide
  have hblank : IsDecoration ' ' := by decide
  have hchange : Redecorated "1,250 kr".toList "1 250 kr".toList :=
    .replace ['1'] "250 kr".toList hcomma hblank
  have htwo : 2 ≤ "..12.5".toList.count '.' := by decide
  refine ⟨⟨hdecorated, ?_⟩, ⟨hpoint, ?_⟩, ⟨hchange, ?_⟩, ⟨htwo, ?_⟩⟩
  · rw [← hdecorated]
    exact (ofDisplay_eq_read "٣1.2€50,.9").1 ⟨'1', by decide, rfl⟩
  · exact (ofDisplay_eq_read "free. .7").2.1 (hpoint ▸ List.forall_mem_singleton.2 rfl)
  · exact (ofDisplay_eq_read "1,250 kr").2.2.1 "1 250 kr" (.single hchange)
  · exact (ofDisplay_eq_read "..12.5").2.2.2.1 "3" htwo

end Amount

end Storefront
