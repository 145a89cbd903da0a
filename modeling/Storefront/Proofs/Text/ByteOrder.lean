import Storefront.Text.Bytes
import Mathlib.Algebra.GroupWithZero.Nat
import Mathlib.Data.Char
import Mathlib.Data.List.Lex
/-!
# The order of texts is that of their bytes

Maps list their names in the order of the characters, which is the order of the bytes: a text is
less than another one if and only if its UTF-8 form is (`utf8_lt_iff`).

A UTF-8 form is the number of the character in groups of six bits, with the length of the form
marked in the first byte (`Encodes`). Among forms of equal length the groups compare like the
numbers (`sextets_append_lt`); of two forms of different length the longer one has the larger number
and the larger first byte. No form is the start of another one, so whatever follows does not matter.
-/

namespace Storefront.Text

/-- The bytes of a text. -/
def utf8 (s : String) : List UInt8 := s.toUTF8.data.toList

theorem utf8_eq_flatMap (s : String) : utf8 s = s.toList.flatMap String.utf8EncodeChar := by
  have hbytes : s.toUTF8 = s.toList.utf8Encode := by
    rw [String.toUTF8_eq_toByteArray, ← String.toByteArray_ofList, String.ofList_toList]
  rw [utf8, hbytes, List.utf8Encode, List.data_toByteArray]

/-! ### Groups of six bits -/

/-- A number in groups of six bits: the first one on top of a mark, and as many further ones as
given, each marked as a further one. -/
def sextets (mark : Nat) : Nat → Nat → List UInt8
  | 0, n => [UInt8.ofNat (n + mark)]
  | k + 1, n => sextets mark k (n / 64) ++ [UInt8.ofNat (n % 64 + 128)]

theorem exists_sextets_eq_cons (mark k n : Nat) :
    ∃ r, sextets mark k n = UInt8.ofNat (n / 64 ^ k + mark) :: r := by
  induction k generalizing n with
  | zero => exact ⟨[], by rw [sextets, Nat.pow_zero, Nat.div_one]⟩
  | succ k ih =>
    obtain ⟨r, hr⟩ := ih (n / 64)
    rw [sextets, hr, Nat.div_div_eq_div_mul, ← Nat.pow_succ']
    exact ⟨_, rfl⟩

section

variable {m n mark k : Nat} (x y : List UInt8)

theorem ofNat_cons_lt (hn : n < 256) (h : m < n) :
    UInt8.ofNat m :: x < UInt8.ofNat n :: y := by
  have hlt : UInt8.ofNat m < UInt8.ofNat n := (UInt8.ofNat_lt_iff_lt (Nat.lt_trans h hn) hn).2 h
  exact List.cons_lt_cons_iff.2 (.inl hlt)

/-- Where the first bytes differ they decide. -/
theorem sextets_append_lt_of_first {mark' k' : Nat} (hfits : n / 64 ^ k' + mark' < 256)
    (h : m / 64 ^ k + mark < n / 64 ^ k' + mark') :
    sextets mark k m ++ x < sextets mark' k' n ++ y := by
  obtain ⟨r, hr⟩ := exists_sextets_eq_cons mark k m
  obtain ⟨r', hr'⟩ := exists_sextets_eq_cons mark' k' n
  rw [hr, hr', List.cons_append, List.cons_append]
  exact ofNat_cons_lt _ _ hfits h

/-- Equally many groups compare like the numbers. -/
theorem sextets_append_lt (hfits : n / 64 ^ k + mark < 256) (h : m < n) :
    sextets mark k m ++ x < sextets mark k n ++ y := by
  induction k generalizing m n x y with
  | zero =>
    rw [Nat.pow_zero, Nat.div_one] at hfits
    exact ofNat_cons_lt x y hfits (Nat.add_lt_add_right h mark)
  | succ k ih =>
    rw [sextets, sextets, List.append_assoc, List.append_assoc]
    rcases Nat.lt_or_ge (m / 64) (n / 64) with hlt | hge
    · rw [Nat.pow_succ', ← Nat.div_div_eq_div_mul] at hfits
      exact ih _ _ hfits hlt
    · have heq : m / 64 = n / 64 := by omega
      rw [heq]
      exact List.append_left_lt (ofNat_cons_lt x y (by omega) (by omega))

end

/-! ### Characters -/

/-- The UTF-8 forms of the numbers of characters. -/
inductive Encodes (n : Nat) : List UInt8 → Prop where
  /-- One byte. -/
  | one (h : n < 0x80) : Encodes n (sextets 0 0 n)
  /-- Two bytes. -/
  | two (hlow : 0x80 ≤ n) (h : n < 0x800) : Encodes n (sextets 0xC0 1 n)
  /-- Three bytes. -/
  | three (hlow : 0x800 ≤ n) (h : n < 0x10000) : Encodes n (sextets 0xE0 2 n)
  /-- Four bytes. -/
  | four (hlow : 0x10000 ≤ n) (h : n < 0x110000) : Encodes n (sextets 0xF0 3 n)

theorem encodes_utf8EncodeChar (c : Char) : Encodes c.val.toNat (String.utf8EncodeChar c) := by
  have hvalid : c.val.toNat < 0x110000 := by
    rcases c.valid with h | h
    · exact Nat.lt_trans h (by decide)
    · exact h.2
  unfold String.utf8EncodeChar
  generalize c.val.toNat = n at hvalid ⊢
  simp only
  split
  · exact .one (by omega)
  · split
    · rw [show n / 64 % 32 = n / 64 by omega]
      exact .two (by omega) (by omega)
    · split
      · rw [show n / 4096 % 16 = n / 64 / 64 by omega]
        exact .three (by omega) (by omega)
      · rw [show n / 262144 % 8 = n / 64 / 64 / 64 by omega,
          show n / 4096 % 64 = n / 64 / 64 % 64 by omega]
        exact .four (by omega) hvalid

theorem Encodes.append_lt {m n : Nat} {s t : List UInt8} (hs : Encodes m s) (ht : Encodes n t)
    (h : m < n) (x y : List UInt8) : s ++ x < t ++ y := by
  -- The smaller number has no longer form. Of two lengths the larger one has the larger mark.
  cases hs <;> cases ht <;>
    first
    | omega
    | refine sextets_append_lt_of_first x y ?_ ?_ <;> omega
    | exact sextets_append_lt x y (by omega) h

theorem Encodes.nil_lt_append {n : Nat} {s : List UInt8} (h : Encodes n s) (x : List UInt8) :
    [] < s ++ x := by
  have hcons : ∀ mark k, [] < sextets mark k n ++ x := fun mark k ↦ by
    obtain ⟨r, hr⟩ := exists_sextets_eq_cons mark k n
    rw [hr]
    exact List.nil_lt_cons _ _
  cases h <;> exact hcons _ _

/-! ### Texts -/

theorem flatMap_utf8EncodeChar_lt {s t : List Char} (h : s < t) :
    s.flatMap String.utf8EncodeChar < t.flatMap String.utf8EncodeChar := by
  induction h with
  | nil => exact (encodes_utf8EncodeChar _).nil_lt_append _
  | cons h ih => exact List.append_left_lt ih
  | rel h => exact (encodes_utf8EncodeChar _).append_lt (encodes_utf8EncodeChar _) h _ _

/-- **Texts are in the order of their bytes.** -/
theorem utf8_lt_iff {s t : String} : utf8 s < utf8 t ↔ s < t := by
  rw [utf8_eq_flatMap, utf8_eq_flatMap, String.lt_iff]
  refine ⟨fun h ↦ ?_, flatMap_utf8EncodeChar_lt⟩
  rcases lt_trichotomy s.toList t.toList with hlt | heq | hgt
  · exact hlt
  · exact absurd h (heq ▸ List.lt_irrefl _)
  · exact absurd h (List.lt_asymm (flatMap_utf8EncodeChar_lt hgt))

theorem compare_eq_lt_iff {s t : String} : compare s t = .lt ↔ utf8 s < utf8 t := by
  rw [utf8_lt_iff]
  exact compareOfLessAndEq_eq_lt

end Storefront.Text
