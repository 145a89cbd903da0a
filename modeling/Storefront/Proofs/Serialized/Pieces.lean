import Storefront.Serialized.Writer
import Storefront.Serialized.Reader
import Storefront.Proofs.Binary64.RoundTrip
/-!
# Pieces of the serialized form read back

Each piece that the writer puts out is taken off the front of any longer text by the reader of that
piece: literals, lengths, integers, truth values, numbers, texts and array keys. The statements
leave the rest of the text open, so that they chain.

A text is cut out by its length in bytes and is not looked into (`countedText_append`); it may hold
quotes, semicolons, braces and whole serialized values.
-/

namespace Storefront.Serialized

open Text

/-! ### Readers in sequence -/

section

variable {α β : Type}

@[simp] theorem ok_bind (a : α) (f : α → Except Failure β) : (Except.ok a >>= f) = f a := rfl

@[simp] theorem error_bind (e : Failure) (f : α → Except Failure β) :
    (Except.error e >>= f) = .error e := rfl

end

/-! ### Literals and numerals -/

theorem literal_append (expected rest : List Char) :
    literal expected (expected ++ rest) = .ok rest := by
  have hstart : expected.isPrefixOf (expected ++ rest) = true :=
    List.isPrefixOf_iff_prefix.2 (List.prefix_append _ _)
  rw [literal, if_pos hstart, List.drop_left]

theorem literal_one (c : Char) (rest : List Char) : literal [c] (c :: rest) = .ok rest :=
  literal_append [c] rest

theorem literal_two (c d : Char) (rest : List Char) :
    literal [c, d] (c :: d :: rest) = .ok rest :=
  literal_append [c, d] rest

theorem numeral?_digits_append (n : Nat) {rest : List Char} (h : StopsAt Char.isDigit rest) :
    numeral? (digits n ++ rest) = some (n, rest) := by
  by_cases hn : n = 0
  · rw [hn, digits_zero]
    rfl
  · obtain ⟨c, ds, heq, hdigit, hzero⟩ := exists_digits_eq_cons n
    have htake := takeWhile_append_of_stopsAt (fun d ↦ isDigit_of_mem_digits (n := n)) h
    have hdrop := dropWhile_append_of_stopsAt (fun d ↦ isDigit_of_mem_digits (n := n)) h
    rw [heq, List.cons_append] at htake hdrop ⊢
    unfold numeral?
    split
    · next hcons =>
      cases hcons
      exact absurd rfl (hzero hn)
    · next hcons =>
      cases hcons
      rw [if_pos hdigit, htake, hdrop, ← heq, digitsValue_digits]
    · next hcons => cases hcons

theorem length_append {n : Nat} (hn : n < UInt64.size) {rest : List Char}
    (h : StopsAt Char.isDigit rest) : length (digits n ++ rest) = .ok (n, rest) := by
  simp only [length, numeral?_digits_append n h, if_pos hn]

/-! ### Scalars -/

theorem integer_append (n : Int64) {rest : List Char} (h : StopsAt Char.isDigit rest) :
    integer (writeInt n.toInt ++ rest) = .ok (n, rest) := by
  have hlow := n.minValue_le_toInt
  have hhigh := n.toInt_le
  rw [writeInt]
  -- The reader refuses a sign in front of zero; a negative number is not zero.
  by_cases hneg : n.toInt < 0
  · have hsign : splitSign ('-' :: (digits n.toInt.natAbs ++ rest)) =
        (true, digits n.toInt.natAbs ++ rest) := rfl
    have hvalue : -(n.toInt.natAbs : Int) = n.toInt := by omega
    have hfits : ¬((n.toInt.natAbs = 0 ∧
        digits n.toInt.natAbs ++ rest ≠ '-' :: (digits n.toInt.natAbs ++ rest)) ∨
        n.toInt < Int64.minValue.toInt ∨ Int64.maxValue.toInt < n.toInt) := by omega
    rw [if_pos hneg, List.cons_append]
    simp only [integer, hsign, numeral?_digits_append _ h, if_true, hvalue, if_neg hfits,
      Int64.ofInt_toInt]
  · have hvalue : (n.toInt.natAbs : Int) = n.toInt := by omega
    have hfits : ¬((n.toInt.natAbs = 0 ∧
        digits n.toInt.natAbs ++ rest ≠ digits n.toInt.natAbs ++ rest) ∨
        n.toInt < Int64.minValue.toInt ∨ Int64.maxValue.toInt < n.toInt) := by
      intro hbad
      rcases hbad with ⟨-, hne⟩ | hbound
      · exact hne rfl
      · omega
    rw [if_neg hneg]
    simp only [integer, splitSign_digits_append, numeral?_digits_append _ h, Bool.false_eq_true,
      if_false, hvalue, if_neg hfits, Int64.ofInt_toInt]

/-- The spelling of a number is read back, by the reader that knows the words in any case. -/
theorem read?_floatText (x : Binary64) : Binary64.read? (floatText x) = some x := by
  unfold floatText
  split
  · rfl
  · rfl
  · rfl
  · exact Binary64.read?_write x

theorem floatText_ne_nil (x : Binary64) : floatText x ≠ [] := by
  intro hnil
  have hread := read?_floatText x
  rw [hnil] at hread
  cases hread

/-- The spelling of a number does not hold the semicolon that ends it. -/
theorem all_ne_semicolon_floatText (x : Binary64) : (floatText x).all (· ≠ ';') = true := by
  unfold floatText
  split
  · rfl
  · rfl
  · rfl
  · refine List.all_eq_true.2 fun c hc ↦ decide_eq_true ?_
    rintro rfl
    cases List.all_eq_true.1 (Binary64.all_isNumberChar_write x) ';' hc

theorem float_append (x : Binary64) (rest : List Char) :
    float (floatText x ++ ';' :: rest) = .ok (x, ';' :: rest) := by
  have hspan := span_append_of_stopsAt (List.all_eq_true.1 (all_ne_semicolon_floatText x))
    (stopsAt_cons (c := ';') (by decide) rest)
  simp only [float, hspan, if_neg (floatText_ne_nil x), read?_floatText]

/-- A text is cut out by its length, whatever it holds. -/
theorem countedText_append {s : String} (hs : byteLength s.toList < UInt64.size)
    (rest : List Char) :
    countedText (digits (byteLength s.toList) ++ ':' :: '"' :: (s.toList ++ '"' :: rest)) =
      .ok (s, rest) := by
  have hlength := length_append hs (stopsAt_cons (c := ':') (by decide)
    ('"' :: (s.toList ++ '"' :: rest)))
  simp only [countedText, hlength, ok_bind, literal_two, splitAtByte?_append, literal_one,
    String.ofList_toList]
  rfl

/-- A scalar stands between a colon and a semicolon. -/
theorem scalar_cons {α : Type} {body : Reader α} {s rest : List Char} {a : α}
    (h : body s = .ok (a, ';' :: rest)) : scalar body (':' :: s) = .ok (a, rest) := by
  simp only [scalar, literal_one, ok_bind, h]
  rfl

/-! ### Integers and texts with their tags -/

theorem writeInt64_append (n : Int64) (rest : List Char) :
    writeInt64 n ++ rest = 'i' :: ':' :: (writeInt n.toInt ++ ';' :: rest) := by
  simp [writeInt64]

theorem scalar_integer (n : Int64) (rest : List Char) :
    scalar integer (':' :: (writeInt n.toInt ++ ';' :: rest)) = .ok (n, rest) :=
  scalar_cons (integer_append n (stopsAt_cons (by decide) rest))

theorem writeText_append (s : String) (rest : List Char) :
    writeText s ++ rest = 's' :: ':' ::
      (digits (byteLength s.toList) ++ ':' :: '"' :: (s.toList ++ '"' :: ';' :: rest)) := by
  simp [writeText]

theorem byteLength_le_writeText (s : String) :
    byteLength s.toList ≤ byteLength (writeText s) := by
  simp only [writeText, byteLength_append]
  omega

theorem scalar_countedText {s : String} (hs : byteLength (writeText s) < UInt64.size)
    (rest : List Char) :
    scalar countedText (':' ::
      (digits (byteLength s.toList) ++ ':' :: '"' :: (s.toList ++ '"' :: ';' :: rest))) =
      .ok (s, rest) :=
  scalar_cons (countedText_append (Nat.lt_of_le_of_lt (byteLength_le_writeText s) hs) _)

theorem key_append {k : StoredKey} (hk : byteLength (writeKey k) < UInt64.size)
    (rest : List Char) : key (writeKey k ++ rest) = .ok (k, rest) := by
  cases k with
  | position n =>
    rw [writeKey, writeInt64_append, key, if_pos rfl, scalar_integer]
    rfl
  | name s =>
    rw [writeKey, writeText_append, key, if_neg (by decide), if_pos rfl, scalar_countedText hk]
    rfl

end Storefront.Serialized
