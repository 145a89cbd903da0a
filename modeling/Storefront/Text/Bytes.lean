/-!
# Lengths in UTF-8 bytes

The serialized format counts text in the bytes of its UTF-8 form. A cut at a byte count is possible
only where a character ends.
-/

namespace Storefront.Text

/-- How many bytes the UTF-8 form of a text takes. -/
def byteLength (s : List Char) : Nat := s.foldr (fun c n ↦ c.utf8Size + n) 0

/-- A text cut after exactly `n` bytes, if it is that long and a character ends there. -/
def splitAtByte? (n : Nat) : List Char → Option (List Char × List Char)
  | [] => if n = 0 then some ([], []) else none
  | c :: s =>
    if n = 0 then some ([], c :: s)
    else if c.utf8Size ≤ n then
      (splitAtByte? (n - c.utf8Size) s).map fun (front, rest) ↦ (c :: front, rest)
    else none

@[simp] theorem byteLength_nil : byteLength [] = 0 := rfl

@[simp] theorem byteLength_cons (c : Char) (s : List Char) :
    byteLength (c :: s) = c.utf8Size + byteLength s := by
  simp [byteLength]

@[simp] theorem byteLength_append (s t : List Char) :
    byteLength (s ++ t) = byteLength s + byteLength t := by
  induction s with
  | nil => simp
  | cons c s ih => rw [List.cons_append, byteLength_cons, byteLength_cons, ih, Nat.add_assoc]

/-- No character takes less than a byte. -/
theorem length_le_byteLength (s : List Char) : s.length ≤ byteLength s := by
  induction s with
  | nil => exact Nat.le_refl 0
  | cons c s ih =>
    have hpos := c.utf8Size_pos
    rw [List.length_cons, byteLength_cons]
    omega

/-- The length of a string's characters is its length as a string of bytes. -/
theorem byteLength_toList (s : String) : byteLength s.toList = s.utf8ByteSize := by
  induction s using String.push_induction with
  | empty => rfl
  | push s c ih => simp [ih]

/-- A cut loses nothing and has the length asked for. -/
theorem eq_append_of_splitAtByte? {n : Nat} {s front rest : List Char}
    (h : splitAtByte? n s = some (front, rest)) : s = front ++ rest ∧ byteLength front = n := by
  induction s generalizing n front with
  | nil =>
    simp only [splitAtByte?] at h
    split at h
    · next hn => cases h; exact ⟨rfl, hn.symm⟩
    · cases h
  | cons c s ih =>
    simp only [splitAtByte?] at h
    split at h
    · next hn => cases h; exact ⟨rfl, hn.symm⟩
    · split at h
      · next hle =>
        obtain ⟨⟨front', rest'⟩, hsplit, heq⟩ := Option.map_eq_some_iff.1 h
        obtain ⟨rfl, rfl⟩ := Prod.mk.inj heq
        obtain ⟨rfl, hlen⟩ := ih hsplit
        exact ⟨rfl, by rw [byteLength_cons, hlen]; omega⟩
      · cases h

/-- A text followed by anything can be cut where it ends. -/
theorem splitAtByte?_append (front rest : List Char) :
    splitAtByte? (byteLength front) (front ++ rest) = some (front, rest) := by
  induction front with
  | nil => cases rest <;> simp [splitAtByte?]
  | cons c front ih =>
    have hpos := c.utf8Size_pos
    rw [byteLength_cons, List.cons_append, splitAtByte?, if_neg (by omega), if_pos (by omega),
      Nat.add_sub_cancel_left, ih]
    rfl

end Storefront.Text
