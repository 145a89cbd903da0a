import Storefront.Proofs.Serialized.Recognition
/-!
# The places of decode errors

A decode error points into the text that was decoded: its offset is at most the length of the text
without the blanks at its end, and a character starts there or the text ends there
(`decode_error_isValid`). No reader leaves the text that it is given. What it hands on, and where it
gives up, is a rest of that text (`Within`), for every piece of the form and every nesting.

Lengths are read from the text itself, so they may say anything. A text is cut out only if its
length ends where a character of the text at hand starts, or where the text ends; otherwise it is
refused at its opening quote (`countedText_of_spellsCount`).
-/

namespace Storefront.Serialized

open Text

/-! ### Outcomes within a text -/

section

variable {α β : Type} {s r : List Char}

/-- An outcome within a text: what it hands on, or the place where it gives up, is a rest of it. -/
def Within (s : List Char) : Except Failure (α × List Char) → Prop
  | .ok (_, rest) => rest <:+ s
  | .error f => f.rest <:+ s

theorem Within.of_suffix {x : Except Failure (α × List Char)} (h : Within r x) (hr : r <:+ s) :
    Within s x := by
  cases x with
  | ok read => exact List.IsSuffix.trans h hr
  | error f => exact List.IsSuffix.trans h hr

/-- Giving up at once is giving up at a rest. -/
theorem within_refused (s : List Char) (cause : Cause) :
    Within s (.error ⟨s, cause⟩ : Except Failure (α × List Char)) := List.suffix_rfl

theorem Within.bind {x : Except Failure (α × List Char)} (hx : Within s x)
    {next : α × List Char → Except Failure (β × List Char)}
    (hnext : ∀ a rest, Within rest (next (a, rest))) : Within s (x >>= next) := by
  cases x with
  | ok read => exact (hnext read.1 read.2).of_suffix hx
  | error f => exact hx

theorem Within.map {x : Except Failure (α × List Char)} (hx : Within s x) (f : α → β) :
    Within s (x.map fun (a, rest) ↦ (f a, rest)) := by
  cases x with
  | ok read => exact hx
  | error e => exact hx

theorem within_literal_bind (expected s : List Char)
    {next : List Char → Except Failure (α × List Char)} (hnext : ∀ rest, Within rest (next rest)) :
    Within s (literal expected s >>= next) := by
  rw [literal]
  split
  · exact (hnext _).of_suffix (List.drop_suffix _ _)
  · exact List.suffix_rfl

end

/-! ### Scalars and keys -/

theorem suffix_of_numeral? {s rest : List Char} {n : Nat} (h : numeral? s = some (n, rest)) :
    rest <:+ s := by
  obtain ⟨front, rfl, -⟩ := exists_of_numeral? h
  exact List.suffix_append front rest

theorem within_length (s : List Char) : Within s (length s) := by
  rw [length]
  split
  · next n rest hnumeral =>
    split
    · exact suffix_of_numeral? hnumeral
    · exact within_refused s _
  · exact within_refused s _

theorem suffix_splitSign (s : List Char) : (splitSign s).2 <:+ s := by
  rcases splitSign_cases s with ⟨body, rfl, hsplit⟩ | ⟨body, rfl, hsplit⟩ | hsplit
  · exact hsplit ▸ List.suffix_cons _ _
  · exact hsplit ▸ List.suffix_cons _ _
  · exact hsplit ▸ List.suffix_rfl

theorem within_integer (s : List Char) : Within s (integer s) := by
  have hbody := suffix_splitSign s
  rcases hsplit : splitSign s with ⟨negative, body⟩
  rw [hsplit] at hbody
  simp only [integer, hsplit]
  split
  · next n rest hnumeral =>
    -- A number is judged after it was taken off, and reported where its sign stands.
    generalize (if negative = true then -(n : Int) else n) = value
    split
    · exact within_refused s _
    · exact (suffix_of_numeral? hnumeral).trans hbody
  · exact within_refused s _

theorem within_boolean (s : List Char) : Within s (boolean s) := by
  unfold boolean
  split
  · exact List.suffix_cons _ _
  · exact List.suffix_cons _ _
  · exact within_refused s _

theorem within_float (s : List Char) : Within s (float s) := by
  simp only [float, List.span_eq_takeWhile_dropWhile]
  split
  · exact within_refused s _
  · split
    · exact List.dropWhile_suffix _
    · exact List.dropWhile_suffix _

theorem within_countedText (s : List Char) : Within s (countedText s) := by
  refine (within_length s).bind fun n _ ↦ within_literal_bind _ _ fun rest ↦ ?_
  split
  · exact within_refused rest _
  · next t after hsplit =>
    obtain ⟨rfl, -⟩ := eq_append_of_splitAtByte? hsplit
    refine Within.of_suffix ?_ (List.suffix_append _ _)
    exact within_literal_bind _ _ fun rest ↦ List.suffix_refl rest

theorem within_scalar {α : Type} {body : Reader α} (hbody : ∀ s, Within s (body s))
    (s : List Char) : Within s (scalar body s) :=
  within_literal_bind _ _ fun rest ↦ (hbody rest).bind fun _ _ ↦
    within_literal_bind _ _ fun _ ↦ List.suffix_rfl

theorem within_key (s : List Char) : Within s (key s) := by
  unfold key
  split
  · exact List.suffix_rfl
  · next tag s =>
    -- The tag is gone when what follows it is read, and also when it is not one.
    refine Within.of_suffix ?_ (List.suffix_cons tag s)
    split
    · exact (within_scalar within_integer s).map _
    · split
      · exact (within_scalar within_countedText s).map _
      · exact within_refused s _

/-! ### Values -/

section

variable {element body : Reader StoredValue}

theorem within_entries (h : ∀ s, Within s (element s)) (n : Nat) (s : List Char) :
    Within s (entries element n s) := by
  induction n generalizing s with
  | zero => exact List.suffix_rfl
  | succ n ih =>
    exact (within_key s).bind fun _ rest ↦ (h rest).bind fun _ rest ↦ (ih rest).bind fun _ _ ↦
      List.suffix_rfl

theorem within_arrayBody (h : ∀ s, Within s (element s)) (s : List Char) :
    Within s (arrayBody element s) :=
  (within_length s).bind fun n _ ↦ within_literal_bind _ _ fun rest ↦
    (within_entries h n rest).bind fun _ _ ↦ within_literal_bind _ _ fun _ ↦ List.suffix_rfl

theorem within_className_bind (h : ∀ s, Within s (body s)) (s : List Char) :
    Within s (className s >>= body) := by
  have hassoc : (className s >>= body) =
      countedText s >>= fun read ↦ literal [':'] read.2 >>= body := by
    rw [className]
    cases countedText s with
    | error f => rfl
    | ok read => rfl
  rw [hassoc]
  exact (within_countedText s).bind fun _ _ ↦ within_literal_bind _ _ h

theorem within_tagged (h : ∀ s, Within s (body s)) (s : List Char) : Within s (tagged body s) := by
  unfold tagged
  split
  · exact List.suffix_rfl
  · next tag s =>
    refine Within.of_suffix ?_ (List.suffix_cons tag s)
    split
    · exact within_literal_bind _ _ fun _ ↦ List.suffix_rfl
    · exact (within_scalar within_boolean s).map _
    · exact (within_scalar within_integer s).map _
    · exact (within_scalar within_float s).map _
    · exact (within_scalar within_countedText s).map _
    · exact within_literal_bind _ _ h
    · exact within_literal_bind _ _ (within_className_bind h)
    · exact within_refused s _

end

/-- A value is read within the text it is given, whatever room is left for its arrays. -/
theorem within_value (room : Nat) (s : List Char) : Within s (value room s) := by
  induction room generalizing s with
  | zero => exact within_tagged (fun s ↦ within_refused s _) s
  | succ room ih => exact within_tagged (within_arrayBody ih) s

/-- A decode error points behind a front part of the text. -/
theorem exists_of_decodeChars_eq_error {s : List Char} {e : DecodeError}
    (h : decodeChars s = .error e) :
    ∃ front rest, s = front ++ rest ∧ e.offset = byteLength front := by
  have hwithin := within_value maxNesting s
  have hplace {f : Failure} (he : f.within s = e) (hf : f.rest <:+ s) :
      ∃ front rest, s = front ++ rest ∧ e.offset = byteLength front := by
    obtain ⟨front, hfront⟩ := hf
    refine ⟨front, f.rest, hfront.symm, ?_⟩
    rw [← he, Failure.within, ← hfront, byteLength_append, Nat.add_sub_cancel]
  rw [decodeChars] at h
  split at h
  · cases h
  · next _ rest _ hread =>
    rw [hread] at hwithin
    exact hplace (Except.error.inj h) hwithin
  · next f hread =>
    rw [hread] at hwithin
    exact hplace (Except.error.inj h) hwithin

/-! ### Cuts by a length -/

theorem splitAtByte?_eq_some_iff {n : Nat} {s front rest : List Char} :
    splitAtByte? n s = some (front, rest) ↔ s = front ++ rest ∧ byteLength front = n := by
  constructor
  · exact eq_append_of_splitAtByte?
  · rintro ⟨rfl, rfl⟩
    exact splitAtByte?_append front rest

/-- A text can be cut at the bytes where a character of it starts, and at its end. -/
theorem exists_splitAtByte?_iff {n : Nat} {s : String} :
    (∃ front rest, splitAtByte? n s.toList = some (front, rest)) ↔
      (String.Pos.Raw.mk n).IsValid s := by
  rw [String.Pos.Raw.isValid_iff_exists_append]
  constructor
  · rintro ⟨front, rest, hsplit⟩
    obtain ⟨hs, rfl⟩ := splitAtByte?_eq_some_iff.1 hsplit
    refine ⟨String.ofList front, String.ofList rest, ?_, ?_⟩
    · rw [← String.ofList_append, ← hs, String.ofList_toList]
    · rw [String.Pos.Raw.ext_iff]
      show byteLength front = (String.ofList front).utf8ByteSize
      rw [← byteLength_toList, String.toList_ofList]
  · rintro ⟨front, rest, rfl, hn⟩
    refine ⟨front.toList, rest.toList, splitAtByte?_eq_some_iff.2 ⟨String.toList_append, ?_⟩⟩
    rw [byteLength_toList]
    exact congrArg String.Pos.Raw.byteIdx hn.symm

/-- Behind a length and the opening quote, a text is cut out if it can be cut where the length
says; whatever the length says otherwise, the text is refused at the quote. -/
theorem countedText_of_spellsCount {declared : List Char} {n : Nat} (h : SpellsCount declared n)
    (after : List Char) :
    countedText (declared ++ ':' :: '"' :: after) =
      match splitAtByte? n after with
      | none => .error ⟨after, .unexpected⟩
      | some (text, rest) => (literal ['"'] rest).map fun rest ↦ (String.ofList text, rest) := by
  have hlength := recognizes_length.ok_append h (':' :: '"' :: after) (stopsAt_cons (by decide) _)
  simp only [countedText, hlength, ok_bind, literal_two]
  cases splitAtByte? n after with
  | none => rfl
  | some cut =>
    obtain ⟨text, rest⟩ := cut
    show (literal ['"'] rest >>= fun rest ↦ pure (String.ofList text, rest)) =
      (literal ['"'] rest).map _
    cases literal ['"'] rest with
    | error f => rfl
    | ok rest => rfl

/-- A length that is no word is refused before anything is cut. -/
theorem countedText_of_too_long {declared : List Char} (h : PositiveNumeral declared)
    (hlong : 2 ^ 64 ≤ digitsValue declared) (after : List Char) :
    countedText (declared ++ ':' :: after) = .error ⟨declared ++ ':' :: after, .unexpected⟩ := by
  have hnumeral := h.numeral?_append (stopsAt_cons (c := ':') (by decide) after)
  have hsize : ¬ digitsValue declared < UInt64.size := Nat.not_lt.2 hlong
  simp only [countedText, length, hnumeral, if_neg hsize, error_bind]

/-- Cutting what follows a front part is cutting the whole text further on. -/
theorem isValid_append_add_iff {front after : String} {n : Nat} :
    (String.Pos.Raw.mk (front.utf8ByteSize + n)).IsValid (front ++ after) ↔
      (String.Pos.Raw.mk n).IsValid after := by
  have hsub : String.Pos.Raw.mk (front.utf8ByteSize + n) - front = String.Pos.Raw.mk n := by
    rw [String.Pos.Raw.ext_iff]
    exact Nat.add_sub_cancel_left _ _
  rw [String.Pos.Raw.isValid_append, hsub]
  constructor
  · rintro (hfront | ⟨-, hafter⟩)
    · -- Only the end of the front part is left, where nothing is cut off.
      have hle := hfront.le_utf8ByteSize
      obtain rfl : n = 0 := by simpa using hle
      exact String.Pos.Raw.isValid_zero
    · exact hafter
  · intro hafter
    exact .inr ⟨Nat.le_add_right _ _, hafter⟩

/-- The bytes of a part of a text are those between the places where it starts and ends. -/
theorem toByteArray_eq_extract (front text rest : String) :
    text.toByteArray = (front ++ (text ++ rest)).toByteArray.extract front.utf8ByteSize
      (front.utf8ByteSize + text.utf8ByteSize) := by
  have hfront : front.utf8ByteSize = front.toByteArray.size := String.size_toByteArray.symm
  have htext : text.utf8ByteSize = text.toByteArray.size := String.size_toByteArray.symm
  rw [String.toByteArray_append, ← Nat.add_zero front.utf8ByteSize, Nat.add_assoc,
    ByteArray.extract_append_size_add' hfront, Nat.zero_add, String.toByteArray_append,
    ByteArray.extract_append_eq_left htext]

/-! ### Whole texts -/

/-- **Decode errors point into the text, and no length leads out of it.** An error's offset is at
most the length in bytes of the text without the blanks at its end, and a character of the text
starts there or the text ends there.

Take any text in which a length and an opening quote are followed by something, and the place that
lies as many bytes behind the quote as the length says. If this is not a place where the text can be
cut, because it lies behind its end or inside a character, the counted text is refused at its quote.
If it is, the counted text is the bytes from the quote up to that place, and reading goes on there.
A length that is no word is refused where it starts. -/
theorem decode_error_isValid :
    (∀ (input : String) (e : DecodeError), decode input = .error e →
      e.offset ≤ byteLength (trimEnd input.toList) ∧ (String.Pos.Raw.mk e.offset).IsValid input) ∧
    (∀ (s before declared after : String) (n : Nat), SpellsCount declared.toList n →
      s = before ++ declared ++ ":\"" ++ after →
      let quote := (before ++ declared ++ ":\"").utf8ByteSize
      let read := countedText (declared ++ ":\"" ++ after).toList
      (¬ (String.Pos.Raw.mk (quote + n)).IsValid s →
        read = .error ⟨after.toList, .unexpected⟩) ∧
      ((String.Pos.Raw.mk (quote + n)).IsValid s →
        quote + n ≤ s.utf8ByteSize ∧ ∃ text rest : String, after = text ++ rest ∧
          text.toByteArray = s.toByteArray.extract quote (quote + n) ∧
          read = (literal ['"'] rest.toList).map fun rest ↦ (text, rest))) ∧
    (∀ declared after : String, PositiveNumeral declared.toList →
      2 ^ 64 ≤ digitsValue declared.toList →
      countedText (declared ++ ":\"" ++ after).toList =
        .error ⟨(declared ++ ":\"" ++ after).toList, .unexpected⟩) := by
  have hfold (declared after : String) : (declared ++ ":\"" ++ after).toList =
      declared.toList ++ ':' :: '"' :: after.toList := by
    simp
  refine ⟨fun input e h ↦ ?_, ?_, fun declared after hpositive hlong ↦ ?_⟩
  · obtain ⟨front, rest, htrim, hoffset⟩ := exists_of_decodeChars_eq_error h
    obtain ⟨blanks, hinput, -⟩ := exists_eq_trimEnd_append input.toList
    rw [htrim, List.append_assoc] at hinput
    refine ⟨?_, exists_splitAtByte?_iff.1 ⟨front, rest ++ blanks, ?_⟩⟩
    · rw [htrim, hoffset, byteLength_append]
      exact Nat.le_add_right _ _
    · exact splitAtByte?_eq_some_iff.2 ⟨hinput, hoffset.symm⟩
  · rintro s before declared after n hcount rfl quote read
    have hread : read = _ := (congrArg countedText (hfold declared after)).trans
      (countedText_of_spellsCount hcount after.toList)
    rw [isValid_append_add_iff, hread, ← exists_splitAtByte?_iff]
    refine ⟨fun hnone ↦ ?_, ?_⟩
    · cases hsplit : splitAtByte? n after.toList with
      | none => rfl
      | some cut => exact absurd ⟨cut.1, cut.2, hsplit⟩ hnone
    · rintro ⟨text, rest, hsplit⟩
      obtain ⟨hafter, hn⟩ := splitAtByte?_eq_some_iff.1 hsplit
      have happend : after = String.ofList text ++ String.ofList rest := by
        rw [← String.ofList_append, ← hafter, String.ofList_toList]
      have hsize : (String.ofList text).utf8ByteSize = n := by
        rw [← byteLength_toList, String.toList_ofList, hn]
      have hle : n ≤ after.utf8ByteSize := by
        rw [happend, String.utf8ByteSize_append, hsize]
        exact Nat.le_add_right _ _
      refine ⟨?_, String.ofList text, String.ofList rest, happend, ?_, ?_⟩
      · rw [String.utf8ByteSize_append]
        exact Nat.add_le_add_left hle quote
      · rw [happend, ← hsize]
        exact toByteArray_eq_extract _ _ _
      · rw [hsplit, String.toList_ofList]
  · rw [hfold]
    exact countedText_of_too_long hpositive hlong _

/-- A text whose length ends inside its last letter. -/
def cutLetterText : String := "s:4:\"café\"; \n"

/-- A length that ends inside a letter is refused at the byte behind its quote, and one that is no
word where it starts. One that ends behind the letter is followed. -/
theorem decode_error_isValid_cutLetterText :
    (decode cutLetterText = .error ⟨5, .unexpected⟩ ∧
      5 ≤ byteLength (trimEnd cutLetterText.toList) ∧
      (String.Pos.Raw.mk 5).IsValid cutLetterText) ∧
    (¬ (String.Pos.Raw.mk (5 + 4)).IsValid cutLetterText ∧
      countedText "4:\"café\"; \n".toList = .error ⟨"café\"; \n".toList, .unexpected⟩) ∧
    (∃ text rest : String, "café\"; \n" = text ++ rest ∧
      text.toByteArray = "s:5:\"café\"; \n".toByteArray.extract 5 (5 + 5) ∧
      countedText "5:\"café\"; \n".toList =
        (literal ['"'] rest.toList).map fun rest ↦ (text, rest)) ∧
    countedText "18446744073709551616:\"é".toList =
      .error ⟨"18446744073709551616:\"é".toList, .unexpected⟩ := by
  obtain ⟨hoffset, hcut, hlong⟩ := decode_error_isValid
  have htrim : trimEnd cutLetterText.toList = "s:4:\"café\";".toList := by decide
  have hdecode : decode cutLetterText = .error ⟨5, .unexpected⟩ := by
    rw [decode, htrim]
    rfl
  have hfour : SpellsCount "4".toList 4 :=
    .positive (.digits rfl (by decide) (by simp)) (by decide)
  have hfive : SpellsCount "5".toList 5 :=
    .positive (.digits rfl (by decide) (by simp)) (by decide)
  have hinside : ¬ (String.Pos.Raw.mk (5 + 4)).IsValid cutLetterText := by decide +kernel
  have hbehind : (String.Pos.Raw.mk (5 + 5)).IsValid "s:5:\"café\"; \n" := by decide +kernel
  have hrefused := (hcut cutLetterText "s:" "4" "café\"; \n" 4 hfour rfl).1 hinside
  have hread := (hcut "s:5:\"café\"; \n" "s:" "5" "café\"; \n" 5 hfive rfl).2 hbehind
  have hhuge : PositiveNumeral "18446744073709551616".toList :=
    .digits rfl (by decide) (List.all_eq_true.1 (by decide))
  exact ⟨⟨hdecode, hoffset _ _ hdecode⟩, ⟨hinside, hrefused⟩, hread.2,
    hlong "18446744073709551616" "é" hhuge (by decide)⟩

end Storefront.Serialized
