import Storefront.Proofs.Serialized.Recognition
/-!
# The outline of serialized texts

A text found in the options table is decoded only if it has the outline of a serialized value: a
type tag and a colon in front, a semicolon or closing brace at the end. Every spelling of a value
has it (`SpellsValue.hasOutline`), and none starts with a blank, so that trimming in front, which
is done before the outline is looked for and not before decoding, makes no difference
(`SpellsValue.trim_eq`).

Hence the test is exact where it matters: what decodes is decoded, and what is kept as a plain text
would not decode (`ofStoredText_of_decode`). In particular what was written comes back from the
options table: the text of a value is taken for a serialized value and decodes to it
(`ofStoredText_toText`).
-/

namespace Storefront.Serialized

open Text

/-! ### The characters at both ends -/

theorem hasOutline_cons_append {tag last : Char}
    (htag : ['a', 'O', 's', 'i', 'd', 'b'].contains tag = true) (s : List Char)
    (hlast : (last == ';' || last == '}') = true) :
    hasOutline (tag :: ':' :: (s ++ [last])) = true := by
  have hend : (tag :: ':' :: (s ++ [last])).getLast? = some last := by
    rw [← List.cons_append, ← List.cons_append, List.getLast?_concat]
  simp only [hasOutline, hend, htag, hlast, Bool.and_self, Bool.or_true]

theorem SpellsArray.exists_eq_append {depth : Nat} {s : List Char}
    {es : List (StoredKey × StoredValue)} (h : SpellsArray depth s es) :
    ∃ body, s = body ++ ['}'] := by
  cases h with
  | counted hdepth hcount h => exact ⟨_, rfl⟩

/-- Every spelling of a value has the outline of one. -/
theorem SpellsValue.hasOutline {depth : Nat} {s : List Char} {v : StoredValue}
    (h : SpellsValue depth s v) : hasOutline s = true := by
  cases h with
  | null => decide
  | bool h => exact hasOutline_cons_append rfl _ rfl
  | int h => exact hasOutline_cons_append rfl _ rfl
  | float h => exact hasOutline_cons_append rfl _ rfl
  | text h => exact hasOutline_cons_append rfl _ rfl
  | array h =>
    obtain ⟨body, rfl⟩ := h.exists_eq_append
    exact hasOutline_cons_append rfl body rfl
  | @object _ c _ _ _ hclass h =>
    obtain ⟨body, rfl⟩ := h.exists_eq_append
    rw [← List.append_assoc]
    exact hasOutline_cons_append rfl (c ++ [':'] ++ body) rfl

/-- No spelling of a value starts with a blank. -/
theorem SpellsValue.exists_eq_cons {depth : Nat} {s : List Char} {v : StoredValue}
    (h : SpellsValue depth s v) : ∃ c r, s = c :: r ∧ isBlank c = false := by
  cases h with
  | null | bool | int | float | text | array | object => exact ⟨_, _, rfl, by decide⟩

/-- Where the rest is a spelling, trimming at the end is all the trimming there is. -/
theorem SpellsValue.trim_eq {depth : Nat} {s : List Char} {v : StoredValue}
    (h : SpellsValue depth (trimEnd s) v) : trim s = trimEnd s := by
  obtain ⟨c, r, hcons, hc⟩ := h.exists_eq_cons
  obtain ⟨w, hs, -⟩ := exists_eq_trimEnd_append s
  rw [hcons, List.cons_append] at hs
  rw [trim, hs, List.dropWhile_cons_of_neg (by rw [hc]; decide)]

/-! ### Texts that decode and texts that are kept -/

section

variable {raw : String} {v : StoredValue}

theorem ofStoredText_of_hasOutline (h : hasOutline (trim raw.toList) = true) :
    ofStoredText raw = decode raw := if_pos h

/-- Blanks around a text that decodes do not hide its outline. -/
theorem hasOutline_trim_of_decode (h : decode raw = .ok v) :
    hasOutline (trim raw.toList) = true := by
  have hspells : SpellsValue 0 (trimEnd raw.toList) v := spellsValue_of_decodeChars h
  rw [hspells.trim_eq]
  exact hspells.hasOutline

/-- No text is its own serialized form, which has to say its length. -/
theorem decode_ne_text (raw : String) : decode raw ≠ .ok (.text raw) := by
  intro h
  have hspells : SpellsValue 0 (trimEnd raw.toList) (.text raw) := spellsValue_of_decodeChars h
  obtain ⟨w, hw, -⟩ := exists_eq_trimEnd_append raw.toList
  have hlength := congrArg List.length hw
  rw [List.length_append] at hlength
  generalize trimEnd raw.toList = s at hspells hlength
  match hspells with
  | .text (.counted _) =>
    simp only [List.length_append, List.length_cons] at hlength
    omega

end

/-- **The outline test misses nothing that decodes.** A text that decodes is read from the options
table as the value that it decodes to. A text is kept there as it stands exactly if it does not have
the outline of a serialized value, and a text that is kept does not decode. -/
theorem ofStoredText_of_decode (raw : String) :
    (∀ v, decode raw = .ok v → ofStoredText raw = .ok v) ∧
      (ofStoredText raw = .ok (.text raw) ↔ hasOutline (trim raw.toList) = false) ∧
      (ofStoredText raw = .ok (.text raw) → ∃ e, decode raw = .error e) := by
  have hread {v : StoredValue} (h : decode raw = .ok v) : ofStoredText raw = .ok v :=
    (ofStoredText_of_hasOutline (hasOutline_trim_of_decode h)).trans h
  refine ⟨fun v h ↦ hread h, ⟨fun hkept ↦ ?_, fun hplain ↦ ?_⟩, fun hkept ↦ ?_⟩
  · by_contra houtline
    rw [Bool.not_eq_false] at houtline
    rw [ofStoredText_of_hasOutline houtline] at hkept
    exact decode_ne_text raw hkept
  · exact if_neg (by rw [hplain]; decide)
  · cases hdecode : decode raw with
    | error e => exact ⟨e, rfl⟩
    | ok v =>
      rw [hread hdecode] at hkept
      exact absurd (Except.ok.inj hkept ▸ hdecode) (decode_ne_text raw)

/-- An object with blanks behind it is decoded. A text whose closing semicolon is missing is
kept. -/
theorem ofStoredText_objectText :
    ofStoredText (String.ofList (objectChars ++ [' ', '\n'])) = .ok objectValue ∧
      ofStoredText "s:1:\"x\"" = .ok (.text "s:1:\"x\"") ∧
      ∃ e, decode "s:1:\"x\"" = .error e := by
  have htrim : trimEnd (String.ofList (objectChars ++ [' ', '\n'])).toList = objectChars := by
    rw [String.toList_ofList]
    decide
  have hobject : decode (String.ofList (objectChars ++ [' ', '\n'])) = .ok objectValue := by
    rw [decode, htrim]
    exact spellsValue_objectChars.decodeChars_eq
  obtain ⟨-, hkept, hrefused⟩ := ofStoredText_of_decode "s:1:\"x\""
  have hplain := hkept.2 (by decide)
  exact ⟨(ofStoredText_of_decode _).1 _ hobject, hplain, hrefused hplain⟩

/-! ### Written values -/

theorem trimEnd_toText (v : StoredValue) : trimEnd (toText v).toList = write v := by
  rw [← trimEnd_toText_append v (w := "") rfl, String.append_empty]

section

variable {v : StoredValue}

theorem spellsValue_write (hnesting : v.nesting ≤ 32)
    (hsize : byteLength (write v) < UInt64.size) : SpellsValue 0 (write v) v := by
  have hread := value_write maxNesting v hsize hnesting []
  obtain ⟨front, hfront, hspells⟩ := (recognizes_value rfl).exists_of_ok hread
  rw [List.append_nil, List.append_nil] at hfront
  exact hfront ▸ hspells

theorem decode_toText (hnesting : v.nesting ≤ 32)
    (hsize : byteLength (write v) < UInt64.size) : decode (toText v) = .ok v := by
  have hread := value_write maxNesting v hsize hnesting []
  rw [List.append_nil] at hread
  rw [decode, trimEnd_toText, decodeChars, hread]

/-- The text of a value is taken for a serialized one and gives the value back. -/
theorem ofStoredText_toText (hnesting : v.nesting ≤ 32)
    (hsize : byteLength (write v) < UInt64.size) : ofStoredText (toText v) = .ok v := by
  have hspells := spellsValue_write hnesting hsize
  have htrim : trim (toText v).toList = write v := by
    rw [SpellsValue.trim_eq (trimEnd_toText v ▸ hspells), trimEnd_toText]
  rw [ofStoredText, htrim, if_pos hspells.hasOutline, decode_toText hnesting hsize]

end

end Storefront.Serialized
