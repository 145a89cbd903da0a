import Storefront.Proofs.Serialized.Outline
/-!
# Blanks around serialized texts

A text is trimmed at both ends before its outline is looked for, and only at its end before it is
decoded. So blanks behind a serialized value are ignored throughout, but a blank in front of one is
ignored by the test and then read as a type tag: the text is neither decoded nor kept as it stands
(`ofStoredText_surrounded`).
-/

namespace Storefront.Serialized

open Text

/-! ### Trimming what surrounds a spelling -/

section

variable {s : List Char} {v : StoredValue}

theorem trimEnd_append_of_spellsValue (h : SpellsValue 0 (trimEnd s) v) (front : List Char) :
    trimEnd (front ++ s) = front ++ trimEnd s := by
  obtain ⟨c, r, hcons, hc⟩ := h.exists_eq_cons
  obtain ⟨w, hs, -⟩ := exists_eq_trimEnd_append s
  have hnot : ¬ ∀ d ∈ s, isBlank d = true := by
    intro hall
    have hmem : c ∈ s := by
      rw [hs, hcons]
      exact List.mem_append_left _ List.mem_cons_self
    rw [hall c hmem] at hc
    cases hc
  exact (trimEnd_append_of_not_forall hnot front).1

/-- Trimmed at both ends, a surrounded spelling is the spelling. -/
theorem trim_append_of_spellsValue (h : SpellsValue 0 (trimEnd s) v) {front : List Char}
    (hfront : ∀ c ∈ front, isBlank c = true) : trim (front ++ s) = trimEnd s := by
  have hdrop : (front ++ s).dropWhile isBlank = s.dropWhile isBlank :=
    List.dropWhile_append_of_pos hfront
  rw [trim, hdrop]
  exact h.trim_eq

end

/-- A character that is no type tag is refused behind itself. -/
theorem tagged_of_notMem (body : Reader StoredValue) {c : Char}
    (h : c ∉ ['N', 'b', 'i', 'd', 's', 'a', 'O']) (s : List Char) :
    tagged body (c :: s) = .error ⟨s, .unknownTag⟩ := by
  rw [tagged]
  -- What is left to show is that it is none of the tags.
  all_goals
    rintro rfl
    exact h (by decide)

theorem notMem_tags_of_isBlank {c : Char} (h : isBlank c = true) :
    c ∉ ['N', 'b', 'i', 'd', 's', 'a', 'O'] := by
  intro hmem
  have hplain : ['N', 'b', 'i', 'd', 's', 'a', 'O'].all (!isBlank ·) = true := by decide
  have hc := List.all_eq_true.1 hplain c hmem
  rw [h] at hc
  cases hc

/-- A text that starts with a blank is refused behind the blank. -/
theorem decodeChars_cons_of_isBlank {c : Char} (h : isBlank c = true) (s : List Char) :
    decodeChars (c :: s) = .error ⟨c.utf8Size, .unknownTag⟩ := by
  have hread : value maxNesting (c :: s) = .error ⟨s, .unknownTag⟩ := by
    rw [value_eq_tagged]
    exact tagged_of_notMem _ (notMem_tags_of_isBlank h) s
  rw [decodeChars, hread]
  show Except.error (Failure.within _ _) = _
  rw [Failure.within, byteLength_cons, Nat.add_sub_cancel]

/-! ### Texts in the options table -/

/-- **Blanks around serialized texts.** Take a text that decodes and put blanks around it. It still
has the outline of a serialized value, so it is not kept as it stands. It is read as before exactly
if there are none in front; otherwise it is refused behind the first of them, which is taken for a
type tag. -/
theorem ofStoredText_surrounded {s : String} {v : StoredValue} (h : decode s = .ok v)
    {front back : String} (hfront : front.toList.all isBlank = true)
    (hback : back.toList.all isBlank = true) :
    ofStoredText s = .ok v ∧ hasOutline (trim (front ++ s ++ back).toList) = true ∧
      (ofStoredText (front ++ s ++ back) = .ok v ↔ front = "") ∧
      ∀ c rest, front.toList = c :: rest →
        ofStoredText (front ++ s ++ back) = .error ⟨c.utf8Size, .unknownTag⟩ := by
  have hspells : SpellsValue 0 (trimEnd s.toList) v := spellsValue_of_decodeChars h
  have hblank := List.all_eq_true.1 hback
  have hend : trimEnd (s.toList ++ back.toList) = trimEnd s.toList := trimEnd_append hblank _
  have hlist : (front ++ s ++ back).toList = front.toList ++ (s.toList ++ back.toList) := by
    rw [String.toList_append, String.toList_append, List.append_assoc]
  have hsurrounded : SpellsValue 0 (trimEnd (s.toList ++ back.toList)) v := hend ▸ hspells
  have houtline : hasOutline (trim (front ++ s ++ back).toList) = true := by
    rw [hlist, trim_append_of_spellsValue hsurrounded (List.all_eq_true.1 hfront), hend]
    exact hspells.hasOutline
  have hdecode : ofStoredText (front ++ s ++ back) =
      decodeChars (front.toList ++ trimEnd s.toList) := by
    rw [ofStoredText_of_hasOutline houtline, decode, hlist,
      trimEnd_append_of_spellsValue hsurrounded, hend]
  have hrefused {c : Char} {rest : List Char} (hcons : front.toList = c :: rest) :
      ofStoredText (front ++ s ++ back) = .error ⟨c.utf8Size, .unknownTag⟩ := by
    rw [hcons, List.all_cons, Bool.and_eq_true] at hfront
    rw [hdecode, hcons]
    exact decodeChars_cons_of_isBlank hfront.1 _
  refine ⟨?_, houtline, ⟨fun hread ↦ ?_, ?_⟩, fun c rest hcons ↦ hrefused hcons⟩
  · rw [ofStoredText_of_hasOutline (hasOutline_trim_of_decode h), h]
  · cases hcons : front.toList with
    | nil => exact String.toList_eq_nil_iff.1 hcons
    | cons c rest =>
      rw [hrefused hcons] at hread
      cases hread
  · rintro rfl
    rw [hdecode]
    exact hspells.decodeChars_eq

/-- A text with a line break behind it, and with an ideographic space in front of it. -/
theorem ofStoredText_surrounded_yes :
    ofStoredText ("" ++ "s:3:\"yes\";" ++ " \n") = .ok (.text "yes") ∧
      ofStoredText ("\u3000 " ++ "s:3:\"yes\";" ++ "") = .error ⟨3, .unknownTag⟩ := by
  have hdecode : decode "s:3:\"yes\";" = .ok (.text "yes") := rfl
  have hnone : "".toList.all isBlank = true := rfl
  have hbreak : " \n".toList.all isBlank = true := by decide
  have hwide : "\u3000 ".toList.all isBlank = true := by decide
  obtain ⟨-, -, hbehind, -⟩ := ofStoredText_surrounded hdecode hnone hbreak
  obtain ⟨-, -, -, hfront⟩ := ofStoredText_surrounded hdecode hwide hnone
  exact ⟨hbehind.2 rfl, hfront '\u3000' [' '] rfl⟩

/-- One blank in front of a text that decodes, and it is no longer read. -/
theorem ofStoredText_ne_of_blank_in_front :
    decode "s:3:\"yes\";" = .ok (.text "yes") ∧ " ".toList.all isBlank = true ∧
      ofStoredText "s:3:\"yes\";" = .ok (.text "yes") ∧
      ofStoredText (" " ++ "s:3:\"yes\";" ++ "") ≠ .ok (.text "yes") := by
  have hread : ofStoredText (" " ++ "s:3:\"yes\";" ++ "") = .error ⟨1, .unknownTag⟩ := rfl
  refine ⟨rfl, rfl, rfl, fun h ↦ ?_⟩
  rw [hread] at h
  cases h

end Storefront.Serialized
