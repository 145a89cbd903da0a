import Storefront.Proofs.Serialized.Recognition
/-!
# Serialized values show where they end

A value is read off the front of a text without regard to what follows, and no two spellings stand
at the front of the same text (`SpellsValue.append_inj`). The lengths, counts and closing marks of
the form see to this, although numbers are read up to a mark and texts may hold any mark.

So nothing can be added to a text that decodes, and nothing can be taken from its end
(`decode_append`): blanks behind it are ignored, anything else is reported at the place where the
value ends, and a text that was cut off does not decode.
-/

namespace Storefront.Serialized

open Text

/-! ### Spellings at the front of a text -/

/-- A reader for which the rest of the text does not matter leaves no choice of the part that it
takes off. -/
theorem Recognizes.append_inj {α : Type} {reader : Reader α} {Spells : List Char → α → Prop}
    (h : Recognizes reader Spells Anything) {front front' rest rest' : List Char} {a b : α}
    (hfront : Spells front a) (hfront' : Spells front' b)
    (heq : front ++ rest = front' ++ rest') : front = front' ∧ rest = rest' ∧ a = b := by
  have hread := h.ok_append hfront rest trivial
  rw [heq, h.ok_append hfront' rest' trivial] at hread
  obtain ⟨rfl, rfl⟩ := Prod.mk.inj (Except.ok.inj hread)
  exact ⟨List.append_cancel_right heq, rfl, rfl⟩

section

variable {s s' rest rest' : List Char} {v v' : StoredValue}

/-- No two spellings of values stand at the front of the same text. -/
theorem SpellsValue.append_inj (h : SpellsValue 0 s v) (h' : SpellsValue 0 s' v')
    (heq : s ++ rest = s' ++ rest') : s = s' ∧ rest = rest' ∧ v = v' :=
  recognizes_value_maxNesting.append_inj h h' heq

/-- A spelling in front of something is refused at the place where it ends. -/
theorem SpellsValue.decodeChars_append (h : SpellsValue 0 s v) (hrest : rest ≠ []) :
    decodeChars (s ++ rest) = .error ⟨byteLength s, .unexpected⟩ := by
  have hread := recognizes_value_maxNesting.ok_append h rest trivial
  have hoffset : byteLength (s ++ rest) - byteLength rest = byteLength s := by
    rw [byteLength_append, Nat.add_sub_cancel]
  obtain ⟨c, r, rfl⟩ := List.exists_cons_of_ne_nil hrest
  rw [decodeChars, hread]
  show Except.error (Failure.within _ _) = _
  rw [Failure.within, hoffset]

end

/-! ### Whole texts -/

/-- **Serialized texts show where they end.** Take a text that decodes and does not end in a blank.
With blanks behind it, it decodes to the same value. With anything else behind it, it is refused at
the byte where it ended before, for no more specific reason. And cut off anywhere before its end it
does not decode. -/
theorem decode_append {s : String} {v : StoredValue} (htrim : trimEnd s.toList = s.toList)
    (h : decode s = .ok v) :
    (∀ t : String, t.toList.all isBlank = true → decode (s ++ t) = .ok v) ∧
      (∀ t : String, t.toList.all isBlank = false →
        ∃ e, decode (s ++ t) = .error e ∧ e.offset = s.utf8ByteSize ∧ e.cause.detail = "") ∧
      ∀ p r : String, s = p ++ r → r ≠ "" → ∃ e, decode p = .error e := by
  have hspells : SpellsValue 0 s.toList v := htrim ▸ spellsValue_of_decodeChars h
  refine ⟨fun t ht ↦ ?_, fun t ht ↦ ?_, fun p r hs hr ↦ ?_⟩
  · rw [decode, String.toList_append, trimEnd_append (List.all_eq_true.1 ht), htrim]
    exact hspells.decodeChars_eq
  · have hnot : ¬ ∀ c ∈ t.toList, isBlank c = true := by
      rw [← List.all_eq_true, ht]
      exact Bool.false_ne_true
    obtain ⟨htrimmed, hrest⟩ := trimEnd_append_of_not_forall hnot s.toList
    rw [decode, String.toList_append, htrimmed, hspells.decodeChars_append hrest]
    exact ⟨_, rfl, byteLength_toList s, rfl⟩
  · cases hread : decode p with
    | error e => exact ⟨e, rfl⟩
    | ok w =>
      -- Both the part without its blanks and the whole are spellings at the front of the whole.
      have hpart : SpellsValue 0 (trimEnd p.toList) w := spellsValue_of_decodeChars hread
      obtain ⟨blanks, hp, -⟩ := exists_eq_trimEnd_append p.toList
      have hwhole : s.toList ++ [] = trimEnd p.toList ++ (blanks ++ r.toList) := by
        rw [List.append_nil, ← List.append_assoc, ← hp, hs, String.toList_append]
      obtain ⟨-, hrest, -⟩ := hspells.append_inj hpart hwhole
      have hnil : r.toList = [] := (List.append_eq_nil_iff.1 hrest.symm).2
      exact absurd (String.toList_eq_nil_iff.1 hnil) hr

/-- The text of an object with blanks behind it, with another value behind it, and without its last
brace. -/
theorem decode_append_objectText :
    let s := String.ofList objectChars
    decode (s ++ "\u0085 ") = .ok objectValue ∧
      (∃ e, decode (s ++ " N;") = .error e ∧ e.offset = 41 ∧ e.cause.detail = "") ∧
      ∃ e, decode (String.ofList (objectChars.take 38)) = .error e := by
  intro s
  have htrim : trimEnd s.toList = s.toList := by
    rw [String.toList_ofList]
    decide
  have hdecode : decode s = .ok objectValue := by
    rw [decode, htrim, String.toList_ofList]
    exact spellsValue_objectChars.decodeChars_eq
  have hcut : s = String.ofList (objectChars.take 38) ++ "\x7d" := by decide
  have hsize : s.utf8ByteSize = 41 := by decide
  obtain ⟨hblank, hother, hpart⟩ := decode_append htrim hdecode
  exact ⟨hblank "\u0085 " (by decide), hsize ▸ hother " N;" (by decide),
    hpart _ _ hcut (by decide)⟩

end Storefront.Serialized
