import Storefront.StoredValue.Basic
import Storefront.Operator
import Storefront.Condition
import Storefront.Configuration.Cell
import Storefront.Proofs.Binary64.RoundTrip
/-!
# Texts and ids in stored values

What is written into a stored value as a text, a list of texts or a list of ids is read out of it
again, provided that no text is empty or changed by trimming (`Text.IsTidy`). Numerals, numbers and
the spellings of operators and facts are tidy; the roles of a configuration have to be.

A blank value reads as nothing in every way there is to read one (`trimmedText?_of_isBlank`,
`toTexts_of_isBlank`), so that leaving blank values out first makes no difference.
-/

namespace Storefront

namespace Text

/-! ### Tidy texts -/

/-- A text that is not empty and neither starts nor ends with a blank. -/
def IsTidy (s : String) : Prop := trimmed s = s ∧ s ≠ ""

/-- Tidiness is checked by trimming. -/
instance (s : String) : Decidable (IsTidy s) := inferInstanceAs (Decidable (_ ∧ _))

/-- Trimming leaves a tidy text, and something is left. -/
theorem IsTidy.trimmed?_eq {s : String} (h : IsTidy s) : trimmed? s = some s := by
  have hempty : s.isEmpty = false := by
    rw [Bool.eq_false_iff, ne_eq, String.isEmpty_iff]
    exact h.2
  rw [trimmed?, h.1, hempty]
  rfl

/-- A text without any blank is tidy, if there is something in it. -/
theorem isTidy_ofList {s : List Char} (hne : s ≠ []) (h : ∀ c ∈ s, isBlank c = false) :
    IsTidy (String.ofList s) := by
  refine ⟨trimmed_ofList h, fun hempty ↦ hne ?_⟩
  rw [← String.toList_ofList (l := s), hempty]
  rfl

theorem isTidy_ofUInt64 (n : UInt64) : IsTidy (ofUInt64 n) :=
  isTidy_ofList (digits_ne_nil _) fun _ h ↦ isBlank_of_isDigit (isDigit_of_mem_digits h)

/-- A numeral is digits, with a sign in front if it is negative. -/
theorem isTidy_ofInt64 (n : Int64) : IsTidy (ofInt64 n) := by
  refine isTidy_ofList ?_ ?_
  · rw [writeInt]
    split
    · exact List.cons_ne_nil _ _
    · exact digits_ne_nil _
  · intro c hc
    rw [writeInt] at hc
    split at hc
    · rcases List.mem_cons.1 hc with rfl | hc
      · decide
      · exact isBlank_of_isDigit (isDigit_of_mem_digits hc)
    · exact isBlank_of_isDigit (isDigit_of_mem_digits hc)

/-- No character of a number's text is blank. -/
theorem isTidy_toText (x : Binary64) : IsTidy x.toText :=
  isTidy_ofList x.write_ne_nil fun _ h ↦ Binary64.isBlank_of_mem_write h

/-- Every spelling of a comparison is tidy. -/
theorem isTidy_comparisonWire (c : Comparison) : IsTidy c.wire := by
  cases c <;> decide

/-- So is every spelling of a membership operator among roles. -/
theorem isTidy_roleWire (op : Membership) : IsTidy op.roleWire := by
  cases op <;> decide

/-- So is every spelling of a membership operator in carts. -/
theorem isTidy_cartWire (op : Membership) : IsTidy op.cartWire := by
  cases op <;> decide

/-- So is every spelling of a fact. -/
theorem isTidy_factWire (f : Fact) : IsTidy f.wire := by
  rcases f with ⟨_ | _ | _ | _⟩ | _ | ⟨_ | _ | _ | _⟩ <;> decide

end Text

open Text

namespace StoredValue

/-- Reading the text of a text is trimming it. -/
theorem trimmedText?_text (s : String) : (text s).trimmedText? = trimmed? s := by
  rw [trimmedText?, text?, Option.bind_some]

/-! ### Blank values -/

/-- A blank value has no text. -/
theorem trimmedText?_of_isBlank {v : StoredValue} (h : v.isBlank = true) :
    v.trimmedText? = none := by
  cases v with
  | null => rfl
  | bool b =>
    cases b with
    | false => rfl
    | true => cases h
  | int n => cases h
  | float x => cases h
  | text s =>
    rw [isBlank] at h
    rw [trimmedText?_text, trimmed?, if_pos h]
  | array es => rfl

/-- There are no texts in a blank value. -/
theorem toTexts_of_isBlank {v : StoredValue} (h : v.isBlank = true) : v.toTexts = [] := by
  cases v with
  | array es =>
    rw [isBlank, List.isEmpty_iff] at h
    rw [h]
    rfl
  | null | bool | int | float | text => simp [toTexts, trimmedText?_of_isBlank h]

/-- There are no ids in a blank value. -/
theorem toIds_of_isBlank {v : StoredValue} (h : v.isBlank = true) : v.toIds = [] := by
  rw [toIds, toTexts_of_isBlank h]
  rfl

/-! ### Single texts -/

/-- A tidy text is read back, and so is a missing one. -/
theorem trimmedText?_ofText? {s : Option String} (h : ∀ t ∈ s, IsTidy t) :
    (ofText? s).trimmedText? = s := by
  cases s with
  | none => rfl
  | some t => rw [ofText?, Option.getD_some, trimmedText?_text, (h t rfl).trimmed?_eq]

/-- Only a missing text is written as a blank value. -/
theorem isBlank_ofText? {s : Option String} (h : ∀ t ∈ s, IsTidy t) :
    (ofText? s).isBlank = s.isNone := by
  cases s with
  | none => rfl
  | some t =>
    obtain ⟨htrim, hne⟩ := h t rfl
    show (trimmed t).isEmpty = false
    rw [htrim, Bool.eq_false_iff, ne_eq, String.isEmpty_iff]
    exact hne

/-! ### Lists -/

/-- An array that is written from a list is read entry by entry. -/
theorem toTexts_list (vs : List StoredValue) :
    (list vs).toTexts = vs.filterMap (·.trimmedText?) := by
  have hvalues : (vs.zipIdx.map Prod.fst).filterMap (·.trimmedText?) =
      vs.filterMap (·.trimmedText?) := by rw [List.zipIdx_map_fst]
  rw [← hvalues, List.filterMap_map, list, toTexts, List.filterMap_map]
  rfl

/-- Tidy texts are read in order, repetitions included. -/
theorem toTexts_texts {ss : List String} (h : ∀ s ∈ ss, IsTidy s) : (texts ss).toTexts = ss := by
  rw [texts, toTexts_list, List.filterMap_map]
  induction ss with
  | nil => rfl
  | cons s ss ih =>
    have hs : ((·.trimmedText?) ∘ text) s = some s := by
      rw [Function.comp_apply, trimmedText?_text, (h s List.mem_cons_self).trimmed?_eq]
    rw [List.filterMap_cons_some hs, ih fun t ht ↦ h t (List.mem_cons_of_mem _ ht)]

/-- Ids are read in order, repetitions included. -/
theorem toIds_ids (is : List UInt64) : (ids is).toIds = is := by
  have htidy : ∀ s ∈ is.map ofUInt64, IsTidy s := by
    intro s hs
    obtain ⟨i, -, rfl⟩ := List.mem_map.1 hs
    exact isTidy_ofUInt64 i
  have hread : (readUInt64? ∘ ofUInt64) = some := funext readUInt64?_ofUInt64
  rw [toIds, ids, toTexts_texts htidy, List.filterMap_map, hread, List.filterMap_some]

/-- Only the empty list of texts is written as a blank value, whatever the texts are. -/
theorem isBlank_texts (ss : List String) : (texts ss).isBlank = ss.isEmpty := by
  cases ss <;> rfl

/-- Only the empty list of ids is. -/
theorem isBlank_ids (is : List UInt64) : (ids is).isBlank = is.isEmpty := by
  cases is <;> rfl

/-! ### Readings taken apart -/

/-- A text that is read is that of a scalar, trimmed. -/
theorem exists_of_trimmedText? {v : StoredValue} {t : String} (h : v.trimmedText? = some t) :
    ∃ u, v.text? = some u ∧ trimmed u = t ∧ t ≠ "" := by
  obtain ⟨u, hu, ht⟩ := Option.bind_eq_some_iff.1 h
  rw [trimmed?] at ht
  split at ht
  · cases ht
  · next hne =>
    obtain rfl : trimmed u = t := Option.some.inj ht
    exact ⟨u, hu, rfl, fun hempty ↦ hne (String.isEmpty_iff.2 hempty)⟩

/-- The values that a list is read from: those of an array's entries, or the value itself. -/
def parts : StoredValue → List StoredValue
  | array es => es.map (·.2)
  | v => [v]

/-- A value is read as a list part by part; a scalar is its only part. -/
theorem toTexts_eq_filterMap_parts (v : StoredValue) :
    v.toTexts = v.parts.filterMap (·.trimmedText?) := by
  have hlone (w : StoredValue) : w.trimmedText?.toList = [w].filterMap (·.trimmedText?) := by
    cases h : w.trimmedText? with
    | none => rw [List.filterMap_cons_none h, Option.toList_none, List.filterMap_nil]
    | some t => rw [List.filterMap_cons_some h, Option.toList_some, List.filterMap_nil]
  cases v with
  | array es =>
    rw [toTexts, parts, List.filterMap_map]
    rfl
  | null => exact hlone null
  | bool b => exact hlone (bool b)
  | int n => exact hlone (int n)
  | float x => exact hlone (float x)
  | text s => exact hlone (text s)

/-- Every text of a list is that of a scalar in it, trimmed. -/
theorem exists_of_mem_toTexts {v : StoredValue} {t : String} (h : t ∈ v.toTexts) :
    ∃ w ∈ v.parts, ∃ u, w.text? = some u ∧ trimmed u = t ∧ t ≠ "" := by
  rw [toTexts_eq_filterMap_parts] at h
  obtain ⟨w, hw, ht⟩ := List.mem_filterMap.1 h
  exact ⟨w, hw, exists_of_trimmedText? ht⟩

/-- Texts are read trimmed and empty ones left out, so all that are read are tidy. -/
theorem isTidy_of_mem_toTexts {v : StoredValue} {t : String} (h : t ∈ v.toTexts) : IsTidy t := by
  obtain ⟨w, -, u, -, rfl, hne⟩ := exists_of_mem_toTexts h
  exact ⟨trimmed_trimmed u, hne⟩

end StoredValue

end Storefront
