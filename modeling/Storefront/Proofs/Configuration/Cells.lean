import Storefront.Configuration.Basic
import Storefront.Proofs.StoredValue.Texts
/-!
# Cells of a sheet

What a cell of a sheet gives does not depend on blank entries being left out first: the text, the
texts and the ids of a cell are those of the first entry of its column for the index (`text?_eq`,
`texts_eq`, `ids_eq`).

The condition of an index is read in two steps. The kind decides which fact is tested, and the fact
decides how the operator and the value are read (`test`); a kind that is not known gives a condition
that never holds (`condition_of_kind`, `condition_of_unknown`).
-/

namespace Storefront.Sheet

/-! ### Cells -/

section

variable (s : Sheet) (f : RulesetField) (i : UInt64)

/-- The first entry of a column for an index, blank or not. -/
def stored? : Option StoredValue := (s f).bind (·.at? i)

theorem cell?_eq : s.cell? f i = (s.stored? f i).filter (!·.isBlank) := rfl

/-- Leaving blank entries out makes no difference to a reading that gives nothing for them. -/
theorem getD_map_cell? {α : Type} {read : StoredValue → α} {nothing : α}
    (h : ∀ v, v.isBlank = true → read v = nothing) :
    ((s.cell? f i).map read).getD nothing = ((s.stored? f i).map read).getD nothing := by
  rw [cell?_eq]
  cases s.stored? f i with
  | none => rfl
  | some v =>
    cases hv : v.isBlank with
    | false => simp [Option.filter, hv]
    | true => simp [Option.filter, hv, h v hv]

theorem text?_eq : s.text? f i = (s.stored? f i).bind (·.trimmedText?) := by
  have hbind (o : Option StoredValue) :
      o.bind (·.trimmedText?) = (o.map (·.trimmedText?)).getD none := by
    cases o with
    | none => rfl
    | some v => rfl
  rw [text?, hbind, hbind]
  exact getD_map_cell? s f i fun _ ↦ StoredValue.trimmedText?_of_isBlank

theorem texts_eq : ((s.cell? f i).map (·.toTexts)).getD [] =
    ((s.stored? f i).map (·.toTexts)).getD [] :=
  getD_map_cell? s f i fun _ ↦ StoredValue.toTexts_of_isBlank

theorem ids_eq : s.ids f i = ((s.stored? f i).map (·.toIds)).getD [] :=
  getD_map_cell? s f i fun _ ↦ StoredValue.toIds_of_isBlank

end

section

variable {s : Sheet} {f : RulesetField} {i : UInt64}

theorem cell?_eq_some_iff {v : StoredValue} :
    s.cell? f i = some v ↔ s.stored? f i = some v ∧ v.isBlank = false := by
  rw [cell?_eq, Option.filter_eq_some_iff, Bool.not_eq_true']

/-- What is in a list that was read from a cell was read from a stored value that is not blank. -/
theorem exists_of_mem_getD_cell? {α : Type} {f : RulesetField} {read : StoredValue → List α} {a : α}
    (h : a ∈ ((s.cell? f i).map read).getD []) :
    ∃ v, s.stored? f i = some v ∧ v.isBlank = false ∧ a ∈ read v := by
  cases hv : s.cell? f i with
  | none =>
    rw [hv] at h
    cases h
  | some v =>
    rw [hv, Option.map_some, Option.getD_some] at h
    obtain ⟨hstored, hblank⟩ := cell?_eq_some_iff.1 hv
    exact ⟨v, hstored, hblank, h⟩

/-- A text that is read is that of a scalar in the cell, trimmed. -/
theorem exists_of_text? {t : String} (h : s.text? f i = some t) :
    ∃ v u, s.cell? f i = some v ∧ v.text? = some u ∧ Text.trimmed u = t ∧ t ≠ "" := by
  obtain ⟨v, hv, ht⟩ := Option.bind_eq_some_iff.1 h
  obtain ⟨u, hu, htrim, hne⟩ := StoredValue.exists_of_trimmedText? ht
  exact ⟨v, u, hv, hu, htrim, hne⟩

end

/-! ### Conditions by their kind -/

section

variable {s : Sheet} {i : UInt64}

/-- How the operator and the value of an index are read once it is known which fact is tested. -/
def test (s : Sheet) (i : UInt64) : Fact → Condition
  | .numeric fact =>
    .numeric fact (s.comparison? .operator i) (s.number? .conditionSubfield i)
      (s.cell? .conditionSubfield i).isSome
  | .customerRoles =>
    .customerRoles (s.membership? .operator i)
      (((s.cell? .conditionSubfield i).map (·.toTexts)).getD [])
      (s.cell? .conditionSubfield i).isSome
  | .cart fact =>
    .cart fact (s.membership? .operator i) (s.ids .conditionSubfield i)
      (s.cell? .conditionSubfield i).isSome

theorem fact?_test (s : Sheet) (i : UInt64) (fact : Fact) :
    (s.test i fact).fact? = some fact := by
  cases fact with
  | numeric fact => rfl
  | customerRoles => rfl
  | cart fact => rfl

theorem condition_of_kind {fact : Fact} (h : s.text? .conditions i = some fact.wire) :
    s.condition i = s.test i fact := by
  rw [condition, h]
  simp only [Option.getD_some, Fact.ofWire?_wire]
  cases fact with
  | numeric fact => rfl
  | customerRoles => rfl
  | cart fact => rfl

theorem condition_of_unknown {kind : String} (h : (s.text? .conditions i).getD "" = kind)
    (hkind : ∀ f : Fact, f.wire ≠ kind) :
    s.condition i = .unsupported kind (s.cell? .conditionSubfield i).isSome := by
  have hnone : Fact.ofWire? kind = none :=
    List.find?_eq_none.2 fun f _ heq ↦ hkind f (eq_of_beq heq)
  rw [condition, h]
  simp only [hnone]

/-- A condition tests the fact whose kind is stored, or no fact at all; then its kind is a trimmed
text that is not the kind of any fact. -/
theorem condition_eq_test_or_unsupported (s : Sheet) (i : UInt64) :
    (∃ fact : Fact, s.text? .conditions i = some fact.wire ∧ s.condition i = s.test i fact) ∨
      ∃ kind hasValue, s.condition i = .unsupported kind hasValue ∧ Text.trimmed kind = kind ∧
        ∀ fact : Fact, fact.wire ≠ kind := by
  cases hkind : s.text? .conditions i with
  | none =>
    -- A missing kind is the empty text.
    have hunknown (fact : Fact) : fact.wire ≠ "" := (Text.isTidy_factWire fact).2
    refine .inr ⟨"", _, condition_of_unknown ?_ hunknown, by decide, hunknown⟩
    rw [hkind, Option.getD_none]
  | some kind =>
    by_cases h : ∃ fact : Fact, fact.wire = kind
    · obtain ⟨fact, rfl⟩ := h
      exact .inl ⟨fact, rfl, condition_of_kind hkind⟩
    · have hunknown (fact : Fact) : fact.wire ≠ kind := fun hwire ↦ h ⟨fact, hwire⟩
      obtain ⟨v, u, -, -, rfl, -⟩ := exists_of_text? hkind
      refine .inr ⟨_, _, condition_of_unknown ?_ hunknown, Text.trimmed_trimmed u, hunknown⟩
      rw [hkind, Option.getD_some]

end

end Storefront.Sheet
