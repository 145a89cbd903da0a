import Storefront.Configuration.Field
import Storefront.Report
import Storefront.StoredValue.Basic
/-!
# Reading rule-sets out of stored fields

The rule-set fields form a sheet: a column per field and a row per index. A rule-set exists for
every index that occurs in any column, whatever the other columns hold.

A cell is the first entry of its column for the index, and counts only if it is not blank. Whatever
cannot be read is unset; nothing that is stored makes loading fail. Two things are kept of an
unreadable cell: that the condition has a value at all, and the text of an unknown kind.
-/

namespace Storefront

/-- The stored arrays of the rule-set fields. -/
abbrev Sheet := RulesetField → Option StoredValue

namespace Sheet

/-! ### Cells -/

/-- What a field holds for an index, unless it is blank. -/
def cell? (s : Sheet) (f : RulesetField) (i : UInt64) : Option StoredValue :=
  ((s f).bind (·.at? i)).filter (!·.isBlank)

/-- The trimmed text of a cell that holds a scalar. -/
def text? (s : Sheet) (f : RulesetField) (i : UInt64) : Option String :=
  (s.cell? f i).bind (·.trimmedText?)

/-- The ids in a cell. -/
def ids (s : Sheet) (f : RulesetField) (i : UInt64) : List UInt64 :=
  ((s.cell? f i).map (·.toIds)).getD []

/-- The finite number in a cell. -/
def number? (s : Sheet) (f : RulesetField) (i : UInt64) : Option Binary64 :=
  (s.text? f i).bind Amount.threshold?

/-- The comparison in a cell. -/
def comparison? (s : Sheet) (f : RulesetField) (i : UInt64) : Option Comparison :=
  (s.text? f i).bind Comparison.ofWire?

/-- The membership operator in a cell. -/
def membership? (s : Sheet) (f : RulesetField) (i : UInt64) : Option Membership :=
  (s.text? f i).bind Membership.ofWire?

/-! ### Rows -/

/-- The price rule of an index. -/
def priceRule? (s : Sheet) (i : UInt64) : Option PriceRule := do
  let op ← s.comparison? .productPriceType i
  let price ← s.number? .productPrice i
  PriceRule.of? op price

/-- The count rule of an index. -/
def countRule? (s : Sheet) (i : UInt64) : Option CountRule := do
  let op ← s.comparison? .categoryProductCountType i
  let threshold ← s.number? .categoryProductCount i
  pure ⟨op, threshold⟩

/-- The condition of an index. Its kind decides how the operator and the value are read. -/
def condition (s : Sheet) (i : UInt64) : Condition :=
  let kind := (s.text? .conditions i).getD ""
  let value := s.cell? .conditionSubfield i
  match Fact.ofWire? kind with
  | none => .unsupported kind value.isSome
  | some (.numeric fact) =>
    .numeric fact (s.comparison? .operator i) (s.number? .conditionSubfield i) value.isSome
  | some .customerRoles =>
    .customerRoles (s.membership? .operator i) ((value.map (·.toTexts)).getD []) value.isSome
  | some (.cart fact) =>
    .cart fact (s.membership? .operator i) (s.ids .conditionSubfield i) value.isSome

/-- The rule-set of an index. -/
def ruleset (s : Sheet) (i : UInt64) : Ruleset where
  index := i
  condition := s.condition i
  priority := (s.text? .priority i).bind Text.readInt64?
  stopsOthers := s.text? .ruleToggle i == some "yes"
  products :=
    { inCategories := s.ids .productInCategory i
      products := s.ids .productIsProduct i
      variants := s.ids .productHasVariant i
      attributeTerms := s.ids .productHasSubattribute i
      price := s.priceRule? i }
  categories :=
    { categories := s.ids .categoryIsCategory i
      subcategories := s.ids .categoryHasSubcategory i
      containingProducts := s.ids .categoryProductIn i
      containingVariants := s.ids .categoryHasVariant i
      productCount := s.countRule? i }

/-- The indices that occur in a column. -/
def columnIndices (s : Sheet) (f : RulesetField) : List UInt64 :=
  ((s f).map (·.indices)).getD []

/-- The indices that occur in any column, ascending. -/
def indices (s : Sheet) : List UInt64 :=
  (IdSet.ofList (RulesetField.all.flatMap s.columnIndices)).toList

/-- The rule-sets of a sheet, ascending by index. -/
def rulesets (s : Sheet) : List Ruleset := s.indices.map s.ruleset

end Sheet

end Storefront
