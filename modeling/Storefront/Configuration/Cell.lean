import Storefront.Configuration.Field
import Storefront.Ruleset
import Storefront.StoredValue.Basic
/-!
# Writing rule-sets into stored fields

What each field holds for a rule-set. Lists of ids and of roles are arrays of texts, everything else
is a text, and what is unset is the empty text; this is what the settings form submits. A condition
of an unknown kind keeps its kind and loses the rest.
-/

namespace Storefront

/-- A text, or the empty text where there is none. -/
def StoredValue.ofText? (s : Option String) : StoredValue := text (s.getD "")

/-- How a toggle is stored. -/
def StoredValue.ofToggle (b : Bool) : StoredValue := text (if b then "yes" else "no")

namespace Condition

/-- The stored kind of a condition. -/
def kindText : Condition → String
  | unsupported kind _ => kind
  | c => (c.fact?.map Fact.wire).getD ""

/-- The stored operator of a condition, in the spelling of its family. -/
def operatorText? : Condition → Option String
  | numeric _ op _ _ => op.map Comparison.wire
  | customerRoles op _ _ => op.map Membership.roleWire
  | cart _ op _ _ => op.map Membership.cartWire
  | unsupported .. => none

/-- The stored value of a condition to compare with. -/
def subfield : Condition → StoredValue
  | numeric _ _ bound _ => .ofText? (bound.map Binary64.toText)
  | customerRoles _ roles _ => .texts roles
  | cart _ _ ids _ => .ids ids
  | unsupported .. => .ofText? none

end Condition

/-- What a field holds for a rule-set. -/
def RulesetField.cell (f : RulesetField) (r : Ruleset) : StoredValue :=
  match f with
  | conditions => .text r.condition.kindText
  | operator => .ofText? r.condition.operatorText?
  | conditionSubfield => r.condition.subfield
  | priority => .ofText? (r.priority.map Text.ofInt64)
  | ruleToggle => .ofToggle r.stopsOthers
  | productInCategory => .ids r.products.inCategories
  | productIsProduct => .ids r.products.products
  | productHasVariant => .ids r.products.variants
  | productHasSubattribute => .ids r.products.attributeTerms
  | productPriceType => .ofText? (r.products.price.map (·.op.wire))
  | productPrice => .ofText? (r.products.price.map (·.price.toText))
  | categoryIsCategory => .ids r.categories.categories
  | categoryHasSubcategory => .ids r.categories.subcategories
  | categoryProductIn => .ids r.categories.containingProducts
  | categoryHasVariant => .ids r.categories.containingVariants
  | categoryProductCountType => .ofText? (r.categories.productCount.map (·.op.wire))
  | categoryProductCount => .ofText? (r.categories.productCount.map (·.threshold.toText))

/-- The array that a field holds for rule-sets. -/
def RulesetField.column (f : RulesetField) (rs : List Ruleset) : StoredValue :=
  .indexed (rs.map fun r ↦ (r.index, f.cell r))

/-- A column has one entry for each rule-set, under its index and in the order of the rule-sets. -/
theorem RulesetField.column_eq_array (f : RulesetField) (rs : List Ruleset) :
    f.column rs = .array (rs.map fun r ↦ (.ofIndex r.index, f.cell r)) :=
  congrArg StoredValue.array List.map_map

end Storefront
