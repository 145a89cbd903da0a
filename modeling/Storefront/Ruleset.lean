import Storefront.Condition
/-!
# Rule-sets

A rule-set pairs a condition with what is hidden from the shop page while the condition holds. It
carries the index under which it is configured, a priority that orders it among the others, and a
toggle that makes it the last one to be looked at.
-/

namespace Storefront

/-- Hides products whose price stands in a relation to a bound. -/
structure PriceRule where
  /-- The relation. -/
  op : Comparison
  /-- The bound. -/
  price : Binary64
  deriving DecidableEq

/-- The price rule for a comparison, if prices may be tested with it. -/
def PriceRule.of? (op : Comparison) (price : Binary64) : Option PriceRule :=
  if op.isForPrices then some ⟨op, price⟩ else none

/-- Hides categories whose product count stands in a relation to a bound. -/
structure CountRule where
  /-- The relation. -/
  op : Comparison
  /-- The bound. -/
  threshold : Binary64
  deriving DecidableEq

/-- Which products a rule-set hides. -/
structure ProductExclusions where
  /-- Products assigned to one of these categories. -/
  inCategories : List UInt64 := []
  /-- These products. -/
  products : List UInt64 := []
  /-- The products that these variations belong to. -/
  variants : List UInt64 := []
  /-- Products that carry one of these attribute terms. -/
  attributeTerms : List UInt64 := []
  /-- Products by price. -/
  price : Option PriceRule := none
  deriving DecidableEq

/-- Whether no product is hidden. -/
def ProductExclusions.isEmpty (p : ProductExclusions) : Bool :=
  p.inCategories.isEmpty && p.products.isEmpty && p.variants.isEmpty && p.attributeTerms.isEmpty &&
    p.price.isNone

/-- Which categories a rule-set hides. -/
structure CategoryExclusions where
  /-- These categories. -/
  categories : List UInt64 := []
  /-- The parents of these categories. -/
  subcategories : List UInt64 := []
  /-- The categories of these products. -/
  containingProducts : List UInt64 := []
  /-- The categories of the products that these variations belong to. -/
  containingVariants : List UInt64 := []
  /-- Categories by product count. -/
  productCount : Option CountRule := none
  deriving DecidableEq

/-- Whether no category is hidden. -/
def CategoryExclusions.isEmpty (c : CategoryExclusions) : Bool :=
  c.categories.isEmpty && c.subcategories.isEmpty && c.containingProducts.isEmpty &&
    c.containingVariants.isEmpty && c.productCount.isNone

/-- A configured rule. -/
structure Ruleset where
  /-- The position under which it is configured. -/
  index : UInt64
  /-- When it applies. -/
  condition : Condition
  /-- Lower comes first; a rule-set without a priority comes after all that have one. -/
  priority : Option Int64 := none
  /-- Whether no rule-set is looked at after this one was tested. -/
  stopsOthers : Bool := false
  /-- The products it hides. -/
  products : ProductExclusions := {}
  /-- The categories it hides. -/
  categories : CategoryExclusions := {}
  deriving DecidableEq

/-- The text of a rule-set: `ruleset #1 (order_subtotal >= 50) priority=2 stop`. -/
def Ruleset.toText (r : Ruleset) : String :=
  "ruleset #" ++ Text.ofUInt64 r.index ++ " " ++ r.condition.toText ++
    (match r.priority with
      | some p => " priority=" ++ Text.ofInt64 p
      | none => "") ++
    (if r.stopsOthers then " stop" else "")

end Storefront
