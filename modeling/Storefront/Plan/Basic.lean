import Storefront.Ruleset
import Storefront.Catalog
import Storefront.Ordered.IdSet
/-!
# Exclusion plans

The merged effects of the rule-sets that matched during a request. What rule-sets hide is united,
never intersected: sets of ids grow, and every taxonomy clause and price filter is kept, in the
order in which the rule-sets were absorbed.

A price filter is applied by the query layer with an integer bound, the integer part of the
configured price. The in-memory test uses the same bound, so both hide the same products.
-/

namespace Storefront

/-! ### Price filters -/

/-- Hides products by price, on behalf of a rule-set. -/
structure PriceFilter where
  /-- The rule-set it comes from. -/
  ruleset : UInt64
  /-- The relation in which a hidden price stands to the bound. -/
  op : Comparison
  /-- The configured price. -/
  price : Binary64
  deriving DecidableEq

namespace PriceFilter

/-- The bound that prices are compared with. -/
def bound (f : PriceFilter) : Int64 := f.price.truncate

/-- Whether a product of the given price is hidden. -/
def excludes (f : PriceFilter) (price : Binary64) : Bool :=
  f.op.holds price (.ofInt f.bound.toInt)

/-- Whether two filters are numerically the same. A filter whose price is not a number is not the
same as itself. -/
def agrees (f g : PriceFilter) : Bool :=
  f.ruleset == g.ruleset && f.op == g.op && f.price.sameValue g.price

end PriceFilter

/-! ### What one rule-set hides -/

/-- The taxonomy clause of a product exclusion; there is none when no category is listed. -/
def ProductExclusions.clauses (p : ProductExclusions) : List Clause :=
  if p.inCategories.isEmpty then [] else [.notInCategories p.inCategories]

/-- The products that an exclusion hides by id. -/
def ProductExclusions.ids (p : ProductExclusions) (c : Catalog) : List UInt64 :=
  p.products ++ p.variants.filterMap c.variationParent ++
    p.attributeTerms.flatMap c.productsWithTerm

/-- The categories that a count rule hides. -/
def CountRule.ids (rule : CountRule) (c : Catalog) : List UInt64 :=
  (c.categories.filter fun k ↦ rule.op.holds (.ofNat k.count) rule.threshold).map (·.id)

/-- The categories that an exclusion hides. -/
def CategoryExclusions.ids (e : CategoryExclusions) (c : Catalog) : List UInt64 :=
  e.categories ++ e.subcategories.filterMap c.categoryParent ++
    e.containingProducts.flatMap c.productCategories ++
    (e.containingVariants.filterMap c.variationParent).flatMap c.productCategories ++
    (match e.productCount with
      | some rule => rule.ids c
      | none => [])

/-- The price filter of a rule-set, if it has a price rule. -/
def Ruleset.priceFilters (r : Ruleset) : List PriceFilter :=
  match r.products.price with
  | some rule => [⟨r.index, rule.op, rule.price⟩]
  | none => []

/-! ### Plans -/

/-- Everything that is hidden from a request. -/
structure Plan where
  /-- Clauses to add to the product query. -/
  clauses : List Clause := []
  /-- Hidden products. -/
  products : IdSet := ∅
  /-- Hidden categories. -/
  categories : IdSet := ∅
  /-- Filters by price. -/
  priceFilters : List PriceFilter := []
  deriving DecidableEq

namespace Plan

/-- The plan that hides nothing. -/
def empty : Plan := {}

instance : EmptyCollection Plan := ⟨empty⟩

instance : Inhabited Plan := ⟨empty⟩

/-- The plan with the effects of one more rule-set. -/
def absorb (plan : Plan) (c : Catalog) (r : Ruleset) : Plan where
  clauses := plan.clauses ++ r.products.clauses
  products := plan.products.insertMany (r.products.ids c)
  categories := plan.categories.insertMany (r.categories.ids c)
  priceFilters := plan.priceFilters ++ r.priceFilters

/-- The plan with the effects of further rule-sets. -/
def absorbAll (plan : Plan) (c : Catalog) (rs : List Ruleset) : Plan :=
  rs.foldl (fun p r ↦ p.absorb c r) plan

/-- Whether a plan hides nothing. -/
def isEmpty (plan : Plan) : Bool :=
  plan.clauses.isEmpty && plan.products.isEmpty && plan.categories.isEmpty &&
    plan.priceFilters.isEmpty

/-- Whether some price filter hides products of the given price. -/
def hidesPrice (plan : Plan) (price : Binary64) : Bool :=
  plan.priceFilters.any (·.excludes price)

/-- Whether two plans hide the same, prices being compared as numbers. -/
def agrees (p q : Plan) : Bool :=
  p.clauses == q.clauses && p.products == q.products && p.categories == q.categories &&
    p.priceFilters.length == q.priceFilters.length &&
    (p.priceFilters.zip q.priceFilters).all fun (f, g) ↦ f.agrees g

/-- The text of a plan: how much of each kind it holds. -/
def toText (plan : Plan) : String :=
  "ExclusionPlan(" ++ Text.ofNat plan.clauses.length ++ " category clauses, " ++
    Text.ofNat plan.products.size ++ " products, " ++
    Text.ofNat plan.categories.size ++ " categories, " ++
    Text.ofNat plan.priceFilters.length ++ " price filters)"

end Plan

end Storefront
