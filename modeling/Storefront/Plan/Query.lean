import Storefront.Plan.Basic
/-!
# Plans and the storefront's queries

How a finished plan changes the product query and the listing of sub-categories. Neither takes away
what the storefront itself has put there, with one exception: a listing's excluded categories are
replaced as soon as the plan hides a category.
-/

namespace Storefront

/-- The arguments of the product query that a plan may change. -/
structure ProductQueryArgs where
  /-- Taxonomy and meta filters. -/
  taxQuery : List Clause := []
  /-- Products to leave out. -/
  notIn : List UInt64 := []
  deriving DecidableEq, Repr

/-- The arguments of the sub-category listing. -/
structure SubcategoryArgs where
  /-- The category whose children are listed. -/
  parent : Option UInt64 := none
  /-- Categories to leave out. -/
  exclude : List UInt64 := []
  deriving DecidableEq, Repr

namespace Plan

/-- A list of ids with one more at the end, unless it is there already. -/
def appendId (ids : List UInt64) (i : UInt64) : List UInt64 :=
  if i ∈ ids then ids else ids ++ [i]

/-- Adds the clauses and hidden products to a product query. -/
def applyToQuery (plan : Plan) (args : ProductQueryArgs) : ProductQueryArgs where
  taxQuery := args.taxQuery ++ plan.clauses
  notIn := plan.products.toList.foldl appendId args.notIn

/-- Makes a sub-category listing leave out the hidden categories, if there are any. -/
def applyToSubcategories (plan : Plan) (args : SubcategoryArgs) : SubcategoryArgs :=
  if plan.categories.isEmpty then args else { args with exclude := plan.categories.toList }

end Plan

end Storefront
