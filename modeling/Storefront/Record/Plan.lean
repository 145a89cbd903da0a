import Storefront.Record.Rules
import Storefront.Record.Shop
import Storefront.Plan.Query
import Storefront.Plan.Sql
/-!
# Records of plans

The recorded forms of exclusion plans and of the query arguments they change.
-/

namespace Storefront

open Record

/-- A price filter tells which rule-set it comes from. -/
instance : Record PriceFilter where
  write f := .object [("ruleset", write f.ruleset), ("op", write f.op), ("price", write f.price)]
  read? d := do
    let [ruleset, op, price] ← fields? ["ruleset", "op", "price"] d | none
    pure ⟨← field? ruleset, ← field? op, ← field? price⟩

/-- Products and categories are sets, clauses and price filters lists in their order. -/
instance : Record Plan where
  write p :=
    .object [("tax_clauses", write p.clauses), ("product_ids", write p.products),
      ("category_ids", write p.categories), ("price_filters", write p.priceFilters)]
  read? d := do
    let [clauses, products, categories, prices] ←
      fields? ["tax_clauses", "product_ids", "category_ids", "price_filters"] d | none
    pure ⟨← field? clauses, ← field? products, ← field? categories, ← field? prices⟩

/-- The arguments of a product query that a plan adds to. -/
instance : Record ProductQueryArgs where
  write a := .object [("tax_query", write a.taxQuery), ("post_not_in", write a.notIn)]
  read? d := do
    let [tax, notIn] ← fields? ["tax_query", "post_not_in"] d | none
    pure ⟨← field? tax, ← field? notIn⟩

/-- The arguments of a query for the categories below one. A missing parent is read as none. -/
instance : Record SubcategoryArgs where
  write a := .object [("parent", write a.parent), ("exclude", write a.exclude)]
  read? d := do
    let [parent, exclude] ← fields? ["parent", "exclude"] d | none
    pure ⟨← field? parent, ← field? exclude⟩

/-- The two texts of a query that price filters are written into. -/
instance : Record PostsClauses where
  write c := .object [("join", write c.join), ("where_sql", write c.filter)]
  read? d := do
    let [join, filter] ← fields? ["join", "where_sql"] d | none
    pure ⟨← field? join, ← field? filter⟩

end Storefront
