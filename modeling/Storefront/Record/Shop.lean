import Storefront.Record.Basic
import Storefront.Configuration.Field
import Storefront.Inventory
/-!
# Records of the shop

The recorded forms of requests, product queries, products and option names. A filter is tagged with
its type.
-/

namespace Storefront

open Record

/-! ### Requests -/

/-- A term operator is recorded in the spelling of queries. -/
instance : Record TermOperator where
  write op := .text op.wire
  read? := case? ([TermOperator.isIn, .notIn].map fun op ↦ (op.wire, op))

/-- A filter is tagged with its type. -/
instance : Record Clause where
  write
    | .taxonomy taxonomy terms op =>
      .object [("type", .text "taxonomy"), ("taxonomy", write taxonomy), ("terms", write terms),
        ("operator", write op)]
    | .metaField key value =>
      .object [("type", .text "meta"), ("key", write key), ("value", write value)]
  read? d := do
    let (type, d) ← tagged? "type" d
    if type = "taxonomy" then
      let [taxonomy, terms, op] ← fields? ["taxonomy", "terms", "operator"] d | none
      pure (.taxonomy (← field? taxonomy) (← field? terms) (← field? op))
    else if type = "meta" then
      let [key, value] ← fields? ["key", "value"] d | none
      pure (.metaField (← field? key) (← field? value))
    else none

instance : Record CartLine where
  write l :=
    .object [("product_id", write l.productId), ("variation_id", write l.variationId),
      ("quantity", write l.quantity)]
  read? d := do
    let [product, variation, quantity] ← fields? ["product_id", "variation_id", "quantity"] d
      | none
    pure ⟨← field? product, ← field? variation, ← field? quantity⟩

/-- Filters, cart, subtotal, coupons and roles; a visitor without roles has none recorded. -/
instance : Record Request where
  write r :=
    .object [("tax_query", write r.taxFilters), ("meta_query", write r.metaFilters),
      ("cart", write r.cart), ("subtotal", write r.subtotal), ("coupons", write r.coupons),
      ("roles", write r.roles)]
  read? d := do
    let [tax, metas, cart, subtotal, coupons, roles] ←
      fields? ["tax_query", "meta_query", "cart", "subtotal", "coupons", "roles"] d | none
    pure ⟨← field? tax, ← field? metas, ← field? cart, ← field? subtotal, ← field? coupons,
      ← field? roles⟩

/-! ### Queries and products -/

/-- The recorded name of an availability. -/
def Availability.recordName : Availability → String
  | any => "Any"
  | purchasable => "Purchasable"

instance : Record Availability where
  write a := .text a.recordName
  read? := case? ([Availability.any, .purchasable].map fun a ↦ (a.recordName, a))

/-- A product query is its clauses and which products count as available. -/
instance : Record ProductQuery where
  write q := .object [("clauses", write q.clauses), ("availability", write q.availability)]
  read? d := do
    let [clauses, availability] ← fields? ["clauses", "availability"] d | none
    pure ⟨← field? clauses, ← field? availability⟩

instance : Record CategoryCount where
  write c := .object [("id", write c.id), ("count", write c.count)]
  read? d := do
    let [id, count] ← fields? ["id", "count"] d | none
    pure ⟨← field? id, ← field? count⟩

/-- The storefront's spelling of a stock status. -/
def StockStatus.wire : StockStatus → String
  | inStock => "instock"
  | outOfStock => "outofstock"
  | onBackorder => "onbackorder"

/-- Every stock status. -/
def StockStatus.all : List StockStatus := [inStock, outOfStock, onBackorder]

instance : Record StockStatus where
  write s := .text s.wire
  read? := case? (StockStatus.all.map fun s ↦ (s.wire, s))

/-- A product with its terms, its stock and the texts of its meta fields. -/
instance : Record Product where
  write p :=
    .object [("id", write p.id), ("categories", write p.categories),
      ("attribute_terms", write p.attributeTerms), ("stock", write p.stock),
      ("backorders_allowed", write p.backordersAllowed), ("meta", write p.metaFields)]
  read? d := do
    let [id, categories, terms, stock, backorders, metas] ←
      fields? ["id", "categories", "attribute_terms", "stock", "backorders_allowed", "meta"] d
      | none
    pure ⟨← field? id, ← field? categories, ← field? terms, ← field? stock, ← field? backorders,
      ← field? metas⟩

/-! ### Option names -/

/-- An absent prefix is the usual one. -/
instance : Record Naming where
  write n := .object [("option_prefix", write n.optionPrefix)]
  read?
    | .list [] => some {}
    | d => do
      let [stem] ← fields? ["option_prefix"] d | none
      match stem with
      | none => some {}
      | some d => (read? d).map Naming.mk

end Storefront
