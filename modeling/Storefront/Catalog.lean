import Storefront.Request
/-!
# Catalogs

What rule-sets need to know about the shop, as a record of questions that a storefront answers.
Nothing is assumed about the answers. `Inventory` is a catalog that holds its products itself.
-/

namespace Storefront

/-- Which products a count takes in. -/
inductive Availability where
  /-- Every published product. -/
  | any
  /-- Products that are in stock, on backorder, or may be ordered back. -/
  | purchasable
  deriving DecidableEq, Repr

/-- A request to count products. -/
structure ProductQuery where
  /-- The filters; a product counts when it passes all of them. -/
  clauses : List Clause := []
  /-- Which products to take in. -/
  availability : Availability := .any
  deriving DecidableEq, Repr

/-- The count of the products that a request's own filters leave. -/
def ProductQuery.ofRequest (r : Request) (availability : Availability) : ProductQuery :=
  ⟨r.filters, availability⟩

/-- A product category with the number of its products. -/
structure CategoryCount where
  /-- The category. -/
  id : UInt64
  /-- How many products are assigned to it. -/
  count : Nat
  deriving DecidableEq, Repr

/-- The answers of a storefront. -/
structure Catalog where
  /-- How many products a query matches. -/
  countProducts : ProductQuery → Nat
  /-- The categories of a product; none for an unknown one. -/
  productCategories : UInt64 → List UInt64
  /-- The product that a variation belongs to. -/
  variationParent : UInt64 → Option UInt64
  /-- The products that carry an attribute term. -/
  productsWithTerm : UInt64 → List UInt64
  /-- The parent of a category; none at the top level or for an unknown one. -/
  categoryParent : UInt64 → Option UInt64
  /-- All product categories with their counts. -/
  categories : List CategoryCount
  /-- The id of a coupon code. -/
  couponId : String → Option UInt64

end Storefront
