import Storefront.Catalog
import Storefront.Ordered.Map
/-!
# Inventories

A catalog that holds its products, variations, categories and coupons. Category counts are worked
out from the assignments of the products, so they cannot disagree with them.

Adding a product makes its categories known, at the top level unless they are known already. A
product that replaces another one leaves the categories of the old one known.
-/

namespace Storefront

/-- Whether a product is in stock. -/
inductive StockStatus where
  /-- In stock. -/
  | inStock
  /-- Not in stock. -/
  | outOfStock
  /-- Not in stock, and sold on backorder. -/
  | onBackorder
  deriving DecidableEq, Repr

/-- A product of an inventory. -/
structure Product where
  /-- The id. -/
  id : UInt64
  /-- The categories it is assigned to. -/
  categories : List UInt64 := []
  /-- The attribute terms it carries. -/
  attributeTerms : List UInt64 := []
  /-- Whether it is in stock. -/
  stock : StockStatus := .inStock
  /-- Whether it may be ordered back. -/
  backordersAllowed : Bool := false
  /-- Its meta fields. -/
  metaFields : OrderedMap String String := ∅
  deriving DecidableEq

namespace Product

/-- Whether a product can be bought. -/
def isPurchasable (p : Product) : Bool :=
  p.stock == .inStock || p.stock == .onBackorder || p.backordersAllowed

/-- The ids a product carries in a taxonomy. -/
def termsIn (p : Product) (taxonomy : String) : List UInt64 :=
  if taxonomy = categoryTaxonomy then p.categories else p.attributeTerms

/-- Whether a product passes a filter. -/
def passes (p : Product) : Clause → Bool
  | .taxonomy taxonomy terms .isIn => terms.any ((p.termsIn taxonomy).contains ·)
  | .taxonomy taxonomy terms .notIn => !terms.any ((p.termsIn taxonomy).contains ·)
  | .metaField key value => p.metaFields.get? key == some value

/-- Whether a count takes a product in. -/
def isAvailable (p : Product) : Availability → Bool
  | .any => true
  | .purchasable => p.isPurchasable

/-- Whether a query matches a product. -/
def satisfies (p : Product) (q : ProductQuery) : Bool :=
  q.clauses.all p.passes && p.isAvailable q.availability

end Product

/-- A catalog held in memory. -/
structure Inventory where
  /-- The products by id. -/
  products : OrderedMap UInt64 Product := ∅
  /-- The products that variations belong to, by variation. -/
  variations : OrderedMap UInt64 UInt64 := ∅
  /-- The known categories with their parents. -/
  categoryParents : OrderedMap UInt64 (Option UInt64) := ∅
  /-- The ids of coupons by code. -/
  coupons : OrderedMap String UInt64 := ∅
  deriving DecidableEq

namespace Inventory

/-- The inventory without anything. -/
def empty : Inventory := {}

instance : EmptyCollection Inventory := ⟨empty⟩

instance : Inhabited Inventory := ⟨empty⟩

/-! ### Building -/

/-- The categories with one made known at the top level, unless it is known. -/
def register (parents : OrderedMap UInt64 (Option UInt64)) (category : UInt64) :
    OrderedMap UInt64 (Option UInt64) :=
  if (parents.get? category).isSome then parents else parents.insert category none

/-- Adds a product, replacing one of the same id. -/
def addProduct (i : Inventory) (p : Product) : Inventory :=
  { i with
    products := i.products.insert p.id p
    categoryParents := p.categories.foldl register i.categoryParents }

/-- Sets the parent of a category. -/
def setCategory (i : Inventory) (category : UInt64) (parent : Option UInt64) : Inventory :=
  { i with categoryParents := i.categoryParents.insert category parent }

/-- Sets the product that a variation belongs to. -/
def setVariation (i : Inventory) (variation product : UInt64) : Inventory :=
  { i with variations := i.variations.insert variation product }

/-- Sets the id of a coupon code. -/
def setCoupon (i : Inventory) (code : String) (id : UInt64) : Inventory :=
  { i with coupons := i.coupons.insert code id }

/-! ### Answers -/

/-- How many products a query matches. -/
def countProducts (i : Inventory) (q : ProductQuery) : Nat :=
  i.products.values.countP (·.satisfies q)

/-- The categories of a product. -/
def productCategories (i : Inventory) (product : UInt64) : List UInt64 :=
  match i.products.get? product with
  | some p => p.categories
  | none => []

/-- The products that carry an attribute term, ascending. -/
def productsWithTerm (i : Inventory) (term : UInt64) : List UInt64 :=
  (i.products.values.filter (·.attributeTerms.contains term)).map (·.id)

/-- How many products are assigned to a category. -/
def categorySize (i : Inventory) (category : UInt64) : Nat :=
  i.products.values.countP (·.categories.contains category)

/-- The known categories, ascending, with their counts. -/
def categories (i : Inventory) : List CategoryCount :=
  i.categoryParents.keys.map fun c ↦ ⟨c, i.categorySize c⟩

theorem productCategories_eq (i : Inventory) (product : UInt64) :
    i.productCategories product =
      ((i.products.get? product).map (·.categories)).getD [] := by
  rw [productCategories]
  cases i.products.get? product <;> rfl

theorem map_id_categories (i : Inventory) : i.categories.map (·.id) = i.categoryParents.keys := by
  rw [categories, List.map_map]
  exact List.map_id _

theorem count_of_mem_categories (i : Inventory) {c : CategoryCount} (h : c ∈ i.categories) :
    c.count = i.categorySize c.id := by
  obtain ⟨k, -, rfl⟩ := List.mem_map.1 h
  rfl

/-- An inventory as a catalog. -/
def catalog (i : Inventory) : Catalog where
  countProducts := i.countProducts
  productCategories := i.productCategories
  variationParent := i.variations.get?
  productsWithTerm := i.productsWithTerm
  categoryParent c := (i.categoryParents.get? c).join
  categories := i.categories
  couponId := i.coupons.get?

end Inventory

end Storefront
