import Storefront.Amount
import Storefront.Text.Numeral
/-!
# Requests

What a visitor's request for the shop page tells: the filters of the product query that is being
built, the cart, and who is asking. A request is only read.
-/

namespace Storefront

/-- The taxonomy that holds product categories. Every other taxonomy is about attribute terms. -/
def categoryTaxonomy : String := "product_cat"

/-- How a taxonomy clause treats the terms it lists. -/
inductive TermOperator where
  /-- Keeps products that carry one of the terms. -/
  | isIn
  /-- Keeps products that carry none of the terms. -/
  | notIn
  deriving DecidableEq, Repr

/-- The query layer's spelling. -/
def TermOperator.wire : TermOperator → String
  | isIn => "IN"
  | notIn => "NOT IN"

/-- One filter of a product query. -/
inductive Clause where
  /-- A filter by the terms of a taxonomy. -/
  | taxonomy (taxonomy : String) (terms : List UInt64) (op : TermOperator)
  /-- A filter by the exact value of a product's meta field. -/
  | metaField (key value : String)
  deriving DecidableEq, Repr

/-- The clause that hides every product of the given categories. -/
def Clause.notInCategories (categories : List UInt64) : Clause :=
  taxonomy categoryTaxonomy categories .notIn

/-- A line of the cart. -/
structure CartLine where
  /-- The product. -/
  productId : UInt64
  /-- The variation of it that was chosen; zero for a product without variations. -/
  variationId : UInt64
  /-- How many. -/
  quantity : UInt64
  deriving DecidableEq, Repr

/-- A request for the shop page. -/
structure Request where
  /-- The taxonomy filters of the query. -/
  taxFilters : List Clause := []
  /-- The meta filters of the query. -/
  metaFilters : List Clause := []
  /-- The lines of the cart. -/
  cart : List CartLine := []
  /-- The cart's subtotal as the storefront shows it, currency and separators included. -/
  subtotal : String := ""
  /-- The codes of the applied coupons. -/
  coupons : List String := []
  /-- The roles of the visitor, if one is logged in. -/
  roles : Option (List String) := none
  deriving DecidableEq, Repr

namespace Request

/-- The visitor's roles; somebody who is not logged in has none. -/
def userRoles (r : Request) : List String := r.roles.getD []

/-- Whether the visitor is logged in. -/
def isLoggedIn (r : Request) : Bool := r.roles.isSome

/-- How many items the cart holds. The quantities are summed in a word of sixty-four bits, and a sum
that does not fit it wraps around. -/
def totalQuantity (r : Request) : Nat :=
  (r.cart.foldl (fun (n : UInt64) l ↦ n + l.quantity) 0).toNat

/-- All filters of the query. -/
def filters (r : Request) : List Clause := r.taxFilters ++ r.metaFilters

/-- The number that the displayed subtotal shows. -/
def subtotalAmount (r : Request) : Binary64 := Amount.ofDisplay r.subtotal

end Request

end Storefront
