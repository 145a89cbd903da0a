import Storefront.Operator
import Storefront.Binary64.Text
import Storefront.Text.Numeral
/-!
# Conditions

A condition tests one fact about a request. The facts form three families with different values to
compare with: numbers, the roles of the visitor, and sets of ids that the cart gives rise to. A
fourth case keeps a stored kind that is not one of the nine known ones.

The operator and the bound may be missing, because they are read from a store that holds anything.
Whether a value to compare with was configured *at all* is kept apart from whether one could be
read: a condition without one is blank and its rule-set is passed over, whereas a condition with an
unreadable one is tested and fails.
-/

namespace Storefront

/-! ### Facts -/

/-- A fact that is a number. -/
inductive NumericFact where
  /-- How many products match the filters of the query. -/
  | activeProductCount
  /-- How many of those can be bought. -/
  | availableProductCount
  /-- The cart's subtotal as displayed. -/
  | orderSubtotal
  /-- How many items the cart holds. -/
  | totalQuantity
  deriving DecidableEq, Repr

/-- A fact that is a set of ids which the cart gives rise to. -/
inductive CartFact where
  /-- The products in the cart. -/
  | products
  /-- The variations in the cart. -/
  | variations
  /-- The categories of the products in the cart. -/
  | categories
  /-- The coupons applied to the cart. -/
  | coupons
  deriving DecidableEq, Repr

/-- The fact that a condition tests. -/
inductive Fact where
  /-- A number. -/
  | numeric (fact : NumericFact)
  /-- The roles of the visitor. -/
  | customerRoles
  /-- A set of ids. -/
  | cart (fact : CartFact)
  deriving DecidableEq, Repr

namespace Fact

/-- Every fact, in the order of the settings form. -/
def all : List Fact :=
  [numeric .activeProductCount, numeric .availableProductCount, numeric .orderSubtotal,
    customerRoles, cart .products, cart .variations, cart .categories, cart .coupons,
    numeric .totalQuantity]

/-- The stored spelling. -/
def wire : Fact → String
  | numeric .activeProductCount => "active_product_count"
  | numeric .availableProductCount => "available_product_count"
  | numeric .orderSubtotal => "order_subtotal"
  | numeric .totalQuantity => "total_quantity"
  | customerRoles => "customer_roles"
  | cart .products => "product_in_cart"
  | cart .variations => "product_variations"
  | cart .categories => "product_categories"
  | cart .coupons => "coupon_applied"

/-- The fact that is stored under a spelling. -/
def ofWire? (s : String) : Option Fact := all.find? fun f ↦ f.wire == s

@[simp] theorem ofWire?_wire (f : Fact) : ofWire? f.wire = some f := by
  rcases f with ⟨_ | _ | _ | _⟩ | _ | ⟨_ | _ | _ | _⟩ <;> decide

end Fact

/-! ### Conditions -/

/-- A test of one fact. -/
inductive Condition where
  /-- A number is compared with a bound. -/
  | numeric (fact : NumericFact) (op : Option Comparison) (bound : Option Binary64)
      (hasValue : Bool)
  /-- The visitor's roles are tested for the selected ones. -/
  | customerRoles (op : Option Membership) (roles : List String) (hasValue : Bool)
  /-- A set of ids is tested for the selected ones. -/
  | cart (fact : CartFact) (op : Option Membership) (ids : List UInt64) (hasValue : Bool)
  /-- A stored kind that is not known. It never holds. -/
  | unsupported (kind : String) (hasValue : Bool)
  deriving DecidableEq

namespace Condition

/-- The condition that compares a number. -/
def ofNumeric (fact : NumericFact) (op : Comparison) (bound : Binary64) : Condition :=
  numeric fact (some op) (some bound) true

/-- The condition that selects roles; it has a value if any is selected. -/
def ofRoles (op : Membership) (roles : List String) : Condition :=
  customerRoles (some op) roles (!roles.isEmpty)

/-- The condition that selects ids; it has a value if any is selected. -/
def ofIds (fact : CartFact) (op : Membership) (ids : List UInt64) : Condition :=
  cart fact (some op) ids (!ids.isEmpty)

/-- The fact that a condition tests, if its kind is known. -/
def fact? : Condition → Option Fact
  | numeric f .. => some (.numeric f)
  | customerRoles .. => some .customerRoles
  | cart f .. => some (.cart f)
  | unsupported .. => none

/-- Whether a value to compare with was configured, readable or not. -/
def hasValue : Condition → Bool
  | numeric _ _ _ b => b
  | customerRoles _ _ b => b
  | cart _ _ _ b => b
  | unsupported _ b => b

/-- Whether no value to compare with was configured. -/
def isBlank (c : Condition) : Bool := !c.hasValue

/-! ### Text -/

/-- A list in square brackets. -/
def bracketed (items : List String) : String := "[" ++ ", ".intercalate items ++ "]"

/-- The part of a condition's text behind the kind. -/
def testText : Condition → String
  | numeric _ (some op) (some t) _ => op.symbol ++ " " ++ t.toText
  | customerRoles (some op) roles _ => op.symbol ++ " " ++ bracketed roles
  | cart _ (some op) ids _ => op.symbol ++ " " ++ bracketed (ids.map Text.ofUInt64)
  | _ => "<blank>"

/-- The text of a condition: `(total_quantity > 3)`. -/
def toText : Condition → String
  | unsupported kind _ => "(unsupported '" ++ kind ++ "')"
  | c => "(" ++ (c.fact?.map Fact.wire).getD "" ++ " " ++ c.testText ++ ")"

end Condition

end Storefront
