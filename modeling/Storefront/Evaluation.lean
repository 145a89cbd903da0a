import Storefront.Condition
import Storefront.Catalog
/-!
# Evaluating conditions

Whether a condition holds for a request. Evaluation fails closed: without an operator, without a
bound, with nothing selected or with an unknown kind the answer is no, whichever the operator. In
particular `excludes` with nothing selected does not hold.
-/

namespace Storefront

/-- The value of a numeric fact. -/
def NumericFact.value (f : NumericFact) (r : Request) (c : Catalog) : Binary64 :=
  match f with
  | activeProductCount => .ofNat (c.countProducts (.ofRequest r .any))
  | availableProductCount => .ofNat (c.countProducts (.ofRequest r .purchasable))
  | orderSubtotal => r.subtotalAmount
  | totalQuantity => .ofNat r.totalQuantity

/-- The ids that a cart fact consists of. A line without a variation has none, and a coupon code
that the catalog does not know has no id. -/
def CartFact.ids (f : CartFact) (r : Request) (c : Catalog) : List UInt64 :=
  match f with
  | products => r.cart.map (·.productId)
  | variations => (r.cart.map (·.variationId)).filter (· ≠ 0)
  | categories => r.cart.flatMap fun l ↦ c.productCategories l.productId
  | coupons => r.coupons.filterMap c.couponId

/-- Whether a condition holds. -/
def Condition.evaluate (condition : Condition) (r : Request) (c : Catalog) : Bool :=
  match condition with
  | numeric fact (some op) (some bound) _ => op.holds (fact.value r c) bound
  | customerRoles (some op) roles _ => !roles.isEmpty && op.holds roles r.userRoles.contains
  | cart fact (some op) ids _ => !ids.isEmpty && op.holds ids (fact.ids r c).contains
  | _ => false

end Storefront
