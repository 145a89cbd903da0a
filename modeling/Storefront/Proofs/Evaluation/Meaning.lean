import Storefront.Evaluation
import Storefront.Proofs.Amount.Displayed
import Storefront.Proofs.Binary64.Exact
import Storefront.Proofs.Inventory.Matching
import Storefront.Proofs.Report.Facts
/-!
# What conditions mean

A condition says something about the request and the shop: that an exact number stands in a relation
to a bound, or that some or none of the selected items is among the facts. `Condition.Holds` spells
this out for an inventory, without the numbers and lists that evaluation works with, and a condition
is evaluated to true exactly if it holds (`evaluate_iff_holds`).

Evaluation compares binary64 numbers. A displayed subtotal is one
(`Amount.exists_extended?_ofDisplay`), and the counts are exact as long as they are at most
`2 ^ 53`, which is all that is assumed.

Whether a value was configured plays no part. Without an operator, a bound or a selection a
condition does not hold, whatever the operator (`evaluate_of_isIncomplete`), and with all of them
the two membership operators exclude each other.
-/

namespace Storefront

/-! ### Facts -/

/-- The exact number that a numeric fact is, for a request to a shop. -/
def NumericFact.IsExactly (f : NumericFact) (r : Request) (i : Inventory) (x : Extended) : Prop :=
  match f with
  | activeProductCount =>
    x = .ofRat (i.countWhere fun p ↦ ∀ c ∈ r.taxFilters ++ r.metaFilters, p.Meets c)
  | availableProductCount =>
    x = .ofRat (i.countWhere fun p ↦ (∀ c ∈ r.taxFilters ++ r.metaFilters, p.Meets c) ∧
      Availability.purchasable.Admits p)
  | orderSubtotal => (Amount.ofDisplay r.subtotal).extended? = some x
  | totalQuantity => x = .ofRat ((r.cart.map (·.quantity.toNat)).sum : Nat)

/-- An id belongs to a fact about the cart. -/
def CartFact.Contains (f : CartFact) (r : Request) (i : Inventory) (k : UInt64) : Prop :=
  match f with
  | products => ∃ l ∈ r.cart, l.productId = k
  | variations => ∃ l ∈ r.cart, l.variationId = k ∧ k ≠ 0
  | categories => ∃ l ∈ r.cart, ∃ p, i.products.get? l.productId = some p ∧ k ∈ p.categories
  | coupons => ∃ code ∈ r.coupons, i.coupons.get? code = some k

/-- The visitor is logged in and has a role. -/
def Request.HasRole (r : Request) (role : String) : Prop :=
  ∃ roles, r.roles = some roles ∧ role ∈ roles

/-- A selection stands to a set of facts as a membership operator says. -/
def Membership.Relates {α : Type} (op : Membership) (selected : List α) (facts : α → Prop) : Prop :=
  match op with
  | includes => ∃ a ∈ selected, facts a
  | excludes => ∀ a ∈ selected, ¬ facts a

/-- What a condition says of a request to a shop. -/
inductive Condition.Holds (r : Request) (i : Inventory) : Condition → Prop where
  /-- The exact number stands in the relation to the exact bound. -/
  | numeric {fact : NumericFact} {op : Comparison} {bound : Binary64} {hasValue : Bool}
      {x y : Extended} (hx : fact.IsExactly r i x) (hy : bound.extended? = some y)
      (h : op.Relates x y) : Holds r i (.numeric fact (some op) (some bound) hasValue)
  /-- Every number is unequal to what is not a number; it stands in no other relation to it. -/
  | unequal {fact : NumericFact} {hasValue : Bool} :
      Holds r i (.numeric fact (some .notEqual) (some .nan) hasValue)
  /-- Some roles are selected, and they stand to those of the visitor as the operator says. -/
  | roles {op : Membership} {roles : List String} {hasValue : Bool} (hne : roles ≠ [])
      (h : op.Relates roles r.HasRole) : Holds r i (.customerRoles (some op) roles hasValue)
  /-- Some ids are selected, and they stand to the fact as the operator says. -/
  | ids {fact : CartFact} {op : Membership} {ids : List UInt64} {hasValue : Bool} (hne : ids ≠ [])
      (h : op.Relates ids (fact.Contains r i)) : Holds r i (.cart fact (some op) ids hasValue)

/-- A part without which a condition cannot hold is missing. -/
inductive Condition.IsIncomplete : Condition → Prop where
  /-- There is no comparison. -/
  | noComparison {fact : NumericFact} {bound : Option Binary64} {hasValue : Bool} :
      IsIncomplete (.numeric fact none bound hasValue)
  /-- There is no bound. -/
  | noBound {fact : NumericFact} {op : Option Comparison} {hasValue : Bool} :
      IsIncomplete (.numeric fact op none hasValue)
  /-- There is no operator for the roles. -/
  | noRoleOperator {roles : List String} {hasValue : Bool} :
      IsIncomplete (.customerRoles none roles hasValue)
  /-- No role is selected. -/
  | noRole {op : Option Membership} {hasValue : Bool} :
      IsIncomplete (.customerRoles op [] hasValue)
  /-- There is no operator for the ids. -/
  | noIdOperator {fact : CartFact} {ids : List UInt64} {hasValue : Bool} :
      IsIncomplete (.cart fact none ids hasValue)
  /-- No id is selected. -/
  | noId {fact : CartFact} {op : Option Membership} {hasValue : Bool} :
      IsIncomplete (.cart fact op [] hasValue)
  /-- The kind is not known. -/
  | unsupported {kind : String} {hasValue : Bool} : IsIncomplete (.unsupported kind hasValue)

/-- Two conditions select the same items, some at all: the first holds without them, the second with
one of them. -/
inductive Condition.Opposes : Condition → Condition → Prop where
  /-- Both select roles. -/
  | roles {roles : List String} {hasValue hasValue' : Bool} (hne : roles ≠ []) :
      Opposes (.customerRoles (some .excludes) roles hasValue)
        (.customerRoles (some .includes) roles hasValue')
  /-- Both select ids for the same fact. -/
  | ids {fact : CartFact} {ids : List UInt64} {hasValue hasValue' : Bool} (hne : ids ≠ []) :
      Opposes (.cart fact (some .excludes) ids hasValue)
        (.cart fact (some .includes) ids hasValue')

section

variable {r : Request} {i : Inventory}

theorem Request.mem_userRoles_iff {role : String} : role ∈ r.userRoles ↔ r.HasRole role := by
  cases hroles : r.roles with
  | none => simp [userRoles, HasRole, hroles]
  | some roles => simp [userRoles, HasRole, hroles]

theorem CartFact.mem_ids_iff {f : CartFact} {k : UInt64} :
    k ∈ f.ids r i.catalog ↔ f.Contains r i k := by
  cases f with
  | products => exact List.mem_map
  | variations =>
    simp only [ids, Contains, List.mem_filter, List.mem_map, decide_eq_true_eq]
    constructor
    · rintro ⟨⟨l, hl, hk⟩, hne⟩
      exact ⟨l, hl, hk, hne⟩
    · rintro ⟨l, hl, hk, hne⟩
      exact ⟨⟨l, hl, hk⟩, hne⟩
  | categories =>
    have hcategories (product : UInt64) : k ∈ i.productCategories product ↔
        ∃ p, i.products.get? product = some p ∧ k ∈ p.categories := by
      rw [Inventory.productCategories]
      cases i.products.get? product with
      | none => simp
      | some p => simp
    simp only [ids, Contains, List.mem_flatMap]
    exact exists_congr fun l ↦ and_congr_right fun _ ↦ hcategories l.productId
  | coupons => exact List.mem_filterMap

theorem Membership.holds_iff {α : Type} [BEq α] [LawfulBEq α] {op : Membership} {selected : List α}
    {facts : List α} {P : α → Prop} (h : ∀ a, a ∈ facts ↔ P a) :
    op.holds selected facts.contains = true ↔ op.Relates selected P := by
  have hany : selected.any facts.contains = true ↔ ∃ a ∈ selected, P a := by
    simp only [List.any_eq_true, List.contains_iff_mem, h]
  cases op with
  | includes => exact hany
  | excludes =>
    rw [holds, verdict, Bool.not_eq_true', ← Bool.not_eq_true, hany, Relates, not_exists]
    exact forall_congr' fun _ ↦ not_and

/-- The count of the active products is the number of ids under which one that meets all filters is
found. -/
theorem Inventory.countProducts_any (i : Inventory) (r : Request) :
    i.catalog.countProducts (.ofRequest r .any) =
      i.countWhere fun p ↦ ∀ c ∈ r.taxFilters ++ r.metaFilters, p.Meets c :=
  (i.countProducts_eq_countWhere _).trans (i.countWhere_congr fun _ ↦ and_iff_left trivial)

namespace NumericFact

variable {f : NumericFact} {x : Extended}

/-- The number that is compared is exactly the fact. -/
theorem extended?_value (hquantity : (r.cart.map (·.quantity.toNat)).sum ≤ 2 ^ 53)
    (hproducts : (i.countWhere fun p ↦ ∀ c ∈ r.taxFilters ++ r.metaFilters, p.Meets c) ≤ 2 ^ 53)
    (h : f.IsExactly r i x) : (f.value r i.catalog).extended? = some x := by
  cases f with
  | activeProductCount =>
    rw [value, i.countProducts_any, Binary64.extended?_ofNat hproducts, h]
  | availableProductCount =>
    have hcount : i.catalog.countProducts (.ofRequest r .purchasable) =
        i.countWhere fun p ↦ (∀ c ∈ r.taxFilters ++ r.metaFilters, p.Meets c) ∧
          Availability.purchasable.Admits p := i.countProducts_eq_countWhere _
    rw [value, hcount, Binary64.extended?_ofNat (Nat.le_trans i.countWhere_and_le hproducts), h]
  | orderSubtotal => exact h
  | totalQuantity =>
    have hword : (r.cart.map (·.quantity.toNat)).sum < UInt64.size :=
      Nat.lt_of_le_of_lt hquantity (by decide)
    rw [value, Request.totalQuantity_eq_sum hword, Binary64.extended?_ofNat hquantity, h]

/-- Every fact is some number. -/
theorem exists_isExactly (f : NumericFact) (r : Request) (i : Inventory) :
    ∃ x, f.IsExactly r i x := by
  cases f with
  | activeProductCount => exact ⟨_, rfl⟩
  | availableProductCount => exact ⟨_, rfl⟩
  | orderSubtotal => exact Amount.exists_extended?_ofDisplay r.subtotal
  | totalQuantity => exact ⟨_, rfl⟩

end NumericFact

/-! ### Conditions -/

namespace Condition

theorem evaluate_numeric_iff {fact : NumericFact} {op : Comparison} {bound : Binary64}
    {hasValue : Bool} (hvalue : ∀ x, fact.IsExactly r i x →
      (fact.value r i.catalog).extended? = some x) :
    (numeric fact (some op) (some bound) hasValue).evaluate r i.catalog = true ↔
      (numeric fact (some op) (some bound) hasValue).Holds r i := by
  rw [evaluate]
  obtain ⟨x, hx⟩ := fact.exists_isExactly r i
  cases hbound : bound.extended? with
  | none =>
    rw [Binary64.extended?_eq_none_iff.1 hbound, Comparison.holds_nan, beq_iff_eq]
    constructor
    · rintro rfl
      exact .unequal
    · rintro (⟨-, hy, -⟩ | _)
      · cases hy
      · rfl
  | some y =>
    rw [Binary64.holds_iff_relates op (hvalue x hx) hbound]
    constructor
    · exact .numeric hx hbound
    · rintro (⟨hx', hy', h⟩ | _)
      · obtain rfl : y = _ := Option.some.inj (hbound.symm.trans hy')
        obtain rfl : x = _ := Option.some.inj ((hvalue _ hx).symm.trans (hvalue _ hx'))
        exact h
      · cases hbound

theorem evaluate_customerRoles_iff {op : Membership} {roles : List String} {hasValue : Bool} :
    (customerRoles (some op) roles hasValue).evaluate r i.catalog = true ↔
      (customerRoles (some op) roles hasValue).Holds r i := by
  rw [evaluate, Bool.and_eq_true, Bool.not_eq_true', List.isEmpty_eq_false_iff,
    Membership.holds_iff fun _ ↦ Request.mem_userRoles_iff]
  exact ⟨fun ⟨hne, h⟩ ↦ .roles hne h, fun | .roles hne h => ⟨hne, h⟩⟩

theorem evaluate_cart_iff {fact : CartFact} {op : Membership} {ids : List UInt64}
    {hasValue : Bool} :
    (cart fact (some op) ids hasValue).evaluate r i.catalog = true ↔
      (cart fact (some op) ids hasValue).Holds r i := by
  rw [evaluate, Bool.and_eq_true, Bool.not_eq_true', List.isEmpty_eq_false_iff,
    Membership.holds_iff fun _ ↦ CartFact.mem_ids_iff]
  exact ⟨fun ⟨hne, h⟩ ↦ .ids hne h, fun | .ids hne h => ⟨hne, h⟩⟩

/-- A condition that lacks a part is evaluated to false, whatever the operator. -/
theorem evaluate_of_isIncomplete {condition : Condition} (h : condition.IsIncomplete)
    (c : Catalog) : condition.evaluate r c = false := by
  cases h with
  | noComparison | noRoleOperator | noIdOperator | unsupported => rfl
  | @noBound _ op _ | @noRole op _ | @noId _ op _ => cases op <;> rfl

theorem not_holds_of_isIncomplete {condition : Condition} (h : condition.IsIncomplete) :
    ¬ condition.Holds r i := by
  cases h with
  | noRole => exact fun | .roles hne _ => hne rfl
  | noId => exact fun | .ids hne _ => hne rfl
  | noComparison | noBound | noRoleOperator | noIdOperator | unsupported => nofun

/-- Both readings of an incomplete condition agree. -/
theorem evaluate_iff_of_isIncomplete {condition : Condition} (h : condition.IsIncomplete) :
    condition.evaluate r i.catalog = true ↔ condition.Holds r i :=
  iff_of_false (Bool.not_eq_true _ ▸ evaluate_of_isIncomplete h _) (not_holds_of_isIncomplete h)

/-- The membership operators exclude each other on the items that they are asked about. -/
theorem evaluate_eq_not_of_opposes {condition other : Condition} (h : condition.Opposes other)
    (c : Catalog) : condition.evaluate r c = !other.evaluate r c := by
  have hnonempty {α : Type} {selected : List α} (hne : selected ≠ []) :
      (!selected.isEmpty) = true := by
    rw [List.isEmpty_eq_false_iff.2 hne, Bool.not_false]
  cases h with
  | roles hne | ids hne =>
    rw [evaluate, evaluate, hnonempty hne, Bool.true_and, Bool.true_and, Membership.holds_excludes]

/-- **A condition is evaluated to true exactly if it holds.** For an inventory and a request that
stay within the exact counts, this is so for every condition, whatever it holds or lacks. One that
lacks a part is evaluated to false, and of two that select the same items under the opposite
operators exactly one is evaluated to true. -/
theorem evaluate_iff_holds (hquantity : (r.cart.map (·.quantity.toNat)).sum ≤ 2 ^ 53)
    (hproducts : (i.countWhere fun p ↦ ∀ c ∈ r.taxFilters ++ r.metaFilters, p.Meets c) ≤ 2 ^ 53) :
    (∀ condition : Condition, condition.evaluate r i.catalog = true ↔ condition.Holds r i) ∧
      (∀ condition : Condition, condition.IsIncomplete →
        condition.evaluate r i.catalog = false) ∧
      ∀ condition other : Condition, condition.Opposes other →
        condition.evaluate r i.catalog = !other.evaluate r i.catalog := by
  refine ⟨fun condition ↦ ?_, fun _ h ↦ evaluate_of_isIncomplete h _,
    fun _ _ h ↦ evaluate_eq_not_of_opposes h _⟩
  match condition with
  | numeric _ (some _) (some _) _ =>
    exact evaluate_numeric_iff fun _ ↦ NumericFact.extended?_value hquantity hproducts
  | numeric _ (some _) none _ => exact evaluate_iff_of_isIncomplete .noBound
  | numeric _ none _ _ => exact evaluate_iff_of_isIncomplete .noComparison
  | customerRoles (some _) _ _ => exact evaluate_customerRoles_iff
  | customerRoles none _ _ => exact evaluate_iff_of_isIncomplete .noRoleOperator
  | cart _ (some _) _ _ => exact evaluate_cart_iff
  | cart _ none _ _ => exact evaluate_iff_of_isIncomplete .noIdOperator
  | unsupported _ _ => exact evaluate_iff_of_isIncomplete .unsupported

/-- A shop with a product that is sold out and a coupon. -/
def pairShop : Inventory :=
  ((Inventory.empty.addProduct { id := 1, categories := [10] }).addProduct
    { id := 2, categories := [10, 11], stock := .outOfStock }).setCoupon "SPRING" 500

/-- A visitor who has both products in the cart, one without a variation, and gave a coupon code
that the shop does not know. -/
def pairRequest : Request where
  cart := [⟨1, 0, 2⟩, ⟨2, 21, 1⟩]
  subtotal := "$1,250.00"
  coupons := ["LOST"]
  roles := some ["customer"]

/-- The subtotal, the products that are listed and those that can be bought, the variations and the
coupons of the visitor. -/
theorem evaluate_iff_holds_pairRequest :
    ((pairRequest.cart.map (·.quantity.toNat)).sum ≤ 2 ^ 53 ∧
      (pairShop.countWhere fun p ↦ ∀ c ∈ pairRequest.taxFilters ++ pairRequest.metaFilters,
        p.Meets c) ≤ 2 ^ 53) ∧
    (ofNumeric .orderSubtotal .equal (.ofNat 1250)).Holds pairRequest pairShop ∧
    (ofNumeric .activeProductCount .equal (.ofNat 2)).Holds pairRequest pairShop ∧
    (ofNumeric .availableProductCount .equal (.ofNat 1)).Holds pairRequest pairShop ∧
    (ofIds .variations .includes [0, 21]).Holds pairRequest pairShop ∧
    ¬ (ofIds .variations .includes [0]).Holds pairRequest pairShop ∧
    (ofIds .coupons .excludes [500]).Holds pairRequest pairShop := by
  have hquantity : (pairRequest.cart.map (·.quantity.toNat)).sum ≤ 2 ^ 53 := by decide
  have hproducts : (pairShop.countWhere fun p ↦
      ∀ c ∈ pairRequest.taxFilters ++ pairRequest.metaFilters, p.Meets c) ≤ 2 ^ 53 := by
    rw [← pairShop.countProducts_any pairRequest]
    decide +kernel
  have hiff := (evaluate_iff_holds hquantity hproducts).1
  exact ⟨⟨hquantity, hproducts⟩, (hiff _).1 (by decide +kernel), (hiff _).1 (by decide +kernel),
    (hiff _).1 (by decide +kernel), (hiff _).1 (by decide +kernel),
    mt (hiff _).2 (by decide +kernel), (hiff _).1 (by decide +kernel)⟩

end Condition

end

end Storefront
