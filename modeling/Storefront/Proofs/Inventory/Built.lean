import Storefront.Proofs.Inventory.Matching
import Storefront.Proofs.Ordered.Latest
/-!
# Inventories by the calls that built them

What an inventory answers is determined by the calls that built it, key by key by the latest call
that set the key. Categories are the exception: a product makes its categories known but sets no
parent, and one that is replaced leaves its categories known. So the parent of a category is a
matter of the latest category call alone (`parent_built`), whether it is known is a matter of all
calls that name it (`isSome_parent_built`), and its count is worked out from the latest records of
the products.

`reflects_built` puts the answers together. A product call and a category call commute, since
neither undoes what the other one does to a category (`call_product_category`).
-/

namespace Storefront.Inventory

/-! ### Calls -/

/-- A call that adds to an inventory. -/
inductive Call where
  /-- Adds a product. -/
  | product (p : Product)
  /-- Sets the parent of a category. -/
  | category (category : UInt64) (parent : Option UInt64)
  /-- Sets the product that a variation belongs to. -/
  | variation (variation product : UInt64)
  /-- Sets the id of a coupon code. -/
  | coupon (code : String) (id : UInt64)

namespace Call

/-- The record that a call adds under a product id. -/
def product? (id : UInt64) : Call → Option Product
  | product p => if p.id = id then some p else none
  | _ => none

/-- The parent that a call sets for a category. -/
def parent? (k : UInt64) : Call → Option (Option UInt64)
  | category c parent => if c = k then some parent else none
  | _ => none

/-- The product that a call sets for a variation. -/
def variationParent? (v : UInt64) : Call → Option UInt64
  | variation w owner => if w = v then some owner else none
  | _ => none

/-- The id that a call sets for a coupon code. -/
def couponId? (code : String) : Call → Option UInt64
  | coupon code' id => if code' = code then some id else none
  | _ => none

/-- The calls that make a category known. -/
inductive Names (k : UInt64) : Call → Prop where
  /-- The one that sets its parent. -/
  | category (parent : Option UInt64) : Names k (.category k parent)
  /-- One that adds a product assigned to it. -/
  | product {p : Product} (h : k ∈ p.categories) : Names k (.product p)

end Call

/-- The inventory after a call. -/
def call (i : Inventory) : Call → Inventory
  | .product p => i.addProduct p
  | .category category parent => i.setCategory category parent
  | .variation variation product => i.setVariation variation product
  | .coupon code id => i.setCoupon code id

/-- The inventory that calls build. -/
def built (calls : List Call) : Inventory := calls.foldl call empty

/-- The latest record of a product. -/
def latestProduct? (calls : List Call) (id : UInt64) : Option Product :=
  latest? (Call.product? id) calls

variable {calls : List Call} {id k : UInt64}

/-! ### What one call does -/

/-- Registering categories makes those known that are not, and leaves the others as they are. -/
theorem get?_foldl_register (parents : OrderedMap UInt64 (Option UInt64)) (ks : List UInt64)
    (k : UInt64) :
    (ks.foldl register parents).get? k =
      (parents.get? k).or (if k ∈ ks then some none else none) := by
  induction ks generalizing parents with
  | nil => simp
  | cons j ks ih =>
    rw [List.foldl_cons, ih, register]
    split
    · next hknown =>
      by_cases hk : k = j
      · subst hk
        obtain ⟨parent, hparent⟩ := Option.isSome_iff_exists.1 hknown
        rw [hparent]
        rfl
      · simp [hk]
    · next hnew =>
      rw [OrderedMap.get?_insert_eq_or]
      by_cases hk : j = k
      · subst hk
        simp [Option.not_isSome_iff_eq_none.1 hnew]
      · simp [hk, Ne.symm hk]

theorem get?_products_call (i : Inventory) (c : Call) (id : UInt64) :
    (i.call c).products.get? id = (c.product? id).or (i.products.get? id) := by
  match c with
  | .product p => exact OrderedMap.get?_insert_eq_or _ _ _ _
  | .category .. | .variation .. | .coupon .. => rfl

theorem get?_variations_call (i : Inventory) (c : Call) (v : UInt64) :
    (i.call c).variations.get? v = (c.variationParent? v).or (i.variations.get? v) := by
  match c with
  | .variation .. => exact OrderedMap.get?_insert_eq_or _ _ _ _
  | .product .. | .category .. | .coupon .. => rfl

theorem get?_coupons_call (i : Inventory) (c : Call) (code : String) :
    (i.call c).coupons.get? code = (c.couponId? code).or (i.coupons.get? code) := by
  match c with
  | .coupon .. => exact OrderedMap.get?_insert_eq_or _ _ _ _
  | .product .. | .category .. | .variation .. => rfl

/-- A product call sets no parent. -/
theorem parent_call (i : Inventory) (c : Call) (k : UInt64) :
    ((i.call c).categoryParents.get? k).join =
      (c.parent? k).getD (i.categoryParents.get? k).join := by
  match c with
  | .category j parent =>
    show ((i.categoryParents.insert j parent).get? k).join = _
    rw [OrderedMap.get?_insert_eq_or, Call.parent?]
    by_cases hk : j = k <;> simp [hk]
  | .product p =>
    show ((p.categories.foldl register i.categoryParents).get? k).join =
      (i.categoryParents.get? k).join
    rw [get?_foldl_register]
    cases i.categoryParents.get? k with
    | some parent => rfl
    | none => split <;> rfl
  | .variation .. | .coupon .. => rfl

theorem isSome_parent_call (i : Inventory) (c : Call) (k : UInt64) :
    ((i.call c).categoryParents.get? k).isSome ↔
      c.Names k ∨ (i.categoryParents.get? k).isSome := by
  match c with
  | .category j parent =>
    show ((i.categoryParents.insert j parent).get? k).isSome ↔ _
    rw [OrderedMap.get?_insert_eq_or]
    by_cases hk : j = k
    · subst hk
      simp [Call.Names.category]
    · have hnot : ¬ (Call.category j parent).Names k := by
        rintro ⟨⟩
        exact hk rfl
      simp [hk, hnot]
  | .product p =>
    show ((p.categories.foldl register i.categoryParents).get? k).isSome ↔ _
    have hnames : (Call.product p).Names k ↔ k ∈ p.categories :=
      ⟨fun | .product h => h, .product⟩
    rw [get?_foldl_register, hnames]
    by_cases hk : k ∈ p.categories <;> simp [hk]
  | .variation .. | .coupon .. => exact (or_iff_right nofun).symm

/-- A product call and a category call may change places, whatever category they are about. -/
theorem call_product_category (i : Inventory) (p : Product) (j : UInt64)
    (parent : Option UInt64) :
    (i.call (.product p)).call (.category j parent) =
      (i.call (.category j parent)).call (.product p) := by
  have hparents : (p.categories.foldl register i.categoryParents).insert j parent =
      p.categories.foldl register (i.categoryParents.insert j parent) := by
    refine OrderedMap.ext_get? fun k ↦ ?_
    rw [OrderedMap.get?_insert_eq_or, get?_foldl_register, get?_foldl_register,
      OrderedMap.get?_insert_eq_or, Option.or_assoc]
  rw [call, call, call, call, addProduct, setCategory, addProduct, setCategory, hparents]

/-! ### What all calls do -/

theorem get?_products_built (calls : List Call) (id : UInt64) :
    (built calls).products.get? id = latestProduct? calls id :=
  foldl_eq_latest? (·.products.get? id) (get?_products_call · · id) empty rfl calls

theorem get?_variations_built (calls : List Call) (v : UInt64) :
    (built calls).variations.get? v = latest? (Call.variationParent? v) calls :=
  foldl_eq_latest? (·.variations.get? v) (get?_variations_call · · v) empty rfl calls

theorem get?_coupons_built (calls : List Call) (code : String) :
    (built calls).coupons.get? code = latest? (Call.couponId? code) calls :=
  foldl_eq_latest? (·.coupons.get? code) (get?_coupons_call · · code) empty rfl calls

/-- The parent of a category is what the latest category call set. -/
theorem parent_built (calls : List Call) (k : UInt64) :
    ((built calls).categoryParents.get? k).join = (latest? (Call.parent? k) calls).join := by
  rw [built, foldl_eq_getD_latest? (fun i : Inventory ↦ (i.categoryParents.get? k).join)
    (parent_call · · k)]
  cases latest? (Call.parent? k) calls <;> rfl

/-- A category is known if any call named it. -/
theorem isSome_parent_built (calls : List Call) (k : UInt64) :
    ((built calls).categoryParents.get? k).isSome ↔ ∃ c ∈ calls, c.Names k := by
  induction calls using List.reverseRecOn with
  | nil => exact iff_of_false nofun nofun
  | append_singleton calls c ih =>
    rw [built, List.foldl_append]
    show ((call (built calls) c).categoryParents.get? k).isSome ↔ _
    rw [isSome_parent_call, ih]
    simp only [List.mem_append, List.mem_singleton, or_and_right, exists_or, exists_eq_left]
    exact or_comm

/-! ### Products of a kind -/

/-- Every product is held under its own id. -/
def Keyed (i : Inventory) : Prop := ∀ id p, i.products.get? id = some p → p.id = id

theorem keyed_built (calls : List Call) : (built calls).Keyed := by
  intro id p hp
  rw [get?_products_built] at hp
  obtain ⟨c, -, hc⟩ := exists_of_latest? hp
  match c with
  | .product q =>
    rw [Call.product?] at hc
    split at hc
    · next hid => rwa [← Option.some.inj hc]
    · cases hc

theorem pairwise_keys {α : Type} (m : OrderedMap UInt64 α) : m.keys.Pairwise (· < ·) :=
  List.pairwise_map.2 (m.ascending.imp Std.compare_eq_lt.1)

section

variable {i : Inventory} (keep : Product → Bool)

theorem Keyed.map_id_values (h : i.Keyed) : i.products.values.map (·.id) = i.products.keys := by
  rw [OrderedMap.values, OrderedMap.keys, List.map_map]
  exact List.map_congr_left fun e he ↦ h e.1 e.2 (OrderedMap.get?_eq_some_iff.2 he)

/-- The ids of the products of a kind are listed ascending. -/
theorem Keyed.pairwise_map_id_filter (h : i.Keyed) :
    ((i.products.values.filter keep).map (·.id)).Pairwise (· < ·) := by
  have hall : (i.products.values.map (·.id)).Pairwise (· < ·) := by
    rw [h.map_id_values]
    exact pairwise_keys i.products
  exact hall.sublist (List.filter_sublist.map _)

theorem Keyed.mem_map_id_filter (h : i.Keyed) {id : UInt64} :
    id ∈ (i.products.values.filter keep).map (·.id) ↔
      ∃ p, i.products.get? id = some p ∧ keep p := by
  simp only [List.mem_map, List.mem_filter, OrderedMap.mem_values_iff]
  constructor
  · rintro ⟨p, ⟨⟨j, hp⟩, hkeep⟩, rfl⟩
    exact ⟨p, by rwa [h j p hp], hkeep⟩
  · rintro ⟨p, hp, hkeep⟩
    exact ⟨p, ⟨⟨id, hp⟩, hkeep⟩, h id p hp⟩

end

/-! ### Answers -/

/-- A catalog answers what a sequence of calls determines. -/
structure Reflects (c : Catalog) (calls : List Call) : Prop where
  /-- The categories are listed strictly ascending. -/
  pairwise_categories : (c.categories.map (·.id)).Pairwise (· < ·)
  /-- They are those that any call named, be it a product call whose record was replaced later. -/
  mem_categories_iff (k : UInt64) : k ∈ c.categories.map (·.id) ↔ ∃ call ∈ calls, call.Names k
  /-- The count of a category is the number of product ids whose latest record lists it. -/
  count_eq {k : CategoryCount} (h : k ∈ c.categories) :
    k.count = {id | ∃ p, latestProduct? calls id = some p ∧ k.id ∈ p.categories}.ncard
  /-- The parent of a category is what the latest category call set, and none without one. -/
  categoryParent_eq (k : UInt64) : c.categoryParent k = (latest? (Call.parent? k) calls).join
  /-- The categories of a product are those of its latest record. -/
  productCategories_eq (id : UInt64) :
    c.productCategories id = ((latestProduct? calls id).map (·.categories)).getD []
  /-- The products with a term are listed strictly ascending. -/
  pairwise_productsWithTerm (t : UInt64) : (c.productsWithTerm t).Pairwise (· < ·)
  /-- They are those whose latest record carries the term. -/
  mem_productsWithTerm_iff (t id : UInt64) :
    id ∈ c.productsWithTerm t ↔ ∃ p, latestProduct? calls id = some p ∧ t ∈ p.attributeTerms
  /-- The product of a variation is what was set for it latest. -/
  variationParent_eq (v : UInt64) :
    c.variationParent v = latest? (Call.variationParent? v) calls
  /-- The id of a coupon code is what was set for it latest. -/
  couponId_eq (code : String) : c.couponId code = latest? (Call.couponId? code) calls

/-- **An inventory answers what the calls that built it determine**, and a product call and a
category call that follow one another may change places, whatever category they are about. -/
theorem reflects_built :
    (∀ calls, Reflects (built calls).catalog calls) ∧
      ∀ before after p category parent,
        built (before ++ .product p :: .category category parent :: after) =
          built (before ++ .category category parent :: .product p :: after) := by
  refine ⟨fun calls ↦ ?_, fun before after p category parent ↦ ?_⟩
  · have hkeyed := keyed_built calls
    have hproducts := get?_products_built calls
    refine
      { pairwise_categories := ?_
        mem_categories_iff := fun k ↦ ?_
        count_eq := fun {k} hk ↦ ?_
        categoryParent_eq := parent_built calls
        productCategories_eq := fun id ↦ ?_
        pairwise_productsWithTerm := fun t ↦ hkeyed.pairwise_map_id_filter _
        mem_productsWithTerm_iff := fun t id ↦ ?_
        variationParent_eq := get?_variations_built calls
        couponId_eq := get?_coupons_built calls }
    · show ((built calls).categories.map (·.id)).Pairwise (· < ·)
      rw [map_id_categories]
      exact pairwise_keys _
    · show k ∈ (built calls).categories.map (·.id) ↔ _
      rw [map_id_categories, OrderedMap.mem_keys_iff, isSome_parent_built]
    · rw [count_of_mem_categories _ hk, categorySize, OrderedMap.countP_values]
      simp only [hproducts, List.contains_iff_mem]
    · show (built calls).productCategories id = _
      rw [productCategories_eq, hproducts]
    · show id ∈ (built calls).productsWithTerm t ↔ _
      rw [productsWithTerm, hkeyed.mem_map_id_filter]
      simp only [hproducts, List.contains_iff_mem]
  · have hswap := call_product_category (before.foldl call empty) p category parent
    rw [built, built, List.foldl_append, List.foldl_append, List.foldl_cons, List.foldl_cons,
      List.foldl_cons, List.foldl_cons, hswap]

end Storefront.Inventory
