import Storefront.Report
import Storefront.Proofs.Inventory.Counting
import Mathlib.Algebra.GroupWithZero.Nat
/-!
# What a run depends on in a request

A request is a record of lists, and none of the orders in it means anything: a cart may list its
lines in any order and may spread a quantity over several lines, coupons, roles and filters may be
repeated. `Request.SameFacts` relates requests that tell the same in this sense. A run cannot tell
them apart (`Snapshot.report_eq_of_sameFacts`), provided that the shop counts its products itself:
an arbitrary catalog may look at the order of the filters it is asked about, an inventory does not
(`Inventory.countProducts_congr`). The total quantity is a word, and a cart that holds more than it
can tell wraps around whichever way it is listed (`Request.totalQuantity_eq_mod`).

Whether a visitor without roles is logged in is not a fact either.
-/

namespace Storefront

/-! ### Carts -/

/-- Carts that differ in the order of their lines, and in how the quantity of an item is spread over
lines. -/
inductive SameCart : List CartLine → List CartLine → Prop where
  /-- Lines in another order. -/
  | perm {a b : List CartLine} (h : a.Perm b) : SameCart a b
  /-- A line split in two. -/
  | split (p v : UInt64) {q q₁ q₂ : UInt64} (h : q₁.toNat + q₂.toNat = q.toNat)
      (rest : List CartLine) : SameCart (⟨p, v, q⟩ :: rest) (⟨p, v, q₁⟩ :: ⟨p, v, q₂⟩ :: rest)
  /-- Either cart may come first; in particular two lines may be joined. -/
  | symm {a b : List CartLine} (h : SameCart a b) : SameCart b a
  /-- Any number of such steps. -/
  | trans {a b d : List CartLine} (h : SameCart a b) (h' : SameCart b d) : SameCart a d

namespace SameCart

variable {a b : List CartLine}

theorem sum_quantity (h : SameCart a b) :
    (a.map (·.quantity.toNat)).sum = (b.map (·.quantity.toNat)).sum := by
  induction h with
  | perm h => exact (h.map _).sum_nat
  | split p v h rest =>
    simp only [List.map_cons, List.sum_cons, ← h, Nat.add_assoc]
  | symm _ ih => exact ih.symm
  | trans _ _ ih ih' => exact ih.trans ih'

/-- The same items are in both carts: what is true of the item of some line in the one is true of the
item of some line in the other. -/
theorem exists_line_iff (h : SameCart a b) (P : UInt64 → UInt64 → Prop) :
    (∃ l ∈ a, P l.productId l.variationId) ↔ ∃ l ∈ b, P l.productId l.variationId := by
  induction h with
  | perm h => exact exists_congr fun l ↦ and_congr_left fun _ ↦ h.mem_iff
  | split p v _ rest =>
    simp only [List.mem_cons, or_and_right, exists_or, exists_eq_left, or_self_left]
  | symm _ ih => exact ih.symm
  | trans _ _ ih ih' => exact ih.trans ih'

end SameCart

/-! ### Requests -/

/-- The total quantity is what the lines add up to, as far as the word holds it. -/
theorem Request.totalQuantity_eq_mod (r : Request) :
    r.totalQuantity = (r.cart.map (·.quantity.toNat)).sum % UInt64.size := by
  have hfold (cart : List CartLine) (n : UInt64) :
      (cart.foldl (fun n l ↦ n + l.quantity) n).toNat =
        (n.toNat + (cart.map (·.quantity.toNat)).sum) % UInt64.size := by
    induction cart generalizing n with
    | nil => exact (Nat.mod_eq_of_lt n.toNat_lt).symm
    | cons l cart ih =>
      rw [List.foldl_cons, ih, UInt64.toNat_add, List.map_cons, List.sum_cons, ← Nat.add_assoc]
      exact Nat.mod_add_mod ..
  rw [totalQuantity, hfold]
  exact congrArg (· % UInt64.size) (Nat.zero_add _)

/-- A sum that fits the word is exact. -/
theorem Request.totalQuantity_eq_sum {r : Request}
    (h : (r.cart.map (·.quantity.toNat)).sum < UInt64.size) :
    r.totalQuantity = (r.cart.map (·.quantity.toNat)).sum :=
  r.totalQuantity_eq_mod.trans (Nat.mod_eq_of_lt h)

/-- Requests that carry the same facts. -/
structure Request.SameFacts (r₁ r₂ : Request) : Prop where
  /-- The displayed subtotal is the same text. -/
  subtotal : r₁.subtotal = r₂.subtotal
  /-- The same coupons are applied. -/
  coupons (code : String) : code ∈ r₁.coupons ↔ code ∈ r₂.coupons
  /-- The visitor has the same roles; one who is not logged in has none. -/
  roles (role : String) : role ∈ r₁.userRoles ↔ role ∈ r₂.userRoles
  /-- The query has the same filters, those by taxonomy and those by meta field taken together. -/
  filters (clause : Clause) : clause ∈ r₁.filters ↔ clause ∈ r₂.filters
  /-- The carts differ at most in how they are listed. -/
  cart : SameCart r₁.cart r₂.cart

namespace Request.SameFacts

variable {r₁ r₂ : Request}

theorem totalQuantity_eq (h : r₁.SameFacts r₂) : r₁.totalQuantity = r₂.totalQuantity := by
  rw [totalQuantity_eq_mod, totalQuantity_eq_mod, h.cart.sum_quantity]

/-- Every cart fact consists of the same ids, whatever the catalog. -/
theorem mem_ids_iff (h : r₁.SameFacts r₂) (f : CartFact) (c : Catalog) (i : UInt64) :
    i ∈ f.ids r₁ c ↔ i ∈ f.ids r₂ c := by
  cases f with
  | products =>
    simp only [CartFact.ids, List.mem_map]
    exact h.cart.exists_line_iff fun p _ ↦ p = i
  | variations =>
    simp only [CartFact.ids, List.mem_filter, List.mem_map]
    exact and_congr_left fun _ ↦ h.cart.exists_line_iff fun _ v ↦ v = i
  | categories =>
    simp only [CartFact.ids, List.mem_flatMap]
    exact h.cart.exists_line_iff fun p _ ↦ i ∈ c.productCategories p
  | coupons => simp only [CartFact.ids, List.mem_filterMap, h.coupons]

end Request.SameFacts

/-! ### Evaluation -/

/-- Lists with the same members answer alike when asked for one. -/
theorem contains_eq_of_mem_iff {α : Type} [BEq α] [LawfulBEq α] {as bs : List α}
    (h : ∀ a, a ∈ as ↔ a ∈ bs) : as.contains = bs.contains := by
  funext a
  rw [Bool.eq_iff_iff, List.contains_iff_mem, List.contains_iff_mem]
  exact h a

namespace Request.SameFacts

variable {r₁ r₂ : Request}

theorem countProducts_eq (h : r₁.SameFacts r₂) (inventory : Inventory)
    (availability : Availability) :
    inventory.catalog.countProducts (.ofRequest r₁ availability) =
      inventory.catalog.countProducts (.ofRequest r₂ availability) :=
  inventory.countProducts_congr h.filters rfl

/-- Every number is the same. -/
theorem value_eq (h : r₁.SameFacts r₂) (f : NumericFact) (inventory : Inventory) :
    f.value r₁ inventory.catalog = f.value r₂ inventory.catalog := by
  cases f with
  | activeProductCount => rw [NumericFact.value, NumericFact.value, h.countProducts_eq]
  | availableProductCount => rw [NumericFact.value, NumericFact.value, h.countProducts_eq]
  | orderSubtotal =>
    rw [NumericFact.value, NumericFact.value, subtotalAmount, subtotalAmount, h.subtotal]
  | totalQuantity => rw [NumericFact.value, NumericFact.value, h.totalQuantity_eq]

/-- Every condition holds for both requests or for neither. -/
theorem evaluate_eq (h : r₁.SameFacts r₂) (condition : Condition) (inventory : Inventory) :
    condition.evaluate r₁ inventory.catalog = condition.evaluate r₂ inventory.catalog := by
  have hroles : r₁.userRoles.contains = r₂.userRoles.contains := contains_eq_of_mem_iff h.roles
  have hids (f : CartFact) :
      (f.ids r₁ inventory.catalog).contains = (f.ids r₂ inventory.catalog).contains :=
    contains_eq_of_mem_iff (h.mem_ids_iff f inventory.catalog)
  unfold Condition.evaluate
  split
  · rw [h.value_eq]
  · rw [hroles]
  · rw [hids]
  · rfl

end Request.SameFacts

/-- **A run depends on a request only through the facts it carries.** For a shop that holds its
products itself, every snapshot gives the same report on requests that carry the same facts. -/
theorem Snapshot.report_eq_of_sameFacts {r₁ r₂ : Request} (h : r₁.SameFacts r₂) (s : Snapshot)
    (inventory : Inventory) : s.report r₁ inventory.catalog = s.report r₂ inventory.catalog := by
  have htest : (fun rule : Ruleset ↦ rule.condition.evaluate r₁ inventory.catalog) =
      fun rule ↦ rule.condition.evaluate r₂ inventory.catalog :=
    funext fun rule ↦ h.evaluate_eq rule.condition inventory
  exact congrArg (fun test : Ruleset → Bool ↦
    ((s.reportWith inventory.catalog fun rule ↦ (pure (test rule) : StateM Unit Bool)).run ()).1)
    htest

/-- A request with three items of one kind and one of another. -/
def tidyRequest : Request where
  metaFilters := [.metaField "colour" "red", .metaField "size" "m"]
  cart := [⟨10, 11, 3⟩, ⟨20, 0, 1⟩]
  subtotal := "$40.00"
  coupons := ["spring"]
  roles := none

/-- The same, listed carelessly. -/
def untidyRequest : Request where
  metaFilters := [.metaField "size" "m", .metaField "colour" "red", .metaField "size" "m"]
  cart := [⟨10, 11, 1⟩, ⟨20, 0, 1⟩, ⟨10, 11, 2⟩]
  subtotal := "$40.00"
  coupons := ["spring", "spring"]
  roles := some []

/-- A shop with a product of each kind, one of which passes the filters. -/
def colourInventory : Inventory :=
  let fields := ((∅ : OrderedMap String String).insert "colour" "red").insert "size" "m"
  (Inventory.empty.addProduct { id := 10, categories := [1], metaFields := fields }).addProduct
    { id := 20, categories := [2] }

/-- Rule-sets that test the quantity, the categories in the cart and the number of products. -/
def factSnapshot : Snapshot :=
  (((Snapshot.empty .paid).put
    { index := 0, condition := .ofNumeric .totalQuantity .equal (.ofNat 4),
      products := { products := [10] } }).put
    { index := 1, condition := .ofIds .categories .includes [2],
      categories := { categories := [2] } }).put
    { index := 2, condition := .ofNumeric .activeProductCount .greater (.ofNat 1),
      products := { products := [20] } }

theorem Snapshot.report_untidyRequest :
    tidyRequest.SameFacts untidyRequest ∧
      factSnapshot.report untidyRequest colourInventory.catalog =
        { order := [0, 1, 2], evaluated := [0, 1, 2], matched := [0, 1],
          plan := { products := IdSet.ofList [10], categories := IdSet.ofList [2] } } := by
  have hcart : SameCart tidyRequest.cart untidyRequest.cart :=
    .trans (.split 10 11 rfl _) (.perm ((List.Perm.swap ..).cons _))
  have h : tidyRequest.SameFacts untidyRequest :=
    { subtotal := rfl
      coupons := fun code ↦ by simp [tidyRequest, untidyRequest]
      roles := fun role ↦ by simp [tidyRequest, untidyRequest, Request.userRoles]
      filters := fun clause ↦ by
        simp only [tidyRequest, untidyRequest, Request.filters, List.nil_append, List.mem_cons,
          List.not_mem_nil, or_false]
        grind
      cart := hcart }
  refine ⟨h, ?_⟩
  rw [← Snapshot.report_eq_of_sameFacts h]
  decide +kernel

end Storefront
