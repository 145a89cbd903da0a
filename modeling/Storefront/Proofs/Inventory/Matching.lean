import Storefront.Inventory
import Mathlib.Data.Set.Card
/-!
# What a query asks of a product

A clause is a test on one product, and a query asks for products that pass all of its clauses and
can be had. `Product.Meets` and `Availability.Admits` say what each part asks, without the tests
that decide it. Products are counted by looking ids up (`Inventory.countWhere`), without the list
that an inventory goes through, and the count of a query is the number of ids under which a product
that meets all of it is found (`Inventory.countProducts_eq_countWhere`).
-/

namespace Storefront

/-- A product carries a term: a category under the taxonomy of categories, an attribute term under
any other. -/
inductive Product.Carries (p : Product) (taxonomy : String) (t : UInt64) : Prop where
  /-- The product is in the category. -/
  | category (h : taxonomy = "product_cat") (ht : t ∈ p.categories)
  /-- The product has the attribute term. -/
  | attribute (h : taxonomy ≠ "product_cat") (ht : t ∈ p.attributeTerms)

/-- What a clause asks of a product. -/
inductive Product.Meets (p : Product) : Clause → Prop where
  /-- One of the listed terms is carried. -/
  | isIn {taxonomy : String} {terms : List UInt64} {t : UInt64} (h : t ∈ terms)
      (ht : p.Carries taxonomy t) : p.Meets (.taxonomy taxonomy terms .isIn)
  /-- None of the listed terms is carried. -/
  | notIn {taxonomy : String} {terms : List UInt64} (h : ∀ t ∈ terms, ¬ p.Carries taxonomy t) :
      p.Meets (.taxonomy taxonomy terms .notIn)
  /-- The meta field is there and has the value. -/
  | metaField {key value : String} (h : p.metaFields.get? key = some value) :
      p.Meets (.metaField key value)

/-- Which products a count takes in. -/
def Availability.Admits : Availability → Product → Prop
  | any, _ => True
  | purchasable, p => p.stock = .inStock ∨ p.stock = .onBackorder ∨ p.backordersAllowed = true

namespace Product

theorem mem_termsIn_iff {p : Product} {taxonomy : String} {t : UInt64} :
    t ∈ p.termsIn taxonomy ↔ p.Carries taxonomy t := by
  rw [termsIn, categoryTaxonomy]
  constructor
  · split
    · next h => exact .category h
    · next h => exact .attribute h
  · rintro (⟨h, ht⟩ | ⟨h, ht⟩)
    · rwa [if_pos h]
    · rwa [if_neg h]

theorem any_contains_termsIn_iff {p : Product} {taxonomy : String} {terms : List UInt64} :
    terms.any ((p.termsIn taxonomy).contains ·) = true ↔ ∃ t ∈ terms, p.Carries taxonomy t := by
  simp only [List.any_eq_true, List.contains_iff_mem, mem_termsIn_iff]

/-- A product passes a clause if it meets what the clause asks. -/
theorem passes_iff {p : Product} {c : Clause} : p.passes c = true ↔ p.Meets c := by
  match c with
  | .taxonomy taxonomy terms .isIn =>
    rw [passes, any_contains_termsIn_iff]
    exact ⟨fun ⟨_, h, ht⟩ ↦ .isIn h ht, fun | .isIn h ht => ⟨_, h, ht⟩⟩
  | .taxonomy taxonomy terms .notIn =>
    rw [passes, Bool.not_eq_true', ← Bool.not_eq_true, any_contains_termsIn_iff]
    exact ⟨fun h ↦ .notIn fun t ht hc ↦ h ⟨t, ht, hc⟩,
      fun | .notIn h => fun ⟨t, ht, hc⟩ ↦ h t ht hc⟩
  | .metaField key value =>
    rw [passes, beq_iff_eq]
    exact ⟨.metaField, fun | .metaField h => h⟩

theorem isAvailable_iff {p : Product} {a : Availability} :
    p.isAvailable a = true ↔ a.Admits p := by
  cases a with
  | any => exact iff_of_true rfl trivial
  | purchasable =>
    rw [isAvailable, isPurchasable, Availability.Admits, Bool.or_eq_true, Bool.or_eq_true,
      beq_iff_eq, beq_iff_eq, or_assoc]

theorem satisfies_iff {p : Product} {q : ProductQuery} :
    p.satisfies q = true ↔ (∀ c ∈ q.clauses, p.Meets c) ∧ q.availability.Admits p := by
  rw [satisfies, Bool.and_eq_true, List.all_eq_true, isAvailable_iff]
  simp only [passes_iff]

end Product

/-! ### Counting -/

/-- Counting the values of a kind counts the keys that such a value is found under. -/
theorem OrderedMap.countP_values {κ α : Type} [Ord κ] [Std.TransOrd κ] [Std.LawfulEqOrd κ]
    (m : OrderedMap κ α) (keep : α → Bool) :
    m.values.countP keep = {k | ∃ v, m.get? k = some v ∧ keep v}.ncard := by
  classical
  have hset : {k | ∃ v, m.get? k = some v ∧ keep v} =
      (((m.toList.filter (keep ·.2)).map (·.1)).toFinset : Set κ) := by
    ext k
    simp [get?_eq_some_iff]
  have hnodup : ((m.toList.filter (keep ·.2)).map (·.1)).Nodup := by
    refine List.pairwise_map.2 ((m.ascending.filter _).imp fun {a b} hlt heq ↦ ?_)
    have hself : compare b.1 b.1 = .eq := Std.ReflCmp.compare_self
    rw [heq, hself] at hlt
    cases hlt
  rw [hset, Set.ncard_coe_finset, List.toFinset_card_of_nodup hnodup, List.length_map, values,
    List.countP_map, List.countP_eq_length_filter]
  rfl

namespace Inventory

/-- How many ids a product of a kind is found under. -/
noncomputable def countWhere (i : Inventory) (P : Product → Prop) : Nat :=
  {id | ∃ p, i.products.get? id = some p ∧ P p}.ncard

/-- Going through the products of an inventory counts the ids. -/
theorem countWhere_eq_countP (i : Inventory) {P : Product → Prop} (keep : Product → Bool)
    (h : ∀ p, keep p = true ↔ P p) : i.countWhere P = i.products.values.countP keep := by
  rw [i.products.countP_values, countWhere]
  simp only [h]

theorem countWhere_congr (i : Inventory) {P Q : Product → Prop} (h : ∀ p, P p ↔ Q p) :
    i.countWhere P = i.countWhere Q := by
  simp only [countWhere, h]

theorem countWhere_and_le (i : Inventory) {P Q : Product → Prop} :
    (i.countWhere fun p ↦ P p ∧ Q p) ≤ i.countWhere P := by
  classical
  rw [i.countWhere_eq_countP (fun p ↦ decide (P p ∧ Q p)) fun _ ↦ decide_eq_true_iff,
    i.countWhere_eq_countP (fun p ↦ decide (P p)) fun _ ↦ decide_eq_true_iff]
  refine List.countP_mono_left fun p _ h ↦ ?_
  exact decide_eq_true (of_decide_eq_true h).1

/-- The count of a query is the number of ids under which a product that meets all of it is
found. -/
theorem countProducts_eq_countWhere (i : Inventory) (q : ProductQuery) :
    i.countProducts q =
      i.countWhere fun p ↦ (∀ c ∈ q.clauses, p.Meets c) ∧ q.availability.Admits p :=
  (i.countWhere_eq_countP (·.satisfies q) fun _ ↦ Product.satisfies_iff).symm

end Inventory

end Storefront
