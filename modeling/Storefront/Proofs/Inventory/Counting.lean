import Storefront.Inventory
/-!
# Laws of counting products

A query is a conjunction of filters: a product counts if it passes every clause and can be had.
Counting inherits the laws of a conjunction from this. What else there is to know of a clause by
terms is that of its two kinds a product passes exactly one (`Product.passes_notIn`).

The sizes of the categories are worked out without a query, from the assignments of the products.
They are what a query for the category counts (`Inventory.categorySize_eq_countProducts`).
-/

namespace Storefront

/-! ### One product -/

namespace Product

/-- A product passes one of the two clauses about the same terms. -/
theorem passes_notIn (p : Product) (taxonomy : String) (terms : List UInt64) :
    p.passes (.taxonomy taxonomy terms .notIn) = !p.passes (.taxonomy taxonomy terms .isIn) :=
  rfl

/-- One more clause is one more test. -/
theorem satisfies_append_singleton (p : Product) (cs : List Clause) (clause : Clause)
    (a : Availability) :
    p.satisfies ⟨cs ++ [clause], a⟩ = (p.satisfies ⟨cs, a⟩ && p.passes clause) := by
  rw [satisfies, satisfies, List.all_append, List.all_cons, List.all_nil, Bool.and_true,
    Bool.and_right_comm]

theorem satisfies_iff_of_any {p : Product} {cs : List Clause} :
    p.satisfies ⟨cs, .any⟩ = true ↔ ∀ clause ∈ cs, p.passes clause := by
  rw [satisfies, isAvailable, Bool.and_true, List.all_eq_true]

/-- A product that satisfies a query satisfies every query that asks for no more. -/
theorem satisfies_of_subset {p : Product} {cs ds : List Clause} {a : Availability} (h : cs ⊆ ds)
    (hp : p.satisfies ⟨ds, a⟩) : p.satisfies ⟨cs, a⟩ := by
  obtain ⟨hall, havailable⟩ := Bool.and_eq_true_iff.1 hp
  refine Bool.and_eq_true_iff.2 ⟨List.all_eq_true.2 fun clause hclause ↦ ?_, havailable⟩
  exact List.all_eq_true.1 hall clause (h hclause)

end Product

/-! ### All products -/

namespace Inventory

variable (i : Inventory)

/-- An inventory counts the same products for the same filters, in whatever order and however often
they are given. -/
theorem countProducts_congr {q₁ q₂ : ProductQuery}
    (hclauses : ∀ clause, clause ∈ q₁.clauses ↔ clause ∈ q₂.clauses)
    (havailability : q₁.availability = q₂.availability) :
    i.countProducts q₁ = i.countProducts q₂ := by
  refine List.countP_congr fun p _ ↦ ?_
  simp only [Product.satisfies, Bool.and_eq_true, List.all_eq_true, hclauses, havailability]

/-- A query that asks for less counts no fewer products. -/
theorem countProducts_le_of_subset {cs ds : List Clause} (h : cs ⊆ ds) (a : Availability) :
    i.countProducts ⟨ds, a⟩ ≤ i.countProducts ⟨cs, a⟩ :=
  List.countP_mono_left fun _ _ hp ↦ Product.satisfies_of_subset h hp

/-- The products that carry one of some terms and those that carry none are all there are. -/
theorem countProducts_isIn_add_notIn (cs : List Clause) (a : Availability) (taxonomy : String)
    (terms : List UInt64) :
    i.countProducts ⟨cs ++ [.taxonomy taxonomy terms .isIn], a⟩ +
        i.countProducts ⟨cs ++ [.taxonomy taxonomy terms .notIn], a⟩ =
      i.countProducts ⟨cs, a⟩ := by
  have hsplit := List.countP_eq_countP_filter_add i.products.values (·.satisfies ⟨cs, a⟩)
    fun p ↦ p.passes (.taxonomy taxonomy terms .isIn)
  rw [List.countP_filter, List.countP_filter] at hsplit
  simp only [countProducts, Product.satisfies_append_singleton, Product.passes_notIn, hsplit]

theorem countProducts_purchasable_le (cs : List Clause) :
    i.countProducts ⟨cs, .purchasable⟩ ≤ i.countProducts ⟨cs, .any⟩ :=
  List.countP_mono_left fun _ _ hp ↦
    Bool.and_eq_true_iff.2 ⟨(Bool.and_eq_true_iff.1 hp).1, rfl⟩

/-- The size of a category is the count of the query for it. -/
theorem categorySize_eq_countProducts (k : UInt64) :
    i.categorySize k = i.countProducts ⟨[.taxonomy categoryTaxonomy [k] .isIn], .any⟩ := by
  refine List.countP_congr fun p _ ↦ ?_
  rw [Product.satisfies_iff_of_any, List.forall_mem_singleton, Product.passes, Product.termsIn,
    if_pos rfl, List.any_cons, List.any_nil, Bool.or_false]

end Inventory

/-- A catalog counts products as by a conjunction of filters. -/
structure Catalog.CountsByConjunction (c : Catalog) : Prop where
  /-- The products with one of some terms and those with none of them are all there are. -/
  isIn_add_notIn (cs : List Clause) (a : Availability) (taxonomy : String) (terms : List UInt64) :
    c.countProducts ⟨cs ++ [.taxonomy taxonomy terms .isIn], a⟩ +
        c.countProducts ⟨cs ++ [.taxonomy taxonomy terms .notIn], a⟩ =
      c.countProducts ⟨cs, a⟩
  /-- The order of the clauses and how often they are given make no difference. -/
  same_clauses {cs ds : List Clause} (h : ∀ clause, clause ∈ ds ↔ clause ∈ cs) (a : Availability) :
    c.countProducts ⟨ds, a⟩ = c.countProducts ⟨cs, a⟩
  /-- A further clause, wherever it is put, never raises a count. -/
  insert_le (before after : List Clause) (clause : Clause) (a : Availability) :
    c.countProducts ⟨before ++ clause :: after, a⟩ ≤ c.countProducts ⟨before ++ after, a⟩
  /-- There are no more products that can be had than products. -/
  purchasable_le (cs : List Clause) :
    c.countProducts ⟨cs, .purchasable⟩ ≤ c.countProducts ⟨cs, .any⟩
  /-- The count of a listed category is the count of the query for it. -/
  category_count {k : CategoryCount} (h : k ∈ c.categories) :
    k.count = c.countProducts ⟨[.taxonomy "product_cat" [k.id] .isIn], .any⟩

/-- **An inventory counts products as by a conjunction of filters**, and its category counts are
counts of the same kind. -/
theorem Inventory.countsByConjunction_catalog (i : Inventory) : i.catalog.CountsByConjunction where
  isIn_add_notIn := i.countProducts_isIn_add_notIn
  same_clauses h _ := i.countProducts_congr h rfl
  insert_le before after clause a := by
    refine i.countProducts_le_of_subset (fun c hc ↦ ?_) a
    rcases List.mem_append.1 hc with hc | hc
    · exact List.mem_append_left _ hc
    · exact List.mem_append_right _ (List.mem_cons_of_mem _ hc)
  purchasable_le := i.countProducts_purchasable_le
  category_count {k} h := by
    rw [i.count_of_mem_categories h]
    exact i.categorySize_eq_countProducts k.id

end Storefront
