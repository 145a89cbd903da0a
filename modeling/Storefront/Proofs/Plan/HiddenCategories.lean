import Storefront.Plan.Query
import Storefront.Proofs.Inventory.Matching
import Mathlib.Data.List.Basic
/-!
# Products hidden by their categories

A plan hides the products of categories by clauses that it adds to the product query, one for every
rule-set that lists some. The query asks for products that pass all of them, so what the clauses
leave are the products that are in no listed category of any rule-set: one rule-set adds its
categories to what is left out (`meets_clauses_absorb`), and so do all of them together
(`meets_clauses_absorbAll`). Counting the products of the changed query counts these
(`countProducts_applyToQuery`).
-/

namespace Storefront

/-- A product is in none of the listed categories. -/
def Product.IsOutside (p : Product) (categories : List UInt64) : Prop :=
  ∀ k ∈ categories, k ∉ p.categories

namespace Plan

variable {p : Product}

theorem carries_categoryTaxonomy_iff {t : UInt64} :
    p.Carries categoryTaxonomy t ↔ t ∈ p.categories := by
  rw [← Product.mem_termsIn_iff, Product.termsIn, if_pos rfl]

/-- The clause of a rule-set asks for products in none of the categories that it lists. -/
theorem meets_clauses_iff (r : Ruleset) :
    (∀ clause ∈ r.products.clauses, p.Meets clause) ↔ p.IsOutside r.products.inCategories := by
  rw [ProductExclusions.clauses]
  split
  · next hempty =>
    -- No category is listed: there is no clause, and nothing to be outside of either.
    rw [List.isEmpty_iff.1 hempty]
    exact iff_of_true (List.forall_mem_nil _) (List.forall_mem_nil _)
  · rw [List.forall_mem_singleton, Clause.notInCategories]
    constructor
    · rintro (_ | hnone | _) k hk hcategory
      exact hnone k hk (carries_categoryTaxonomy_iff.2 hcategory)
    · exact fun h ↦ .notIn fun k hk hcarries ↦ h k hk (carries_categoryTaxonomy_iff.1 hcarries)

/-- One more rule-set. -/
theorem meets_clauses_absorb (plan : Plan) (c : Catalog) (r : Ruleset) :
    (∀ clause ∈ (plan.absorb c r).clauses, p.Meets clause) ↔
      (∀ clause ∈ plan.clauses, p.Meets clause) ∧ p.IsOutside r.products.inCategories := by
  rw [absorb, List.forall_mem_append, meets_clauses_iff]

/-- Any number of further rule-sets. -/
theorem meets_clauses_absorbAll (plan : Plan) (c : Catalog) (rs : List Ruleset) :
    (∀ clause ∈ (plan.absorbAll c rs).clauses, p.Meets clause) ↔
      (∀ clause ∈ plan.clauses, p.Meets clause) ∧
        ∀ r ∈ rs, p.IsOutside r.products.inCategories := by
  induction rs generalizing plan with
  | nil => exact (and_iff_left (List.forall_mem_nil _)).symm
  | cons r rs ih =>
    have hstep : plan.absorbAll c (r :: rs) = (plan.absorb c r).absorbAll c rs := rfl
    rw [hstep, ih, meets_clauses_absorb, List.forall_mem_cons, and_assoc]

/-- **The clauses of a plan hide the products of the listed categories and no others.** Take
rule-sets absorbed one after the other, with any catalog, and a product query to which the plan is
applied. Counting the products of the changed query counts the ids under which a product is stored
that meets every clause of the query as it was, can be had as the count asks, and is in no category
that one of the rule-sets lists. -/
theorem countProducts_applyToQuery (i : Inventory) (c : Catalog) (rs : List Ruleset)
    (args : ProductQueryArgs) (availability : Availability) :
    i.catalog.countProducts
        ⟨((empty.absorbAll c rs).applyToQuery args).taxQuery, availability⟩ =
      i.countWhere fun p ↦ (∀ clause ∈ args.taxQuery, p.Meets clause) ∧ availability.Admits p ∧
        ∀ r ∈ rs, p.IsOutside r.products.inCategories := by
  show i.countProducts _ = _
  rw [i.countProducts_eq_countWhere]
  refine i.countWhere_congr fun p ↦ ?_
  have hadded : (∀ clause ∈ (empty.absorbAll c rs).clauses, p.Meets clause) ↔
      ∀ r ∈ rs, p.IsOutside r.products.inCategories :=
    (meets_clauses_absorbAll empty c rs).trans (and_iff_right (List.forall_mem_nil _))
  show (∀ clause ∈ args.taxQuery ++ (empty.absorbAll c rs).clauses, p.Meets clause) ∧
    availability.Admits p ↔ _
  rw [List.forall_mem_append, hadded, and_assoc]
  exact and_congr_right fun _ ↦ and_comm

end Plan

end Storefront
