import Storefront.Proofs.Binary64.Exact
import Storefront.Proofs.Report.Matched
/-!
# A plan is the union of what its rule-sets hide

Absorbing rule-sets one after the other loses nothing and adds nothing. `Ruleset.HidesProduct` and
`Ruleset.HidesCategory` say how one rule-set hides an id, each way through the catalog a constructor
of its own, and `Plan.IsUnionOf` says of a plan that it holds the effects of a list of rule-sets and
nothing else. Every absorbed plan is such a union, the plan of every run is the union over the
rule-sets that matched, and whether anything is hidden can be read off the rule-sets.

* `Plan.mem_products_absorb`, `Plan.mem_categories_absorb`: what one rule-set adds.
* `CountRule.mem_ids_iff_relates`: what a count rule hides, by the counts themselves.
* `Plan.isUnionOf_absorbAll`: a whole list of them.
* `Snapshot.isUnionOf_plan`: the plan of a run, and what follows for every plan.
-/

namespace Storefront

/-! ### What one rule-set hides -/

/-- A product is hidden by its id. -/
inductive Ruleset.HidesProduct (c : Catalog) (r : Ruleset) (i : UInt64) : Prop where
  /-- The product is listed. -/
  | listed (h : i ∈ r.products.products)
  /-- A variation of the product is listed. -/
  | ofVariation (v : UInt64) (h : v ∈ r.products.variants) (hparent : c.variationParent v = some i)
  /-- An attribute term that the product carries is listed. -/
  | ofTerm (t : UInt64) (h : t ∈ r.products.attributeTerms) (hterm : i ∈ c.productsWithTerm t)

/-- A category is hidden. -/
inductive Ruleset.HidesCategory (c : Catalog) (r : Ruleset) (i : UInt64) : Prop where
  /-- The category is listed. -/
  | listed (h : i ∈ r.categories.categories)
  /-- A category below it is listed. -/
  | ofSubcategory (k : UInt64) (h : k ∈ r.categories.subcategories)
      (hparent : c.categoryParent k = some i)
  /-- A product in the category is listed. -/
  | ofProduct (p : UInt64) (h : p ∈ r.categories.containingProducts)
      (hcategory : i ∈ c.productCategories p)
  /-- A variation of a product in the category is listed. -/
  | ofVariation (v p : UInt64) (h : v ∈ r.categories.containingVariants)
      (hparent : c.variationParent v = some p) (hcategory : i ∈ c.productCategories p)
  /-- The category holds as many products as the count rule says. -/
  | ofCount (rule : CountRule) (k : CategoryCount) (h : r.categories.productCount = some rule)
      (hk : k ∈ c.categories) (hid : k.id = i)
      (hcount : rule.op.holds (.ofNat k.count) rule.threshold = true)

/-- A rule-set has nothing to hide. -/
structure Ruleset.HidesNothing (c : Catalog) (r : Ruleset) : Prop where
  /-- It lists no category whose products it hides. -/
  clause : r.products.inCategories = []
  /-- It has no price rule. -/
  price : r.products.price = none
  /-- No product is hidden by its id. -/
  products (i : UInt64) : ¬ r.HidesProduct c i
  /-- No category is hidden. -/
  categories (i : UInt64) : ¬ r.HidesCategory c i

theorem Ruleset.mem_productIds {c : Catalog} {r : Ruleset} {i : UInt64} :
    i ∈ r.products.ids c ↔ r.HidesProduct c i := by
  simp only [ProductExclusions.ids, List.mem_append, List.mem_filterMap, List.mem_flatMap]
  constructor
  · rintro ((h | ⟨v, h, hparent⟩) | ⟨t, h, hterm⟩)
    · exact .listed h
    · exact .ofVariation v h hparent
    · exact .ofTerm t h hterm
  · intro h
    cases h with
    | listed h => exact .inl (.inl h)
    | ofVariation v h hparent => exact .inl (.inr ⟨v, h, hparent⟩)
    | ofTerm t h hterm => exact .inr ⟨t, h, hterm⟩

theorem CountRule.mem_ids {c : Catalog} {rule : CountRule} {i : UInt64} :
    i ∈ rule.ids c ↔
      ∃ k ∈ c.categories, rule.op.holds (.ofNat k.count) rule.threshold = true ∧ k.id = i := by
  simp only [CountRule.ids, List.mem_map, List.mem_filter, and_assoc]

/-- Counts are rounded to numbers before they are compared, which changes none up to `2 ^ 53`: the
categories that a count rule hides are those whose count itself stands in the relation to the exact
value of the threshold. -/
theorem CountRule.mem_ids_iff_relates {c : Catalog} {rule : CountRule} {i : UInt64} {a : Extended}
    (ha : rule.threshold.extended? = some a) (hcount : ∀ k ∈ c.categories, k.count ≤ 2 ^ 53) :
    i ∈ rule.ids c ↔ ∃ k ∈ c.categories, rule.op.Relates (.ofRat k.count) a ∧ k.id = i := by
  refine mem_ids.trans (exists_congr fun k ↦ and_congr_right fun hk ↦ and_congr_left fun _ ↦ ?_)
  exact Binary64.holds_iff_relates rule.op (Binary64.extended?_ofNat (hcount k hk)) ha

theorem Ruleset.mem_categoryIds {c : Catalog} {r : Ruleset} {i : UInt64} :
    i ∈ r.categories.ids c ↔ r.HidesCategory c i := by
  simp only [CategoryExclusions.ids, List.mem_append, List.mem_filterMap, List.mem_flatMap]
  constructor
  · rintro ((((h | ⟨k, h, hparent⟩) | ⟨p, h, hcategory⟩) | ⟨p, ⟨v, h, hparent⟩, hcategory⟩) | h)
    · exact .listed h
    · exact .ofSubcategory k h hparent
    · exact .ofProduct p h hcategory
    · exact .ofVariation v p h hparent hcategory
    · cases hrule : r.categories.productCount with
      | none => simp [hrule] at h
      | some rule =>
        rw [hrule] at h
        obtain ⟨k, hk, hcount, hid⟩ := CountRule.mem_ids.1 h
        exact .ofCount rule k hrule hk hid hcount
  · intro h
    cases h with
    | listed h => exact .inl (.inl (.inl (.inl h)))
    | ofSubcategory k h hparent => exact .inl (.inl (.inl (.inr ⟨k, h, hparent⟩)))
    | ofProduct p h hcategory => exact .inl (.inl (.inr ⟨p, h, hcategory⟩))
    | ofVariation v p h hparent hcategory => exact .inl (.inr ⟨p, ⟨v, h, hparent⟩, hcategory⟩)
    | ofCount rule k h hk hid hcount =>
      refine .inr ?_
      rw [h]
      exact CountRule.mem_ids.2 ⟨k, hk, hcount, hid⟩

/-- The taxonomy clause of a rule-set that lists categories whose products it hides. -/
def Ruleset.clause? (r : Ruleset) : Option Clause :=
  if r.products.inCategories = [] then none
  else some (.taxonomy "product_cat" r.products.inCategories .notIn)

/-- The price filter of a rule-set that has a price rule. -/
def Ruleset.priceFilter? (r : Ruleset) : Option PriceFilter :=
  r.products.price.map fun rule ↦ ⟨r.index, rule.op, rule.price⟩

theorem Ruleset.clauses_eq (r : Ruleset) : r.products.clauses = [r].filterMap (·.clause?) := by
  cases h : r.products.inCategories <;>
    simp [ProductExclusions.clauses, Ruleset.clause?, h, Clause.notInCategories, categoryTaxonomy]

theorem Ruleset.priceFilters_eq (r : Ruleset) :
    r.priceFilters = [r].filterMap (·.priceFilter?) := by
  cases h : r.products.price <;> simp [Ruleset.priceFilters, Ruleset.priceFilter?, h]

theorem Ruleset.clause?_eq_none_iff {r : Ruleset} :
    r.clause? = none ↔ r.products.inCategories = [] := by
  simp [Ruleset.clause?]

theorem Ruleset.priceFilter?_eq_none_iff {r : Ruleset} :
    r.priceFilter? = none ↔ r.products.price = none :=
  Option.map_eq_none_iff

/-! ### Absorbing -/

namespace Plan

/-- A plan holds the effects of the given rule-sets and nothing else. -/
structure IsUnionOf (plan : Plan) (c : Catalog) (rs : List Ruleset) : Prop where
  /-- A product is hidden when some rule-set hides it. -/
  products (i : UInt64) : i ∈ plan.products ↔ ∃ r ∈ rs, r.HidesProduct c i
  /-- A category is hidden when some rule-set hides it. -/
  categories (i : UInt64) : i ∈ plan.categories ↔ ∃ r ∈ rs, r.HidesCategory c i
  /-- The rule-sets that list categories have one clause each, in their order. -/
  clauses : plan.clauses = rs.filterMap (·.clause?)
  /-- The rule-sets with a price rule have one filter each, in their order. -/
  priceFilters : plan.priceFilters = rs.filterMap (·.priceFilter?)

variable {plan : Plan} {c : Catalog} {r : Ruleset} {rs qs : List Ruleset} {i : UInt64}

theorem mem_products_absorb :
    i ∈ (plan.absorb c r).products ↔ r.HidesProduct c i ∨ i ∈ plan.products := by
  rw [← Ruleset.mem_productIds]
  exact IdSet.mem_insertMany

theorem mem_categories_absorb :
    i ∈ (plan.absorb c r).categories ↔ r.HidesCategory c i ∨ i ∈ plan.categories := by
  rw [← Ruleset.mem_categoryIds]
  exact IdSet.mem_insertMany

/-- One more rule-set. -/
theorem IsUnionOf.absorb (h : plan.IsUnionOf c rs) : (plan.absorb c r).IsUnionOf c (rs ++ [r]) where
  products i := by
    rw [mem_products_absorb, h.products i, or_comm]
    simp only [List.mem_append, List.mem_singleton, or_and_right, exists_or, exists_eq_left]
  categories i := by
    rw [mem_categories_absorb, h.categories i, or_comm]
    simp only [List.mem_append, List.mem_singleton, or_and_right, exists_or, exists_eq_left]
  clauses := by
    rw [List.filterMap_append, ← h.clauses, ← Ruleset.clauses_eq]
    rfl
  priceFilters := by
    rw [List.filterMap_append, ← h.priceFilters, ← Ruleset.priceFilters_eq]
    rfl

theorem isUnionOf_empty (c : Catalog) : empty.IsUnionOf c [] where
  products i := iff_of_false (IdSet.not_mem_empty i) (by simp)
  categories i := iff_of_false (IdSet.not_mem_empty i) (by simp)
  clauses := rfl
  priceFilters := rfl

theorem IsUnionOf.absorbAll (h : plan.IsUnionOf c rs) (qs : List Ruleset) :
    (plan.absorbAll c qs).IsUnionOf c (rs ++ qs) := by
  induction qs generalizing plan rs with
  | nil => rwa [List.append_nil]
  | cons q qs ih =>
    have hstep : (plan.absorb c q).absorbAll c qs = plan.absorbAll c (q :: qs) := rfl
    rw [← hstep, List.append_cons]
    exact ih h.absorb

theorem isUnionOf_absorbAll (c : Catalog) (rs : List Ruleset) :
    (empty.absorbAll c rs).IsUnionOf c rs :=
  (isUnionOf_empty c).absorbAll rs

/-! ### Reading a union -/

/-- Which ids are hidden depends only on which rule-sets there are, not on their order or on how
often each was absorbed. -/
theorem IsUnionOf.ids_eq {p q : Plan} (hp : p.IsUnionOf c rs) (hq : q.IsUnionOf c qs)
    (h : ∀ r, r ∈ rs ↔ r ∈ qs) : p.products = q.products ∧ p.categories = q.categories := by
  refine ⟨IdSet.ext_mem fun i ↦ ?_, IdSet.ext_mem fun i ↦ ?_⟩
  · rw [hp.products i, hq.products i]
    exact exists_congr fun r ↦ and_congr_left fun _ ↦ h r
  · rw [hp.categories i, hq.categories i]
    exact exists_congr fun r ↦ and_congr_left fun _ ↦ h r

/-- A plan is empty when none of its rule-sets has anything to hide. -/
theorem IsUnionOf.isEmpty_iff (h : plan.IsUnionOf c rs) :
    plan.isEmpty = true ↔ ∀ r ∈ rs, r.HidesNothing c := by
  simp only [isEmpty, Bool.and_eq_true, List.isEmpty_iff, IdSet.isEmpty_iff, h.products,
    h.categories, h.clauses, h.priceFilters, List.filterMap_eq_nil_iff,
    Ruleset.clause?_eq_none_iff, Ruleset.priceFilter?_eq_none_iff, not_exists, not_and]
  constructor
  · rintro ⟨⟨⟨hclause, hproducts⟩, hcategories⟩, hprice⟩ r hr
    exact ⟨hclause r hr, hprice r hr, fun i ↦ hproducts i r hr, fun i ↦ hcategories i r hr⟩
  · intro hnothing
    exact ⟨⟨⟨fun r hr ↦ (hnothing r hr).clause, fun i r hr ↦ (hnothing r hr).products i⟩,
      fun i r hr ↦ (hnothing r hr).categories i⟩, fun r hr ↦ (hnothing r hr).price⟩

/-- A price is hidden when it stands to the integer part of some rule-set's price as that rule-set's
price rule says. -/
theorem IsUnionOf.hidesPrice_iff (h : plan.IsUnionOf c rs) (price : Binary64) :
    plan.hidesPrice price = true ↔
      ∃ r ∈ rs, ∃ rule, r.products.price = some rule ∧
        rule.op.holds price (.ofInt rule.price.truncate.toInt) = true := by
  rw [hidesPrice, h.priceFilters, List.any_eq_true]
  constructor
  · rintro ⟨f, hf, hexcludes⟩
    obtain ⟨r, hr, hfilter⟩ := List.mem_filterMap.1 hf
    obtain ⟨rule, hrule, rfl⟩ := Option.map_eq_some_iff.1 hfilter
    exact ⟨r, hr, rule, hrule, hexcludes⟩
  · rintro ⟨r, hr, rule, hrule, hholds⟩
    exact ⟨⟨r.index, rule.op, rule.price⟩,
      List.mem_filterMap.2 ⟨r, hr, Option.map_eq_some_iff.2 ⟨rule, hrule, rfl⟩⟩, hholds⟩

end Plan

/-! ### The plan of a run -/

/-- The rule-sets found under the indices that a run reports as matched are those whose effects make
up its plan. -/
theorem Snapshot.isUnionOf_reportWith {σ : Type} (s : Snapshot) (c : Catalog)
    (holds : Ruleset → StateM σ Bool) (state : σ) :
    let report := ((s.reportWith c holds).run state).1
    (report.matched.filterMap s.get?).map (·.index) = report.matched ∧
      report.plan.IsUnionOf c (report.matched.filterMap s.get?) := by
  intro report
  have hfound : report.matched.filterMap s.get? =
      ((visit s.tier holds (s.schedule.filterMap s.get?)).run state).1.matched := by
    refine filterMap_get?_of_found fun r hr ↦ ?_
    obtain ⟨i, -, hi⟩ := List.mem_filterMap.1 (mem_of_mem_matched_visit hr)
    rwa [index_of_search hi]
  rw [hfound]
  exact ⟨rfl, Plan.isUnionOf_absorbAll c _⟩

/-- **A plan is the union of what its rule-sets hide.** This holds of every list of rule-sets that
are absorbed one after the other, and of the rule-sets that matched in any run, also when the test
keeps a state. Hence which ids are hidden does not depend on the order of the rule-sets or on how
often each is absorbed, a plan is empty exactly when none of them has anything to hide, and a price
is hidden exactly when the price rule of one of them says so. -/
theorem Plan.effects_absorbAll (c : Catalog) :
    (∀ rs : List Ruleset, (empty.absorbAll c rs).IsUnionOf c rs) ∧
    (∀ (σ : Type) (s : Snapshot) (holds : Ruleset → StateM σ Bool) (state : σ),
      let report := ((s.reportWith c holds).run state).1
      (report.matched.filterMap s.get?).map (·.index) = report.matched ∧
        report.plan.IsUnionOf c (report.matched.filterMap s.get?)) ∧
    (∀ rs qs : List Ruleset, (∀ r, r ∈ rs ↔ r ∈ qs) →
      (empty.absorbAll c rs).products = (empty.absorbAll c qs).products ∧
        (empty.absorbAll c rs).categories = (empty.absorbAll c qs).categories) ∧
    (∀ rs : List Ruleset,
      (empty.absorbAll c rs).isEmpty = true ↔ ∀ r ∈ rs, r.HidesNothing c) ∧
    (∀ (rs : List Ruleset) (price : Binary64), (empty.absorbAll c rs).hidesPrice price = true ↔
      ∃ r ∈ rs, ∃ rule, r.products.price = some rule ∧
        rule.op.holds price (.ofInt rule.price.truncate.toInt) = true) :=
  ⟨isUnionOf_absorbAll c, fun _ s holds state ↦ s.isUnionOf_reportWith c holds state,
    fun rs qs h ↦ (isUnionOf_absorbAll c rs).ids_eq (isUnionOf_absorbAll c qs) h,
    fun rs ↦ (isUnionOf_absorbAll c rs).isEmpty_iff,
    fun rs price ↦ (isUnionOf_absorbAll c rs).hidesPrice_iff price⟩

/-- A shop with one product, which is in a category below another one and has a variation. -/
def smallInventory : Inventory :=
  ((Inventory.empty.addProduct { id := 10, categories := [2], attributeTerms := [7] }).setCategory
    2 (some 1)).setVariation 11 10

/-- Hides the product through its variation, and the categories of few products. -/
def variationRuleset : Ruleset where
  index := 0
  condition := .ofRoles .includes ["editor"]
  products := { variants := [11, 12], inCategories := [2] }
  categories := { productCount := some ⟨.less, .ofNat 2⟩ }

/-- Hides the product through its attribute term, another one by its id, and the category above. -/
def termRuleset : Ruleset where
  index := 1
  condition := .ofRoles .excludes ["editor"]
  products := { products := [77], attributeTerms := [7], price := some ⟨.less, .ofNat 5⟩ }
  categories := { subcategories := [2] }

/-- Absorbing the two rule-sets the other way round, and one of them twice, hides the same ids. -/
theorem Plan.effects_absorbAll_smallInventory :
    let rs := [variationRuleset, termRuleset]
    let qs := [termRuleset, variationRuleset, termRuleset]
    (∀ r, r ∈ rs ↔ r ∈ qs) ∧
      (empty.absorbAll smallInventory.catalog qs).products = IdSet.ofList [10, 77] ∧
      (empty.absorbAll smallInventory.catalog qs).categories = IdSet.ofList [1, 2] := by
  have hsame (r : Ruleset) : r ∈ [variationRuleset, termRuleset] ↔
      r ∈ [termRuleset, variationRuleset, termRuleset] := by
    simp only [List.mem_cons, List.not_mem_nil, or_false]
    grind
  obtain ⟨hproducts, hcategories⟩ :=
    (Plan.effects_absorbAll smallInventory.catalog).2.2.1 _ _ hsame
  refine ⟨hsame, ?_, ?_⟩
  · rw [← hproducts]
    rfl
  · rw [← hcategories]
    decide +kernel

end Storefront
