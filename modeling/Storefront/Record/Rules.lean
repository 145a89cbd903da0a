import Storefront.Record.Basic
import Storefront.Snapshot.Basic
/-!
# Records of rule-sets

The recorded forms of operators, conditions, rule-sets and snapshots. A condition is tagged with its
family. A price rule is taken as it is recorded, with any comparison, and a snapshot with its
rule-sets in any order.
-/

namespace Storefront

open Record

/-! ### Names -/

/-- A comparison is recorded in the spelling of the settings form. -/
instance : Record Comparison where
  write c := .text c.wire
  read? := case? (Comparison.all.map fun c ↦ (c.wire, c))

/-- The recorded name of a membership operator. -/
def Membership.recordName : Membership → String
  | includes => "includes"
  | excludes => "excludes"

instance : Record Membership where
  write op := .text op.recordName
  read? := case? ([Membership.includes, .excludes].map fun op ↦ (op.recordName, op))

/-- A fact is recorded in the spelling of the settings form. -/
instance : Record Fact where
  write f := .text f.wire
  read? := case? (Fact.all.map fun f ↦ (f.wire, f))

/-- Every numeric fact. -/
def NumericFact.all : List NumericFact :=
  [activeProductCount, availableProductCount, orderSubtotal, totalQuantity]

/-- A numeric fact is recorded as the fact it is. -/
instance : Record NumericFact where
  write f := .text (Fact.numeric f).wire
  read? := case? (NumericFact.all.map fun f ↦ ((Fact.numeric f).wire, f))

/-- The recorded name of a cart fact. -/
def CartFact.recordName : CartFact → String
  | products => "products"
  | variations => "variations"
  | categories => "categories"
  | coupons => "coupons"

/-- Every cart fact. -/
def CartFact.all : List CartFact := [products, variations, categories, coupons]

instance : Record CartFact where
  write f := .text f.recordName
  read? := case? (CartFact.all.map fun f ↦ (f.recordName, f))

instance : Record Tier where
  write t := .text t.wire
  read? := case? ([Tier.free, .paid].map fun t ↦ (t.wire, t))

/-! ### Conditions -/

/-- A condition is tagged with its family; operator and value may be missing, in every family. -/
instance : Record Condition where
  write
    | .numeric fact op bound hasValue =>
      .object [("family", .text "numeric"), ("fact", write fact), ("op", write op),
        ("threshold", write bound), ("has_value", write hasValue)]
    | .customerRoles op roles hasValue =>
      .object [("family", .text "customer_roles"), ("op", write op), ("roles", write roles),
        ("has_value", write hasValue)]
    | .cart fact op ids hasValue =>
      .object [("family", .text "cart_ids"), ("fact", write fact), ("op", write op),
        ("ids", write ids), ("has_value", write hasValue)]
    | .unsupported kind hasValue =>
      .object [("family", .text "unsupported"), ("kind", write kind),
        ("has_value", write hasValue)]
  read? d := do
    let (family, d) ← tagged? "family" d
    if family = "numeric" then
      let [fact, op, bound, hasValue] ← fields? ["fact", "op", "threshold", "has_value"] d | none
      pure (.numeric (← field? fact) (← field? op) (← field? bound) (← field? hasValue))
    else if family = "customer_roles" then
      let [op, roles, hasValue] ← fields? ["op", "roles", "has_value"] d | none
      pure (.customerRoles (← field? op) (← field? roles) (← field? hasValue))
    else if family = "cart_ids" then
      let [fact, op, ids, hasValue] ← fields? ["fact", "op", "ids", "has_value"] d | none
      pure (.cart (← field? fact) (← field? op) (← field? ids) (← field? hasValue))
    else if family = "unsupported" then
      let [kind, hasValue] ← fields? ["kind", "has_value"] d | none
      pure (.unsupported (← field? kind) (← field? hasValue))
    else none

/-! ### Rule-sets -/

/-- Any comparison is read, also one that a price rule cannot be made with. -/
instance : Record PriceRule where
  write r := .object [("op", write r.op), ("price", write r.price)]
  read? d := do
    let [op, price] ← fields? ["op", "price"] d | none
    pure ⟨← field? op, ← field? price⟩

instance : Record CountRule where
  write r := .object [("op", write r.op), ("threshold", write r.threshold)]
  read? d := do
    let [op, threshold] ← fields? ["op", "threshold"] d | none
    pure ⟨← field? op, ← field? threshold⟩

/-- Four lists of ids and a price rule that may be missing. -/
instance : Record ProductExclusions where
  write p :=
    .object [("in_categories", write p.inCategories), ("products", write p.products),
      ("variants", write p.variants), ("attribute_terms", write p.attributeTerms),
      ("price", write p.price)]
  read? d := do
    let [inCategories, products, variants, terms, price] ←
      fields? ["in_categories", "products", "variants", "attribute_terms", "price"] d | none
    pure ⟨← field? inCategories, ← field? products, ← field? variants, ← field? terms,
      ← field? price⟩

/-- Four lists of ids and a count rule that may be missing. -/
instance : Record CategoryExclusions where
  write c :=
    .object [("categories", write c.categories), ("subcategories", write c.subcategories),
      ("containing_products", write c.containingProducts),
      ("containing_variants", write c.containingVariants), ("product_count", write c.productCount)]
  read? d := do
    let [categories, subcategories, products, variants, count] ←
      fields? ["categories", "subcategories", "containing_products", "containing_variants",
        "product_count"] d | none
    pure ⟨← field? categories, ← field? subcategories, ← field? products, ← field? variants,
      ← field? count⟩

/-- A rule-set with its index, wherever it stands in a list. -/
instance : Record Ruleset where
  write r :=
    .object [("index", write r.index), ("condition", write r.condition),
      ("priority", write r.priority), ("stop_other_rules", write r.stopsOthers),
      ("products", write r.products), ("categories", write r.categories)]
  read? d := do
    let [index, condition, priority, stops, products, categories] ←
      fields? ["index", "condition", "priority", "stop_other_rules", "products", "categories"] d
      | none
    pure ⟨← field? index, ← field? condition, ← field? priority, ← field? stops,
      ← field? products, ← field? categories⟩

/-- Rule-sets are read in the order in which they are recorded. -/
instance : Record Snapshot where
  write s :=
    .object [("enabled", write s.enabled), ("tier", write s.tier), ("rulesets", write s.rulesets)]
  read? d := do
    let [enabled, tier, rulesets] ← fields? ["enabled", "tier", "rulesets"] d | none
    pure ⟨← field? enabled, ← field? tier, ← field? rulesets⟩

end Storefront
