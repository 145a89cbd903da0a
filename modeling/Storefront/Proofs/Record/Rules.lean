import Storefront.Proofs.Record.Recovery
import Storefront.Record.Rules
/-!
# How rule-sets and snapshots are read

What each record is read as is said once, as the list of its fields (`PriceRule.read?_eq_some_iff`
and its likes). For a condition `Condition.asked` lists the fields of its family, and the tag tells
which family that is (`Condition.read?_eq_some_iff`).

The form of a document does not matter to any such list, so all of the types are `Record.Steady`.
-/

namespace Storefront

open Record

/-! ### Names -/

/-- A name is read alike as a text and as the only member of an object. -/
instance : Steady Comparison := ⟨case?_of_sameForm⟩

instance : Steady Membership := ⟨case?_of_sameForm⟩

instance : Steady NumericFact := ⟨case?_of_sameForm⟩

instance : Steady CartFact := ⟨case?_of_sameForm⟩

instance : Steady Tier := ⟨case?_of_sameForm⟩

/-- Each spelling of a comparison is that of one comparison. -/
instance : Exact Comparison := ⟨fun _ _ _ ↦ rfl, fun c ↦ by cases c <;> rfl⟩

/-- Each recorded name of a membership operator is that of one operator. -/
instance : Exact Membership := ⟨fun _ _ _ ↦ rfl, fun op ↦ by cases op <;> rfl⟩

/-- Each spelling of a numeric fact is that of one fact. -/
instance : Exact NumericFact := ⟨fun _ _ _ ↦ rfl, fun f ↦ by cases f <;> rfl⟩

/-- Each recorded name of a cart fact is that of one fact. -/
instance : Exact CartFact := ⟨fun _ _ _ ↦ rfl, fun f ↦ by cases f <;> rfl⟩

/-- Each spelling of a tier is that of one tier. -/
instance : Exact Tier := ⟨fun _ _ _ ↦ rfl, fun t ↦ by cases t <;> rfl⟩

/-- Names are written as texts. -/
instance : Plain Comparison := ⟨fun _ ↦ ⟨rfl, nofun⟩⟩

instance : Plain Membership := ⟨fun _ ↦ ⟨rfl, nofun⟩⟩

instance : Plain NumericFact := ⟨fun _ ↦ ⟨rfl, nofun⟩⟩

instance : Plain CartFact := ⟨fun _ ↦ ⟨rfl, nofun⟩⟩

instance : Plain Tier := ⟨fun _ ↦ ⟨rfl, nofun⟩⟩

/-- A missing comparison is written as `null`, and none that is there is. -/
instance : Exact (Option Comparison) := .option fun _ ↦ nofun

/-- A missing membership operator is written as `null`, and none that is there is. -/
instance : Exact (Option Membership) := .option fun _ ↦ nofun

/-- A missing priority is written as `null`, and none that is there is. -/
instance : Exact (Option Int64) := .option fun _ ↦ nofun

/-! ### Conditions -/

namespace Condition

/-- The name of the family that a condition is tagged with. -/
def family : Condition → String
  | numeric .. => "numeric"
  | customerRoles .. => "customer_roles"
  | cart .. => "cart_ids"
  | unsupported .. => "unsupported"

/-- The fields of a condition beside the tag. -/
def asked : Condition → List Asked
  | numeric fact op bound hasValue =>
    [asks "fact" fact, asks "op" op, asks "threshold" bound, asks "has_value" hasValue]
  | customerRoles op roles hasValue =>
    [asks "op" op, asks "roles" roles, asks "has_value" hasValue]
  | cart fact op ids hasValue =>
    [asks "fact" fact, asks "op" op, asks "ids" ids, asks "has_value" hasValue]
  | unsupported kind hasValue => [asks "kind" kind, asks "has_value" hasValue]

variable {c : Condition} {d rest : Document}

/-- A condition that is read has the fields of the family that it is tagged with. -/
theorem exists_hasFields_of_read? (h : read? d = some c) :
    ∃ rest, tagged? "family" d = some (c.family, rest) ∧ HasFields rest c.asked := by
  obtain ⟨⟨family, rest⟩, htag, h⟩ := Option.bind_eq_some_iff.1 h
  refine ⟨rest, ?_⟩
  dsimp only at h
  -- Each of the four names leads to one constructor.
  split_ifs at h with hfamily hfamily hfamily hfamily
  all_goals
    subst hfamily
    obtain ⟨fs, hfs, h⟩ := Option.bind_eq_some_iff.1 h
    split at h
    case h_2 => cases h
    simp only [Option.bind_eq_bind, Option.bind_eq_some_iff, Option.pure_def,
      Option.some.injEq] at h
  · obtain ⟨fact, hfact, op, hop, bound, hbound, value, hvalue, rfl⟩ := h
    exact ⟨htag, _, hfs, .cons hfact (.cons hop (.cons hbound (.cons hvalue .nil)))⟩
  · obtain ⟨op, hop, roles, hroles, value, hvalue, rfl⟩ := h
    exact ⟨htag, _, hfs, .cons hop (.cons hroles (.cons hvalue .nil))⟩
  · obtain ⟨fact, hfact, op, hop, ids, hids, value, hvalue, rfl⟩ := h
    exact ⟨htag, _, hfs, .cons hfact (.cons hop (.cons hids (.cons hvalue .nil)))⟩
  · obtain ⟨kind, hkind, value, hvalue, rfl⟩ := h
    exact ⟨htag, _, hfs, .cons hkind (.cons hvalue .nil)⟩

/-- The fields of the family that a document is tagged with are read as the condition. -/
theorem read?_of_hasFields (htag : tagged? "family" d = some (c.family, rest))
    (hfields : HasFields rest c.asked) : read? d = some c := by
  refine Option.bind_eq_some_iff.2 ⟨_, htag, ?_⟩
  cases c with
  | numeric =>
    refine (bind_fields?_eq_some_iff rfl fun | [fact, op, bound, hasValue], _ => ?_).2 hfields
    simp [asked, asks, Option.bind_eq_some_iff, -Bool.exists_bool]
  | customerRoles =>
    refine (bind_fields?_eq_some_iff rfl fun | [op, roles, hasValue], _ => ?_).2 hfields
    simp [asked, asks, Option.bind_eq_some_iff, -Bool.exists_bool]
  | cart =>
    refine (bind_fields?_eq_some_iff rfl fun | [fact, op, ids, hasValue], _ => ?_).2 hfields
    simp [asked, asks, Option.bind_eq_some_iff, -Bool.exists_bool]
  | unsupported =>
    refine (bind_fields?_eq_some_iff rfl fun | [kind, hasValue], _ => ?_).2 hfields
    simp [asked, asks, Option.bind_eq_some_iff]

/-- What is read as a condition: a tag that names its family, and behind it the fields of this
family. -/
theorem read?_eq_some_iff :
    read? d = some c ↔
      ∃ rest, tagged? "family" d = some (c.family, rest) ∧ HasFields rest c.asked :=
  ⟨exists_hasFields_of_read?, fun ⟨_, htag, hfields⟩ ↦ read?_of_hasFields htag hfields⟩

/-- The tag is found and the fields behind it are, whatever the order of the members. -/
instance : Steady Condition where
  read?_of_sameForm h hd := by
    obtain ⟨rest, htag, hfields⟩ := exists_hasFields_of_read? hd
    obtain ⟨rest', htag', hrest⟩ := tagged?_of_sameForm h htag
    exact read?_of_hasFields htag' (hfields.of_sameForm hrest)

/-- What is written for a condition, behind the tag. -/
def members : Condition → List (String × Document)
  | numeric fact op bound hasValue =>
    [("fact", write fact), ("op", write op), ("threshold", write bound),
      ("has_value", write hasValue)]
  | customerRoles op roles hasValue =>
    [("op", write op), ("roles", write roles), ("has_value", write hasValue)]
  | cart fact op ids hasValue =>
    [("fact", write fact), ("op", write op), ("ids", write ids), ("has_value", write hasValue)]
  | unsupported kind hasValue => [("kind", write kind), ("has_value", write hasValue)]

/-- A condition is written with its tag in front. -/
theorem write_eq (c : Condition) :
    write c = .object (("family", .text c.family) :: c.members) := by
  cases c <;> rfl

/-- No field of a condition is written as an object, so a tagged record keeps them all. -/
theorem isPlain_of_mem_members (c : Condition) : ∀ m ∈ c.members, IsPlain m.2 := by
  cases c <;> simp [members, Plain.isPlain_write]

/-- The tag of what is written names the family, and behind it the fields are left. -/
theorem tagged?_write (c : Condition) :
    tagged? "family" (write c) = some (c.family, .object c.members) := by
  rw [write_eq]
  refine tagged?_object ?_ c.isPlain_of_mem_members
  cases c <;> simp [members]

end Condition

/-! ### Exclusions -/

namespace PriceRule

/-- What is read as a price rule. -/
theorem read?_eq_some_iff {d : Document} {r : PriceRule} :
    read? d = some r ↔ HasFields d [asks "op" r.op, asks "price" r.price] := by
  cases r
  refine bind_fields?_eq_some_iff rfl fun | [op, price], _ => ?_
  simp [asks, Option.bind_eq_some_iff]

instance : Steady PriceRule := .of_hasFields read?_eq_some_iff

end PriceRule

namespace CountRule

/-- What is read as a count rule. -/
theorem read?_eq_some_iff {d : Document} {r : CountRule} :
    read? d = some r ↔ HasFields d [asks "op" r.op, asks "threshold" r.threshold] := by
  cases r
  refine bind_fields?_eq_some_iff rfl fun | [op, threshold], _ => ?_
  simp [asks, Option.bind_eq_some_iff]

instance : Steady CountRule := .of_hasFields read?_eq_some_iff

end CountRule

namespace ProductExclusions

/-- What is read as the products to hide. -/
theorem read?_eq_some_iff {d : Document} {p : ProductExclusions} :
    read? d = some p ↔
      HasFields d [asks "in_categories" p.inCategories, asks "products" p.products,
        asks "variants" p.variants, asks "attribute_terms" p.attributeTerms,
        asks "price" p.price] := by
  cases p
  refine bind_fields?_eq_some_iff rfl fun
    | [inCategories, products, variants, terms, price], _ => ?_
  simp [asks, Option.bind_eq_some_iff]

instance : Steady ProductExclusions := .of_hasFields read?_eq_some_iff

end ProductExclusions

namespace CategoryExclusions

/-- What is read as the categories to hide. -/
theorem read?_eq_some_iff {d : Document} {c : CategoryExclusions} :
    read? d = some c ↔
      HasFields d [asks "categories" c.categories, asks "subcategories" c.subcategories,
        asks "containing_products" c.containingProducts,
        asks "containing_variants" c.containingVariants,
        asks "product_count" c.productCount] := by
  cases c
  refine bind_fields?_eq_some_iff rfl fun
    | [categories, subcategories, products, variants, count], _ => ?_
  simp [asks, Option.bind_eq_some_iff]

instance : Steady CategoryExclusions := .of_hasFields read?_eq_some_iff

end CategoryExclusions

/-! ### Rule-sets and snapshots -/

namespace Ruleset

/-- What is read as a rule-set. -/
theorem read?_eq_some_iff {d : Document} {r : Ruleset} :
    read? d = some r ↔
      HasFields d [asks "index" r.index, asks "condition" r.condition,
        asks "priority" r.priority, asks "stop_other_rules" r.stopsOthers,
        asks "products" r.products, asks "categories" r.categories] := by
  cases r
  refine bind_fields?_eq_some_iff rfl fun
    | [index, condition, priority, stops, products, categories], _ => ?_
  simp [asks, Option.bind_eq_some_iff, -Bool.exists_bool]

instance : Steady Ruleset := .of_hasFields read?_eq_some_iff

end Ruleset

namespace Snapshot

/-- What is read as a snapshot. -/
theorem read?_eq_some_iff {d : Document} {s : Snapshot} :
    read? d = some s ↔
      HasFields d [asks "enabled" s.enabled, asks "tier" s.tier, asks "rulesets" s.rulesets] := by
  cases s
  refine bind_fields?_eq_some_iff rfl fun | [enabled, tier, rulesets], _ => ?_
  simp [asks, Option.bind_eq_some_iff, -Bool.exists_bool]

instance : Steady Snapshot := .of_hasFields read?_eq_some_iff

end Snapshot

end Storefront
