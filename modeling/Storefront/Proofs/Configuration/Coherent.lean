import Storefront.Proofs.Configuration.Resaving
import Storefront.Proofs.Snapshot.Constructed
/-!
# Loaded snapshots are coherent

An option store may hold anything under the names of the rule-set fields, and every cell is read on
its own. What comes out is nevertheless coherent: rule-sets are listed strictly by index, numbers
are finite, roles are tidy texts, price rules have comparisons for prices, an unknown kind is none of
the known ones, and a condition from whose value something could be read says that it has a value
(`coherent_load`).

The last point ties two readings of one cell together: whether it is blank, and what can be read in
it. The run relies on it. It passes blank conditions over without a test, and that loses nothing,
because a coherent condition that is blank never holds (`Condition.Coherent.evaluate_eq_false`).
-/

namespace Storefront

open Text

/-! ### Coherence -/

/-- A condition whose parts fit each other, as loading gives it. -/
def Condition.Coherent : Condition → Prop
  | numeric _ _ bound hasValue =>
    (∀ x ∈ bound, x.isFinite = true) ∧ (bound.isSome = true → hasValue = true)
  | customerRoles _ roles hasValue => (∀ role ∈ roles, IsTidy role) ∧ (roles ≠ [] → hasValue = true)
  | cart _ _ ids hasValue => ids ≠ [] → hasValue = true
  | unsupported kind _ => trimmed kind = kind ∧ ∀ f : Fact, f.wire ≠ kind

/-- A rule-set whose parts fit each other, as loading gives it. -/
structure Ruleset.Coherent (r : Ruleset) : Prop where
  /-- The parts of the condition fit each other. -/
  condition : r.condition.Coherent
  /-- A price rule has one of the comparisons for prices and a finite bound. -/
  price : ∀ rule ∈ r.products.price, rule.op.isForPrices = true ∧ rule.price.isFinite = true
  /-- A count rule has a finite bound. -/
  productCount : ∀ rule ∈ r.categories.productCount, rule.threshold.isFinite = true

/-- A snapshot as loading gives it. -/
structure Snapshot.Coherent (s : Snapshot) : Prop where
  /-- The rule-sets are listed strictly by index. -/
  ascending : Ascending s.rulesets
  /-- The parts of every rule-set fit each other. -/
  ruleset : ∀ r ∈ s.rulesets, r.Coherent

namespace Condition

variable {c : Condition}

theorem Coherent.hasValue (h : c.Coherent) (hread : c.hasReadValue = true) : c.hasValue = true := by
  match c with
  | numeric fact op bound hasValue => exact h.2 hread
  | customerRoles op roles hasValue =>
    refine h.2 fun hnil ↦ ?_
    rw [hasReadValue, hnil] at hread
    cases hread
  | cart fact op ids hasValue =>
    refine h fun hnil ↦ ?_
    rw [hasReadValue, hnil] at hread
    cases hread
  | unsupported kind hasValue => cases hread

/-- A condition of whose value nothing was read does not hold. -/
theorem evaluate_eq_false_of_not_hasReadValue (h : c.hasReadValue = false) (r : Request)
    (catalog : Catalog) : c.evaluate r catalog = false := by
  match c with
  | numeric fact op bound hasValue =>
    have hnone : bound = none := by simpa [hasReadValue] using h
    rw [hnone]
    cases op <;> rfl
  | customerRoles op roles hasValue =>
    have hnil : roles = [] := by simpa [hasReadValue] using h
    rw [hnil]
    cases op <;> rfl
  | cart fact op ids hasValue =>
    have hnil : ids = [] := by simpa [hasReadValue] using h
    rw [hnil]
    cases op <;> rfl
  | unsupported kind hasValue => rfl

/-- A blank condition does not hold, so that passing it over loses nothing. -/
theorem Coherent.evaluate_eq_false (h : c.Coherent) (hblank : c.isBlank = true) (r : Request)
    (catalog : Catalog) : c.evaluate r catalog = false := by
  refine evaluate_eq_false_of_not_hasReadValue ?_ r catalog
  by_contra hread
  rw [isBlank, h.hasValue (Bool.not_eq_false _ ▸ hread)] at hblank
  cases hblank

/-- Coherence is what writing and reading again needs and what loading adds to it. -/
theorem coherent_of_rewritten (hwf : c.rewritten.WellFormed)
    (hread : c.hasReadValue = true → c.hasValue = true) : c.Coherent := by
  match c with
  | numeric fact op bound hasValue => exact ⟨hwf.2, hread⟩
  | customerRoles op roles hasValue =>
    exact ⟨hwf.2, fun hne ↦ hread (by simpa [hasReadValue] using hne)⟩
  | cart fact op ids hasValue => exact fun hne ↦ hread (by simpa [hasReadValue] using hne)
  | unsupported kind hasValue => exact hwf.2

end Condition

/-! ### Loading -/

/-- Whatever a sheet holds, the rule-set of an index is coherent. -/
theorem Sheet.coherent_ruleset (s : Sheet) (i : UInt64) : (s.ruleset i).Coherent where
  condition :=
    Condition.coherent_of_rewritten (wellFormed_rewritten_condition s i) hasValue_of_hasReadValue
  price _ hrule := of_priceRule? hrule
  productCount _ hrule := of_countRule? hrule

namespace Configuration

variable {σ : Type}

/-- **Loaded snapshots are coherent**, whatever the store holds; in particular a loaded condition
that is blank holds for no request and no catalog. -/
theorem coherent_load (c : Configuration σ) (s : σ) :
    (c.load s).Coherent ∧
      ∀ rule ∈ (c.load s).rulesets, rule.condition.isBlank = true →
        ∀ (r : Request) (catalog : Catalog), rule.condition.evaluate r catalog = false := by
  have hruleset : ∀ rule ∈ (c.load s).rulesets, rule.Coherent := by
    intro rule hrule
    obtain ⟨i, -, rfl⟩ := List.mem_map.1 hrule
    exact (c.sheet s).coherent_ruleset i
  refine ⟨⟨(c.sheet s).ascending_rulesets, hruleset⟩, fun rule hrule hblank r catalog ↦ ?_⟩
  exact (hruleset rule hrule).condition.evaluate_eq_false hblank r catalog

/-- Three rule-sets in values that no form submits: the value of the first is blank while its stop
toggle is set, the second has a price that is too large and nested values among its roles, and the
third compares an unknown fact with an infinite number. -/
def oddTable : OptionTable :=
  OrderedMap.ofList
    [("conditions", .array [(.position 0, .text "order_subtotal"), (.name "+2", .text " moon phase "),
        (.name "01", .text "customer_roles"), (.position (-1), .text "total_quantity")]),
      ("operator", .list [.text "equal", .bool true]),
      ("condition_subfield", .list [.text " \t",
        .array [(.name "x", .text " editor "), (.position 9, .array []), (.name "", .null)],
        .float (.infinite true)]),
      ("rule_toggle", .list [.text "yes"]),
      ("show_product_price_type", .array [(.position 1, .text "less_than")]),
      ("show_product_price", .array [(.position 1, .text "1e999")])]

theorem coherent_load_oddTable :
    let s := (onTable { optionPrefix := "" }).load oddTable
    s.rulesets.map (·.condition) =
        [.numeric .orderSubtotal (some .equal) none false, .customerRoles none ["editor"] true,
          .unsupported "moon phase" true] ∧
      s.Coherent ∧
      ∃ rule ∈ s.rulesets, rule.condition.isBlank = true ∧
        ∀ (r : Request) (catalog : Catalog), rule.condition.evaluate r catalog = false := by
  intro s
  obtain ⟨hcoherent, hfails⟩ := coherent_load (onTable { optionPrefix := "" }) oddTable
  have hblank : ∃ rule ∈ s.rulesets, rule.condition.isBlank = true := by decide +kernel
  obtain ⟨rule, hrule, hisBlank⟩ := hblank
  exact ⟨by decide +kernel, hcoherent, rule, hrule, hisBlank, hfails rule hrule hisBlank⟩

end Configuration

end Storefront
