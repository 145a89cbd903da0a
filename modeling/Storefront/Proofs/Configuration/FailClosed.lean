import Storefront.Proofs.Configuration.Cells
import Storefront.Proofs.Configuration.RoundTrip
import Storefront.Proofs.Report.Matched
/-!
# Configurations fail closed

Whatever an option store holds, a rule-set matches only if its configuration can be read in full:
the main switch is on, the kind is known, the operator and the value fit the kind, and the license
is active or the rule-set is the first one and tests the active product count
(`exists_vetted_of_mem_matched`).

`Vetted` says this of the stored values themselves, before any of them is trimmed or parsed. An
index is looked up in each column on its own, so the entries that count are the first ones for the
index, and a column may spell the index as it likes.
-/

namespace Storefront

open Text

/-! ### What can be read for a fact -/

/-- The spellings of the operators that fit a fact. Roles and cart contents share theirs. -/
def Fact.operatorSpellings : Fact → List String
  | numeric _ =>
    ["less_than", "greater_than", "less_than_equal", "greater_than_equal", "equal", "not_equal_to"]
  | customerRoles | cart _ => ["is", "is_not", "contains", "not_contain"]

/-- Whether a stored value can be compared with a fact: with a number, a scalar that trims to the
numeral of a finite one; with roles, a text that is not blank, alone or in an array; with ids, the
numeral of one, alone or in an array. -/
def StoredValue.IsReadableFor (v : StoredValue) : Fact → Prop
  | .numeric _ =>
    ∃ u x, v.text? = some u ∧ Binary64.parse? (trimmed u) = some x ∧ x.isFinite = true
  | .customerRoles => ∃ w ∈ v.parts, ∃ u, w.text? = some u ∧ trimmed u ≠ ""
  | .cart _ => ∃ w ∈ v.parts, ∃ u n, w.text? = some u ∧ readUInt64? (trimmed u) = some n

theorem Comparison.wire_of_ofWire? {s : String} {op : Comparison} (h : ofWire? s = some op) :
    op.wire = s := eq_of_beq (List.find?_some h :)

theorem Comparison.wire_mem_operatorSpellings (op : Comparison) (fact : NumericFact) :
    op.wire ∈ (Fact.numeric fact).operatorSpellings := by
  rw [Fact.operatorSpellings]
  cases op <;> decide

theorem Membership.mem_spellings_of_ofWire? {s : String} {op : Membership}
    (h : ofWire? s = some op) : s ∈ ["is", "is_not", "contains", "not_contain"] := by
  rw [ofWire?] at h
  split at h
  · next hs => rcases hs with rfl | rfl <;> decide
  · split at h
    · next hs => rcases hs with rfl | rfl <;> decide
    · cases h

/-- A threshold is read off the trimmed text. -/
theorem Amount.parse?_of_threshold? {s : String} {x : Binary64} (h : threshold? s = some x) :
    Binary64.parse? (trimmed s) = some x ∧ x.isFinite = true := by
  rw [threshold?, Option.filter_eq_some_iff] at h
  exact ⟨by rw [Binary64.parse?, trimmed, String.toList_ofList, h.1], h.2⟩

/-! ### Conditions that hold -/

/-- In an ascending list, the first index is the lowest. -/
theorem Snapshot.index_le_of_head? {rs : List Ruleset} (h : Ascending rs) {i : UInt64}
    (hi : rs.head?.map (·.index) = some i) {r : Ruleset} (hr : r ∈ rs) : i ≤ r.index := by
  cases rs with
  | nil => cases hr
  | cons s rs =>
    obtain rfl : s.index = i := Option.some.inj hi
    rcases List.mem_cons.1 hr with rfl | hr
    · exact UInt64.le_refl _
    · exact UInt64.le_of_lt ((List.pairwise_cons.1 h).1 r hr)

namespace Condition

variable {r : Request} {c : Catalog} {hasValue : Bool}

theorem exists_of_evaluate_numeric {fact : NumericFact} {op : Option Comparison}
    {bound : Option Binary64} (h : (numeric fact op bound hasValue).evaluate r c = true) :
    (∃ o, op = some o) ∧ ∃ x, bound = some x := by
  cases op with
  | none => cases h
  | some o =>
    cases bound with
    | none => cases h
    | some x => exact ⟨⟨o, rfl⟩, ⟨x, rfl⟩⟩

theorem exists_of_evaluate_roles {op : Option Membership} {roles : List String}
    (h : (customerRoles op roles hasValue).evaluate r c = true) :
    (∃ o, op = some o) ∧ ∃ role, role ∈ roles := by
  cases op with
  | none => cases h
  | some o =>
    cases roles with
    | nil => cases h
    | cons role roles => exact ⟨⟨o, rfl⟩, ⟨role, List.mem_cons_self⟩⟩

theorem exists_of_evaluate_cart {fact : CartFact} {op : Option Membership} {ids : List UInt64}
    (h : (cart fact op ids hasValue).evaluate r c = true) :
    (∃ o, op = some o) ∧ ∃ id, id ∈ ids := by
  cases op with
  | none => cases h
  | some o =>
    cases ids with
    | nil => cases h
    | cons id ids => exact ⟨⟨o, rfl⟩, ⟨id, List.mem_cons_self⟩⟩

end Condition

/-! ### Rows whose condition holds -/

namespace Sheet

variable {s : Sheet} {i : UInt64}

/-- What the columns of a sheet hold for an index whose condition was read in full, as it is
stored. -/
structure Complete (s : Sheet) (i : UInt64) (fact : Fact) : Prop where
  /-- The kind is that of the fact, up to blanks around it. -/
  kind : ∃ v u, s.stored? .conditions i = some v ∧ v.text? = some u ∧ trimmed u = fact.wire
  /-- The operator fits the fact, up to blanks around it. -/
  operator : ∃ v u, s.stored? .operator i = some v ∧ v.text? = some u ∧
    trimmed u ∈ fact.operatorSpellings
  /-- The value is not blank and can be compared with the fact. -/
  value : ∃ v, s.stored? .conditionSubfield i = some v ∧ v.isBlank = false ∧
    v.IsReadableFor fact

theorem exists_of_comparison? {f : RulesetField} {op : Comparison}
    (h : s.comparison? f i = some op) :
    ∃ v u, s.stored? f i = some v ∧ v.text? = some u ∧ trimmed u = op.wire := by
  obtain ⟨t, ht, hop⟩ := Option.bind_eq_some_iff.1 h
  obtain ⟨v, u, hv, hu, rfl, -⟩ := exists_of_text? ht
  exact ⟨v, u, (cell?_eq_some_iff.1 hv).1, hu, (Comparison.wire_of_ofWire? hop).symm⟩

theorem exists_of_membership? {f : RulesetField} {op : Membership}
    (h : s.membership? f i = some op) :
    ∃ v u, s.stored? f i = some v ∧ v.text? = some u ∧
      trimmed u ∈ ["is", "is_not", "contains", "not_contain"] := by
  obtain ⟨t, ht, hop⟩ := Option.bind_eq_some_iff.1 h
  obtain ⟨v, u, hv, hu, rfl, -⟩ := exists_of_text? ht
  exact ⟨v, u, (cell?_eq_some_iff.1 hv).1, hu, Membership.mem_spellings_of_ofWire? hop⟩

theorem isReadableFor_of_number? {f : RulesetField} {x : Binary64} (fact : NumericFact)
    (h : s.number? f i = some x) :
    ∃ v, s.stored? f i = some v ∧ v.isBlank = false ∧ v.IsReadableFor (.numeric fact) := by
  obtain ⟨t, ht, hx⟩ := Option.bind_eq_some_iff.1 h
  obtain ⟨v, u, hv, hu, rfl, -⟩ := exists_of_text? ht
  obtain ⟨hstored, hblank⟩ := cell?_eq_some_iff.1 hv
  obtain ⟨hparse, hfinite⟩ := Amount.parse?_of_threshold? hx
  rw [trimmed_trimmed] at hparse
  exact ⟨v, hstored, hblank, u, x, hu, hparse, hfinite⟩

theorem isReadableFor_of_mem_texts {f : RulesetField} {role : String}
    (h : role ∈ ((s.cell? f i).map (·.toTexts)).getD []) :
    ∃ v, s.stored? f i = some v ∧ v.isBlank = false ∧ v.IsReadableFor .customerRoles := by
  obtain ⟨v, hstored, hblank, hrole⟩ := exists_of_mem_getD_cell? h
  obtain ⟨w, hw, u, hu, rfl, hne⟩ := StoredValue.exists_of_mem_toTexts hrole
  exact ⟨v, hstored, hblank, w, hw, u, hu, hne⟩

theorem isReadableFor_of_mem_ids {f : RulesetField} {id : UInt64} (fact : CartFact)
    (h : id ∈ s.ids f i) :
    ∃ v, s.stored? f i = some v ∧ v.isBlank = false ∧ v.IsReadableFor (.cart fact) := by
  obtain ⟨v, hstored, hblank, hid⟩ := exists_of_mem_getD_cell? h
  obtain ⟨t, ht, hread⟩ := List.mem_filterMap.1 hid
  obtain ⟨w, hw, u, hu, rfl, -⟩ := StoredValue.exists_of_mem_toTexts ht
  exact ⟨v, hstored, hblank, w, hw, u, id, hu, hread⟩

/-- A test that holds had its operator and its value. -/
theorem complete_of_evaluate_test {fact : Fact} {r : Request} {c : Catalog}
    (hkind : s.text? .conditions i = some fact.wire) (h : (s.test i fact).evaluate r c = true) :
    s.Complete i fact := by
  obtain ⟨v, u, hv, hu, htrim, -⟩ := exists_of_text? hkind
  have hstored : ∃ v u, s.stored? .conditions i = some v ∧ v.text? = some u ∧
      trimmed u = fact.wire := ⟨v, u, (cell?_eq_some_iff.1 hv).1, hu, htrim⟩
  cases fact with
  | numeric fact =>
    obtain ⟨⟨op, hop⟩, x, hx⟩ := Condition.exists_of_evaluate_numeric h
    obtain ⟨v, u, hv, hu, htrim⟩ := exists_of_comparison? hop
    exact ⟨hstored, ⟨v, u, hv, hu, htrim ▸ op.wire_mem_operatorSpellings fact⟩,
      isReadableFor_of_number? fact hx⟩
  | customerRoles =>
    obtain ⟨⟨op, hop⟩, role, hrole⟩ := Condition.exists_of_evaluate_roles h
    exact ⟨hstored, exists_of_membership? hop, isReadableFor_of_mem_texts hrole⟩
  | cart fact =>
    obtain ⟨⟨op, hop⟩, id, hid⟩ := Condition.exists_of_evaluate_cart h
    exact ⟨hstored, exists_of_membership? hop, isReadableFor_of_mem_ids fact hid⟩

/-- A condition that holds was read in full. -/
theorem exists_complete_of_evaluate {r : Request} {c : Catalog}
    (h : (s.condition i).evaluate r c = true) :
    ∃ fact, s.Complete i fact ∧ (s.condition i).fact? = some fact := by
  rcases condition_eq_test_or_unsupported s i with
    ⟨fact, hkind, htest⟩ | ⟨kind, hasValue, heq, -⟩
  · rw [htest] at h ⊢
    exact ⟨fact, complete_of_evaluate_test hkind h, fact?_test s i fact⟩
  · rw [heq] at h
    cases h

end Sheet

/-! ### States in which a rule-set matches -/

namespace Configuration

variable {σ : Type} {c : Configuration σ} {s : σ} {i : UInt64}

/-- Whether a state holds an active license: a key that is not blank, and a response of the license
server in which `activated` is the truth value `true`. -/
def IsLicensed (c : Configuration σ) (s : σ) : Prop :=
  (∃ key, c.field? .licenseKey s = some key ∧ key.isBlank = false) ∧
    ∃ response, c.field? .licenseResponse s = some response ∧
      response.field? "activated" = some (.bool true)

/-- What a state holds about the rule-set of an index, as it is stored. -/
structure Vetted (c : Configuration σ) (s : σ) (i : UInt64) (fact : Fact) : Prop where
  /-- The main switch reads exactly `yes`. -/
  switched : ∃ v, c.field? .rulesetToggle s = some v ∧ v.text? = some "yes"
  /-- The condition was read in full. -/
  row : (c.sheet s).Complete i fact
  /-- Without a license, this is the loaded rule-set of the lowest index, and it tests the active
  product count. -/
  licensed : c.IsLicensed s ∨
    ((∃ r ∈ (c.load s).rulesets, r.index = i) ∧ ∀ r ∈ (c.load s).rulesets, i ≤ r.index) ∧
      fact = .numeric .activeProductCount

theorem exists_of_isEnabled (h : c.isEnabled s = true) :
    ∃ v, c.field? .rulesetToggle s = some v ∧ v.text? = some "yes" :=
  Option.bind_eq_some_iff.1 (eq_of_beq h)

theorem field?_of_saysActivated {response : StoredValue} (h : saysActivated response = true) :
    response.field? "activated" = some (.bool true) := by
  rw [saysActivated] at h
  split at h
  · next heq => exact heq
  · cases h

theorem isLicensed_of_tier (h : c.tier s = .paid) : c.IsLicensed s := by
  simp only [tier] at h
  split at h
  · next hboth =>
    obtain ⟨hlicensed, hactivated⟩ := Bool.and_eq_true_iff.1 hboth
    obtain ⟨key, hkey, hblank⟩ := (Option.any_eq_true _ _).1 hlicensed
    obtain ⟨response, hresponse, hsays⟩ := (Option.any_eq_true _ _).1 hactivated
    rw [Bool.not_eq_true'] at hblank
    exact ⟨⟨key, hkey, hblank⟩, response, hresponse, field?_of_saysActivated hsays⟩
  · cases h

/-- **Configurations fail closed.** In any state of any store, for any request and catalog, an index
that matches belongs to a rule-set of which everything that decides was read. -/
theorem exists_vetted_of_mem_matched (c : Configuration σ) (s : σ) (r : Request)
    (catalog : Catalog) {i : UInt64} (h : i ∈ ((c.load s).report r catalog).matched) :
    ∃ fact, c.Vetted s i fact := by
  obtain ⟨rule, hrule, rfl, hholds, hon, hfree⟩ := Snapshot.exists_of_mem_matched h
  have hlowest (hhead : (c.load s).rulesets.head?.map (·.index) = some rule.index) :
      ∀ t ∈ (c.load s).rulesets, rule.index ≤ t.index := fun t ht ↦
    Snapshot.index_le_of_head? (c.sheet s).ascending_rulesets hhead ht
  have hloaded : ∃ t ∈ (c.load s).rulesets, t.index = rule.index := ⟨rule, hrule, rfl⟩
  -- A loaded rule-set is the row of its index.
  obtain ⟨j, -, heq⟩ := List.mem_map.1 hrule
  have hindex : rule.index = j := by rw [← heq, Sheet.ruleset]
  have hcondition : rule.condition = (c.sheet s).condition j := by rw [← heq, Sheet.ruleset]
  rw [hcondition] at hholds hfree
  rw [hindex] at hlowest hloaded hfree ⊢
  obtain ⟨fact, hcomplete, hfact⟩ := Sheet.exists_complete_of_evaluate hholds
  refine ⟨fact, exists_of_isEnabled hon, hcomplete, ?_⟩
  cases htier : c.tier s with
  | paid => exact .inl (isLicensed_of_tier htier)
  | free =>
    obtain ⟨hhead, hcount⟩ := hfree htier
    exact .inr ⟨⟨hloaded, hlowest hhead⟩, Option.some.inj (hfact.symm.trans hcount)⟩

/-- A licensed table with a rule-set for everybody who is not an editor. Its kind and operator have
blanks around them, and the index is spelt as a text. -/
def rolesTable : OptionTable :=
  OrderedMap.ofList
    [("api_license_key", .int 7),
      ("api_get_response", .array [(.name "activated", .bool true)]),
      ("ruleset_toggle", .text "yes"),
      ("conditions", .array [(.name "03", .text " customer_roles"), (.position 3, .null)]),
      ("operator", .array [(.position 3, .text "is_not ")]),
      ("condition_subfield", .array [(.position 3, .text "editor")])]

theorem exists_vetted_rolesTable :
    3 ∈ (((onTable { optionPrefix := "" }).load rolesTable).report {}
        (∅ : Inventory).catalog).matched ∧
      ∃ fact, (onTable { optionPrefix := "" }).Vetted rolesTable 3 fact := by
  have hmatched : 3 ∈ (((onTable { optionPrefix := "" }).load rolesTable).report {}
      (∅ : Inventory).catalog).matched := by decide +kernel
  exact ⟨hmatched, exists_vetted_of_mem_matched _ _ _ _ hmatched⟩

end Configuration

end Storefront
