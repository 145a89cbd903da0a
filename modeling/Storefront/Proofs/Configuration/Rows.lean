import Storefront.Snapshot.Ascending
import Storefront.Proofs.Configuration.Cells
/-!
# Rows of a sheet read back

The sheet of a list of rule-sets holds a column for every field (`ofRulesets`). Of rule-sets that
are well-formed (`Ruleset.WellFormed`) and listed strictly by index it gives back exactly these
(`rulesets_ofRulesets`).

A rule-set is well-formed if its fields can be told from their stored texts: numbers are finite, a
condition says that it has a value exactly if it has one, roles are tidy texts, and the kind of an
unsupported condition is not one of the known kinds.
-/

namespace Storefront

open Text

/-! ### Entries by index -/

/-- An index below `2 ^ 63` is read back from the key under which it is written. -/
theorem StoredKey.index?_ofIndex {i : UInt64} (h : i.toNat < 2 ^ 63) :
    (ofIndex i).index? = some i := by
  have hnonneg : 0 ≤ i.toInt64 := by
    have hvalue : i.toInt64 = Int64.ofNat i.toNat := by
      rw [← UInt64.toInt64_ofNat', UInt64.ofNat_toNat]
    rw [hvalue, Int64.le_iff_toInt_le, Int64.toInt_zero, Int64.toInt_ofNat_of_lt h]
    exact Int.natCast_nonneg _
  exact if_pos hnonneg

namespace RulesetField

variable {rs : List Ruleset} (h : ∀ r ∈ rs, r.index.toNat < 2 ^ 63)

include h

/-- The keys of a column spell the indices of the rule-sets, in order. -/
theorem indices_column (f : RulesetField) : (f.column rs).indices = rs.map (·.index) := by
  rw [column_eq_array, StoredValue.indices, StoredValue.entries, List.filterMap_map,
    ← List.filterMap_eq_map]
  exact List.filterMap_congr fun r hr ↦ StoredKey.index?_ofIndex (h r hr)

/-- Where no index occurs twice, a column gives each rule-set its own cell. -/
theorem at?_column (hnodup : (rs.map (·.index)).Nodup) {r : Ruleset} (hr : r ∈ rs)
    (f : RulesetField) : (f.column rs).at? r.index = some (f.cell r) := by
  rw [column_eq_array, StoredValue.at?, StoredValue.entries]
  induction rs with
  | nil => cases hr
  | cons t rs ih =>
    obtain ⟨hhead, htail⟩ := List.nodup_cons.1 hnodup
    have hkey := StoredKey.index?_ofIndex (h t List.mem_cons_self)
    rcases List.mem_cons.1 hr with rfl | hr
    · rw [List.map_cons, List.find?_cons_of_pos (by simp [hkey])]
      rfl
    · have hne : ¬ t.index = r.index := fun heq ↦ hhead (List.mem_map.2 ⟨r, hr, heq.symm⟩)
      rw [List.map_cons, List.find?_cons_of_neg (by simp [hkey, hne])]
      exact ih (fun d hd ↦ h d (List.mem_cons_of_mem _ hd)) htail hr

end RulesetField

/-! ### Well-formed rule-sets -/

/-- A condition that can be told from its stored texts. -/
def Condition.WellFormed : Condition → Prop
  | numeric _ _ bound hasValue => hasValue = bound.isSome ∧ ∀ x ∈ bound, x.isFinite = true
  | customerRoles _ roles hasValue => hasValue = !roles.isEmpty ∧ ∀ role ∈ roles, IsTidy role
  | cart _ _ ids hasValue => hasValue = !ids.isEmpty
  | unsupported kind hasValue =>
    hasValue = false ∧ trimmed kind = kind ∧ ∀ f : Fact, f.wire ≠ kind

/-- A rule-set that can be told from its stored texts. -/
structure Ruleset.WellFormed (r : Ruleset) : Prop where
  /-- The index fits a signed word. -/
  index_lt : r.index.toNat < 2 ^ 63
  /-- The condition can be told from its stored texts. -/
  condition : r.condition.WellFormed
  /-- A price rule has one of the comparisons for prices and a finite bound. -/
  price : ∀ rule ∈ r.products.price, rule.op.isForPrices = true ∧ rule.price.isFinite = true
  /-- A count rule has a finite bound. -/
  productCount : ∀ rule ∈ r.categories.productCount, rule.threshold.isFinite = true

/-- A condition that tests a fact is stored under the kind of the fact. -/
theorem Condition.kindText_of_fact? {c : Condition} {fact : Fact} (h : c.fact? = some fact) :
    c.kindText = fact.wire := by
  cases c with
  | unsupported kind hasValue => cases h
  | numeric f op bound hasValue =>
    cases h
    rfl
  | customerRoles op roles hasValue =>
    cases h
    rfl
  | cart f op ids hasValue =>
    cases h
    rfl

/-- The text of a finite number is read as a threshold. -/
theorem Amount.threshold?_toText {x : Binary64} (h : x.isFinite = true) :
    Amount.threshold? x.toText = some x := by
  have htrim : trim x.toText.toList = x.write := by
    rw [Binary64.toText, String.toList_ofList]
    exact trim_eq_self fun _ hc ↦ Binary64.isBlank_of_mem_write hc
  rw [threshold?, htrim, Binary64.read?_write]
  exact Option.filter_eq_some_iff.2 ⟨rfl, h⟩

namespace Sheet

/-! ### Cells of written rule-sets -/

/-- The sheet that holds the given rule-sets. -/
def ofRulesets (rs : List Ruleset) : Sheet := fun f ↦ some (f.column rs)

/-- A rule-set of a list in which stored indices tell the rule-sets apart. -/
structure Listed (rs : List Ruleset) (r : Ruleset) : Prop where
  /-- Every index fits a signed word. -/
  index_lt : ∀ t ∈ rs, t.index.toNat < 2 ^ 63
  /-- No index occurs twice. -/
  nodup : (rs.map (·.index)).Nodup
  /-- The rule-set is in the list. -/
  mem : r ∈ rs

section

variable {rs : List Ruleset} {r : Ruleset} (hr : Listed rs r)

include hr

theorem stored?_ofRulesets (f : RulesetField) :
    (ofRulesets rs).stored? f r.index = some (f.cell r) :=
  RulesetField.at?_column hr.index_lt hr.nodup hr.mem f

theorem cell?_ofRulesets (f : RulesetField) :
    (ofRulesets rs).cell? f r.index = (some (f.cell r)).filter (!·.isBlank) := by
  rw [cell?_eq, stored?_ofRulesets hr]

/-- What a field writes as one text or none is read back. -/
theorem text?_ofRulesets {f : RulesetField} {t : Option String} (hcell : f.cell r = .ofText? t)
    (ht : ∀ u ∈ t, IsTidy u) : (ofRulesets rs).text? f r.index = t := by
  rw [text?_eq, stored?_ofRulesets hr, hcell, Option.bind_some,
    StoredValue.trimmedText?_ofText? ht]

theorem ids_ofRulesets {f : RulesetField} {ids : List UInt64} (hcell : f.cell r = .ids ids) :
    (ofRulesets rs).ids f r.index = ids := by
  rw [ids_eq, stored?_ofRulesets hr, hcell, Option.map_some, Option.getD_some,
    StoredValue.toIds_ids]

theorem number?_ofRulesets {f : RulesetField} {x : Option Binary64}
    (hcell : f.cell r = .ofText? (x.map Binary64.toText)) (hx : ∀ y ∈ x, y.isFinite = true) :
    (ofRulesets rs).number? f r.index = x := by
  rw [number?, text?_ofRulesets hr hcell]
  · cases x with
    | none => rfl
    | some y => rw [Option.map_some, Option.bind_some, Amount.threshold?_toText (hx y rfl)]
  · intro u hu
    obtain ⟨y, -, rfl⟩ := Option.map_eq_some_iff.1 hu
    exact isTidy_toText y

theorem comparison?_ofRulesets {f : RulesetField} {op : Option Comparison}
    (hcell : f.cell r = .ofText? (op.map Comparison.wire)) :
    (ofRulesets rs).comparison? f r.index = op := by
  rw [comparison?, text?_ofRulesets hr hcell]
  · cases op with
    | none => rfl
    | some op => rw [Option.map_some, Option.bind_some, Comparison.ofWire?_wire]
  · intro u hu
    obtain ⟨op, -, rfl⟩ := Option.map_eq_some_iff.1 hu
    exact isTidy_comparisonWire op

/-- Either spelling of a membership operator is read back. -/
theorem membership?_ofRulesets {f : RulesetField} {op : Option Membership}
    {spelling : Membership → String} (hcell : f.cell r = .ofText? (op.map spelling))
    (htidy : ∀ op, IsTidy (spelling op))
    (hread : ∀ op, Membership.ofWire? (spelling op) = some op) :
    (ofRulesets rs).membership? f r.index = op := by
  rw [membership?, text?_ofRulesets hr hcell]
  · cases op with
    | none => rfl
    | some op => rw [Option.map_some, Option.bind_some, hread]
  · intro u hu
    obtain ⟨op, -, rfl⟩ := Option.map_eq_some_iff.1 hu
    exact htidy op

theorem isSome_cell?_ofRulesets {f : RulesetField} {v : StoredValue} (hcell : f.cell r = v) :
    ((ofRulesets rs).cell? f r.index).isSome = !v.isBlank := by
  rw [cell?_ofRulesets hr, hcell]
  cases h : v.isBlank <;> simp [Option.filter, h]

/-! ### Rows of written rule-sets -/

theorem kind_ofRulesets {fact : Fact} (hfact : r.condition.fact? = some fact) :
    (ofRulesets rs).text? .conditions r.index = some fact.wire := by
  have hcell : RulesetField.conditions.cell r = .ofText? (some fact.wire) := by
    rw [RulesetField.cell, Condition.kindText_of_fact? hfact]
    rfl
  refine text?_ofRulesets hr hcell fun u hu ↦ ?_
  cases hu
  exact isTidy_factWire fact

theorem condition_ofRulesets_numeric {fact : NumericFact} {op : Option Comparison}
    {bound : Option Binary64} (hcondition : r.condition = .numeric fact op bound bound.isSome)
    (hfinite : ∀ x ∈ bound, x.isFinite = true) :
    (ofRulesets rs).condition r.index = r.condition := by
  have hop : RulesetField.operator.cell r = .ofText? (op.map Comparison.wire) := by
    rw [RulesetField.cell, hcondition]
    rfl
  have hbound : RulesetField.conditionSubfield.cell r = .ofText? (bound.map Binary64.toText) := by
    rw [RulesetField.cell, hcondition]
    rfl
  have hblank : (StoredValue.ofText? (bound.map Binary64.toText)).isBlank = bound.isNone := by
    rw [StoredValue.isBlank_ofText?, Option.isNone_map]
    intro u hu
    obtain ⟨x, -, rfl⟩ := Option.map_eq_some_iff.1 hu
    exact isTidy_toText x
  rw [condition_of_kind (kind_ofRulesets hr (by rw [hcondition]; rfl)), hcondition, test,
    comparison?_ofRulesets hr hop, number?_ofRulesets hr hbound hfinite,
    isSome_cell?_ofRulesets hr hbound, hblank]
  cases bound <;> rfl

theorem condition_ofRulesets_roles {op : Option Membership} {roles : List String}
    (hcondition : r.condition = .customerRoles op roles (!roles.isEmpty))
    (hroles : ∀ role ∈ roles, IsTidy role) :
    (ofRulesets rs).condition r.index = r.condition := by
  have hop : RulesetField.operator.cell r = .ofText? (op.map Membership.roleWire) := by
    rw [RulesetField.cell, hcondition]
    rfl
  have hvalue : RulesetField.conditionSubfield.cell r = .texts roles := by
    rw [RulesetField.cell, hcondition]
    rfl
  have htexts := texts_eq (ofRulesets rs) .conditionSubfield r.index
  rw [stored?_ofRulesets hr, hvalue, Option.map_some, Option.getD_some,
    StoredValue.toTexts_texts hroles] at htexts
  rw [condition_of_kind (kind_ofRulesets hr (by rw [hcondition]; rfl)), hcondition, test,
    membership?_ofRulesets hr hop isTidy_roleWire Membership.ofWire?_roleWire,
    htexts, isSome_cell?_ofRulesets hr hvalue, StoredValue.isBlank_texts]

theorem condition_ofRulesets_cart {fact : CartFact} {op : Option Membership} {ids : List UInt64}
    (hcondition : r.condition = .cart fact op ids (!ids.isEmpty)) :
    (ofRulesets rs).condition r.index = r.condition := by
  have hop : RulesetField.operator.cell r = .ofText? (op.map Membership.cartWire) := by
    rw [RulesetField.cell, hcondition]
    rfl
  have hvalue : RulesetField.conditionSubfield.cell r = .ids ids := by
    rw [RulesetField.cell, hcondition]
    rfl
  rw [condition_of_kind (kind_ofRulesets hr (by rw [hcondition]; rfl)), hcondition, test,
    membership?_ofRulesets hr hop isTidy_cartWire Membership.ofWire?_cartWire,
    ids_ofRulesets hr hvalue, isSome_cell?_ofRulesets hr hvalue,
    StoredValue.isBlank_ids]

theorem condition_ofRulesets_unsupported {kind : String}
    (hcondition : r.condition = .unsupported kind false) (htrim : trimmed kind = kind)
    (hkind : ∀ f : Fact, f.wire ≠ kind) :
    (ofRulesets rs).condition r.index = r.condition := by
  have hcell : RulesetField.conditions.cell r = .text kind := by
    rw [RulesetField.cell, hcondition]
    rfl
  have hvalue : RulesetField.conditionSubfield.cell r = .ofText? none := by
    rw [RulesetField.cell, hcondition]
    rfl
  have htext : ((ofRulesets rs).text? .conditions r.index).getD "" = kind := by
    rw [text?_eq, stored?_ofRulesets hr, hcell, Option.bind_some,
      StoredValue.trimmedText?_text, trimmed?, htrim]
    by_cases hempty : kind.isEmpty = true
    · rw [if_pos hempty, Option.getD_none, String.isEmpty_iff.1 hempty]
    · rw [if_neg hempty, Option.getD_some]
  rw [condition_of_unknown htext hkind, hcondition, isSome_cell?_ofRulesets hr hvalue]
  rfl

theorem condition_ofRulesets (hwf : r.condition.WellFormed) :
    (ofRulesets rs).condition r.index = r.condition := by
  match hcondition : r.condition with
  | .numeric fact op bound hasValue =>
    rw [hcondition] at hwf
    obtain ⟨rfl, hfinite⟩ := hwf
    rw [← hcondition]
    exact condition_ofRulesets_numeric hr hcondition hfinite
  | .customerRoles op roles hasValue =>
    rw [hcondition] at hwf
    obtain ⟨rfl, hroles⟩ := hwf
    rw [← hcondition]
    exact condition_ofRulesets_roles hr hcondition hroles
  | .cart fact op ids hasValue =>
    rw [hcondition] at hwf
    obtain rfl := hwf
    rw [← hcondition]
    exact condition_ofRulesets_cart hr hcondition
  | .unsupported kind hasValue =>
    rw [hcondition] at hwf
    obtain ⟨rfl, htrim, hkind⟩ := hwf
    rw [← hcondition]
    exact condition_ofRulesets_unsupported hr hcondition htrim hkind

theorem priceRule?_ofRulesets (hprice : ∀ rule ∈ r.products.price,
      rule.op.isForPrices = true ∧ rule.price.isFinite = true) :
    (ofRulesets rs).priceRule? r.index = r.products.price := by
  have hop : RulesetField.productPriceType.cell r =
      .ofText? ((r.products.price.map (·.op)).map Comparison.wire) := by
    rw [RulesetField.cell, Option.map_map]
    rfl
  have hbound : RulesetField.productPrice.cell r =
      .ofText? ((r.products.price.map (·.price)).map Binary64.toText) := by
    rw [RulesetField.cell, Option.map_map]
    rfl
  have hfinite : ∀ x ∈ r.products.price.map (·.price), x.isFinite = true := by
    intro x hx
    obtain ⟨rule, hrule, rfl⟩ := Option.map_eq_some_iff.1 hx
    exact (hprice rule hrule).2
  rw [priceRule?, comparison?_ofRulesets hr hop,
    number?_ofRulesets hr hbound hfinite]
  cases hrule : r.products.price with
  | none => rfl
  | some rule => exact if_pos (hprice rule hrule).1

theorem countRule?_ofRulesets
    (hcount : ∀ rule ∈ r.categories.productCount, rule.threshold.isFinite = true) :
    (ofRulesets rs).countRule? r.index = r.categories.productCount := by
  have hop : RulesetField.categoryProductCountType.cell r =
      .ofText? ((r.categories.productCount.map (·.op)).map Comparison.wire) := by
    rw [RulesetField.cell, Option.map_map]
    rfl
  have hbound : RulesetField.categoryProductCount.cell r =
      .ofText? ((r.categories.productCount.map (·.threshold)).map Binary64.toText) := by
    rw [RulesetField.cell, Option.map_map]
    rfl
  have hfinite : ∀ x ∈ r.categories.productCount.map (·.threshold), x.isFinite = true := by
    intro x hx
    obtain ⟨rule, hrule, rfl⟩ := Option.map_eq_some_iff.1 hx
    exact hcount rule hrule
  rw [countRule?, comparison?_ofRulesets hr hop,
    number?_ofRulesets hr hbound hfinite]
  cases r.categories.productCount with
  | none => rfl
  | some rule => rfl

theorem priority_ofRulesets :
    ((ofRulesets rs).text? .priority r.index).bind readInt64? = r.priority := by
  rw [text?_ofRulesets hr (f := .priority) rfl]
  · cases r.priority with
    | none => rfl
    | some p => rw [Option.map_some, Option.bind_some, readInt64?_ofInt64]
  · intro u hu
    obtain ⟨p, -, rfl⟩ := Option.map_eq_some_iff.1 hu
    exact isTidy_ofInt64 p

theorem stopsOthers_ofRulesets :
    ((ofRulesets rs).text? .ruleToggle r.index == some "yes") = r.stopsOthers := by
  have hcell : RulesetField.ruleToggle.cell r =
      .ofText? (some (if r.stopsOthers then "yes" else "no")) := rfl
  rw [text?_ofRulesets hr hcell]
  · cases r.stopsOthers with
    | false => rfl
    | true => rfl
  · intro u hu
    cases hu
    cases r.stopsOthers <;> decide

/-- A well-formed rule-set is read back from the sheet that it is written on. -/
theorem ruleset_ofRulesets (hwf : r.WellFormed) : (ofRulesets rs).ruleset r.index = r := by
  have hids {f : RulesetField} {ids : List UInt64} (hcell : f.cell r = .ids ids) :=
    ids_ofRulesets hr hcell
  rw [ruleset, condition_ofRulesets hr hwf.condition,
    priority_ofRulesets hr, stopsOthers_ofRulesets hr,
    priceRule?_ofRulesets hr hwf.price,
    countRule?_ofRulesets hr hwf.productCount]
  simp only [hids (f := .productInCategory) rfl, hids (f := .productIsProduct) rfl,
    hids (f := .productHasVariant) rfl, hids (f := .productHasSubattribute) rfl,
    hids (f := .categoryIsCategory) rfl, hids (f := .categoryHasSubcategory) rfl,
    hids (f := .categoryProductIn) rfl, hids (f := .categoryHasVariant) rfl]

end

/-! ### Whole sheets -/

theorem indices_ofRulesets {rs : List Ruleset} (hindex : ∀ r ∈ rs, r.index.toNat < 2 ^ 63)
    (hascending : Snapshot.Ascending rs) : (ofRulesets rs).indices = rs.map (·.index) := by
  have hcolumn (f : RulesetField) : (ofRulesets rs).columnIndices f = rs.map (·.index) := by
    rw [columnIndices, ofRulesets, Option.map_some, Option.getD_some,
      RulesetField.indices_column hindex]
  have hpairwise : (rs.map (·.index)).Pairwise (· < ·) := List.pairwise_map.2 hascending
  -- A set has one listing, and the indices are listed ascending already.
  have hset : IdSet.ofList (RulesetField.all.flatMap (ofRulesets rs).columnIndices) =
      ⟨rs.map (·.index), hpairwise⟩ := by
    refine IdSet.ext_mem fun i ↦ ?_
    rw [IdSet.mem_ofList, List.mem_flatMap]
    simp only [hcolumn]
    exact ⟨fun ⟨_, _, hi⟩ ↦ hi, fun hi ↦ ⟨.conditions, RulesetField.mem_all _, hi⟩⟩
  rw [indices, hset]

/-- The sheet of well-formed rule-sets that are listed strictly by index holds these rule-sets. -/
theorem rulesets_ofRulesets {rs : List Ruleset} (hascending : Snapshot.Ascending rs)
    (hwf : ∀ r ∈ rs, r.WellFormed) : (ofRulesets rs).rulesets = rs := by
  have hindex (r : Ruleset) (hr : r ∈ rs) : r.index.toNat < 2 ^ 63 := (hwf r hr).index_lt
  have hnodup : (rs.map (·.index)).Nodup := by
    refine List.pairwise_map.2 (List.Pairwise.imp ?_ hascending)
    exact fun h ↦ UInt64.ne_of_lt h
  rw [rulesets, indices_ofRulesets hindex hascending, List.map_map]
  calc rs.map ((ofRulesets rs).ruleset ∘ (·.index))
      = rs.map id := List.map_congr_left fun r hr ↦
        ruleset_ofRulesets ⟨hindex, hnodup, hr⟩ (hwf r hr)
    _ = rs := List.map_id rs

end Sheet

end Storefront
