import Storefront.Proofs.Configuration.RoundTrip
import Storefront.Proofs.Report.Matched
/-!
# Saving what was loaded

Loading keeps two things of a condition's value: what could be read of it, and that there was one.
Saving writes only the first. So a value that could not be read is lost when a loaded configuration
is saved as it is: loaded again, the condition is blank (`Condition.rewritten`), its rule-set is
passed over, and its stop toggle is not looked at any more (`report_quantityTable_unreadable`).

Nothing else changes. The rule-sets are otherwise the same (`load_save_load`), and the report of a
run is the same exactly if the value of every rule-set that the paid tier tested could be read
(`report_load_save_load`).
-/

namespace Storefront

/-! ### Values that were read -/

namespace Condition

/-- Whether something of the value to compare with could be read. -/
def hasReadValue : Condition → Bool
  | numeric _ _ bound _ => bound.isSome
  | customerRoles _ roles _ => !roles.isEmpty
  | cart _ _ ids _ => !ids.isEmpty
  | unsupported .. => false

/-- What is left of a condition that is written and read again: it has a value if one was read. -/
def rewritten (c : Condition) : Condition :=
  match c with
  | numeric fact op bound _ => numeric fact op bound c.hasReadValue
  | customerRoles op roles _ => customerRoles op roles c.hasReadValue
  | cart fact op ids _ => cart fact op ids c.hasReadValue
  | unsupported kind _ => unsupported kind c.hasReadValue

variable (c : Condition)

@[simp] theorem isBlank_rewritten : c.rewritten.isBlank = !c.hasReadValue := by
  cases c <;> rfl

@[simp] theorem fact?_rewritten : c.rewritten.fact? = c.fact? := by
  cases c <;> rfl

/-- Evaluation looks at what was read only. -/
@[simp] theorem evaluate_rewritten (r : Request) (catalog : Catalog) :
    c.rewritten.evaluate r catalog = c.evaluate r catalog := by
  cases c with
  | numeric fact op bound hasValue => cases op <;> cases bound <;> rfl
  | customerRoles op roles hasValue => cases op <;> rfl
  | cart fact op ids hasValue => cases op <;> rfl
  | unsupported kind hasValue => rfl

end Condition

/-- A rule-set whose condition is written and read again. -/
def Ruleset.rewritten (r : Ruleset) : Ruleset := { r with condition := r.condition.rewritten }

/-- No field holds more than what was read. -/
theorem RulesetField.cell_rewritten (f : RulesetField) (r : Ruleset) :
    f.cell r.rewritten = f.cell r := by
  obtain ⟨index, condition, priority, stopsOthers, products, categories⟩ := r
  cases condition <;> cases f <;> rfl

/-- A snapshot all of whose rule-sets are written and read again. -/
def Snapshot.rewritten (s : Snapshot) : Snapshot :=
  { s with rulesets := s.rulesets.map Ruleset.rewritten }

/-! ### Rule-sets as they are loaded -/

namespace Sheet

variable {s : Sheet} {i : UInt64}

/-- A value that was read was configured. -/
theorem hasValue_of_hasReadValue (h : (s.condition i).hasReadValue = true) :
    (s.condition i).hasValue = true := by
  rcases condition_eq_test_or_unsupported s i with ⟨fact, -, heq⟩ | ⟨kind, hasValue, heq, -⟩
  · rw [heq] at h ⊢
    cases hcell : s.cell? .conditionSubfield i with
    | some v => cases fact <;> simp [test, Condition.hasValue, hcell]
    | none =>
      -- Without a cell there is nothing to read.
      cases fact <;> simp [test, Condition.hasReadValue, number?, text?, ids, hcell] at h
  · rw [heq] at h
    cases h

theorem isFinite_of_number? {f : RulesetField} {x : Binary64} (h : s.number? f i = some x) :
    x.isFinite = true := by
  obtain ⟨t, -, hx⟩ := Option.bind_eq_some_iff.1 h
  exact (Option.filter_eq_some_iff.1 hx).2

/-- A condition that was loaded can be told from the stored texts, but for the trace of a value that
could not be read. -/
theorem wellFormed_rewritten_condition (s : Sheet) (i : UInt64) :
    (s.condition i).rewritten.WellFormed := by
  rcases condition_eq_test_or_unsupported s i with
    ⟨fact, -, heq⟩ | ⟨kind, hasValue, heq, htrim, hkind⟩
  · rw [heq]
    cases fact with
    | numeric fact => exact ⟨rfl, fun x hx ↦ isFinite_of_number? hx⟩
    | customerRoles =>
      refine ⟨rfl, fun role hrole ↦ ?_⟩
      obtain ⟨v, -, -, hmem⟩ := exists_of_mem_getD_cell? hrole
      exact StoredValue.isTidy_of_mem_toTexts hmem
    | cart fact => exact rfl
  · rw [heq]
    exact ⟨rfl, htrim, hkind⟩

theorem of_priceRule? {rule : PriceRule} (h : s.priceRule? i = some rule) :
    rule.op.isForPrices = true ∧ rule.price.isFinite = true := by
  obtain ⟨op, -, h⟩ := Option.bind_eq_some_iff.1 h
  obtain ⟨price, hprice, h⟩ := Option.bind_eq_some_iff.1 h
  rw [PriceRule.of?] at h
  split at h
  · next hop =>
    obtain rfl := Option.some.inj h
    exact ⟨hop, isFinite_of_number? hprice⟩
  · cases h

theorem of_countRule? {rule : CountRule} (h : s.countRule? i = some rule) :
    rule.threshold.isFinite = true := by
  obtain ⟨op, -, h⟩ := Option.bind_eq_some_iff.1 h
  obtain ⟨threshold, hthreshold, h⟩ := Option.bind_eq_some_iff.1 h
  obtain rfl := Option.some.inj h
  exact isFinite_of_number? hthreshold

theorem wellFormed_rewritten (s : Sheet) {i : UInt64} (h : i.toNat < 2 ^ 63) :
    (s.ruleset i).rewritten.WellFormed where
  index_lt := h
  condition := wellFormed_rewritten_condition s i
  price _ hrule := of_priceRule? hrule
  productCount _ hrule := of_countRule? hrule

/-- A sheet does not show what was not read. -/
theorem ofRulesets_rewritten (rs : List Ruleset) :
    ofRulesets (rs.map Ruleset.rewritten) = ofRulesets rs := by
  funext f
  have hcells : (fun r : Ruleset ↦ (r.index, f.cell r)) ∘ Ruleset.rewritten =
      fun r ↦ (r.index, f.cell r) :=
    funext fun r ↦ congrArg (Prod.mk r.index) (f.cell_rewritten r)
  rw [ofRulesets, ofRulesets, RulesetField.column, RulesetField.column, List.map_map, hcells]

end Sheet

/-! ### Loading, saving and loading again -/

namespace Schedule

/-- A list in which no priority occurs twice keeps every priority. -/
theorem dedupe_eq_self {rs : List Ruleset} (h : (rs.filterMap (·.priority)).Nodup) :
    dedupe rs = rs := by
  induction rs with
  | nil => rfl
  | cons r rs ih =>
    cases hr : r.priority with
    | none =>
      rw [List.filterMap_cons_none hr] at h
      rw [dedupe, ih h]
      simp [hr]
    | some p =>
      rw [List.filterMap_cons_some hr, List.nodup_cons, List.mem_filterMap] at h
      have hshared : rs.any (·.priority == r.priority) = false :=
        List.any_eq_false.2 fun t ht heq ↦ h.1 ⟨t, ht, (eq_of_beq heq).trans hr⟩
      rw [dedupe, ih h.2, hshared]
      simp

end Schedule

namespace Configuration

theorem repaired_eq_self {rs : List Ruleset} (h : Snapshot.Ascending rs)
    (hpriority : (rs.filterMap (·.priority)).Nodup) : repaired rs = rs := by
  rw [repaired, Schedule.byIndex_eq_self (h.imp UInt64.le_of_lt), Schedule.dedupe_eq_self hpriority]

/-- Loading after saving finds the switch and the license as they were. -/
theorem load_setAll_columns (naming : Naming) (rs : List Ruleset) (t : OptionTable) :
    (onTable naming).load (t.setAll ((onTable naming).columns rs)) =
      { (onTable naming).load t with rulesets := (Sheet.ofRulesets (repaired rs)).rulesets } := by
  have hfield {f : Field} (hf : ∀ g, f ≠ .ruleset g) := field?_setAll_columns naming rs hf t
  rw [load, sheet_setAll_columns, tier, isEnabled, hfield fun _ ↦ Field.noConfusion,
    hfield fun _ ↦ Field.noConfusion, hfield fun _ ↦ Field.noConfusion]
  rfl

/-- Saving what was loaded and loading it again gives the rule-sets written and read again; the
switch and the tier are as before. -/
theorem load_save_load (naming : Naming) (t : OptionTable)
    (hindex : ∀ r ∈ ((onTable naming).load t).rulesets, r.index.toNat < 2 ^ 63)
    (hpriority : (((onTable naming).load t).rulesets.filterMap (·.priority)).Nodup) :
    ∃ t', (onTable naming).save ((onTable naming).load t).rulesets t =
        (.ok ((onTable naming).load t).rulesets, t') ∧
      (onTable naming).load t' = ((onTable naming).load t).rewritten := by
  let sheet := (onTable naming).sheet t
  have hascending : Snapshot.Ascending sheet.rulesets := Sheet.ascending_rulesets sheet
  have hrepaired : repaired sheet.rulesets = sheet.rulesets := repaired_eq_self hascending hpriority
  have hwf : ∀ r ∈ sheet.rulesets.map Ruleset.rewritten, r.WellFormed := by
    intro r hr
    obtain ⟨q, hq, rfl⟩ := List.mem_map.1 hr
    obtain ⟨i, -, rfl⟩ := List.mem_map.1 hq
    exact Sheet.wellFormed_rewritten sheet (hindex _ hq)
  have hrulesets : (Sheet.ofRulesets sheet.rulesets).rulesets =
      sheet.rulesets.map Ruleset.rewritten := by
    rw [← Sheet.ofRulesets_rewritten]
    exact Sheet.rulesets_ofRulesets (List.pairwise_map.2 hascending) hwf
  refine ⟨t.setAll ((onTable naming).columns sheet.rulesets), ?_, ?_⟩
  · rw [save_onTable]
    exact congrArg (fun rs ↦ (Except.ok rs, t.setAll ((onTable naming).columns sheet.rulesets)))
      hrepaired
  · rw [load_setAll_columns, hrepaired, hrulesets]
    rfl

end Configuration

/-! ### Runs after saving -/

namespace Snapshot

theorem order_map_rewritten (rs : List Ruleset) :
    Schedule.order (rs.map Ruleset.rewritten) = (Schedule.order rs).map Ruleset.rewritten := by
  rw [Schedule.order_eq_stableSort, Schedule.order_eq_stableSort]
  exact map_stableSort (fun _ _ ↦ rfl) rs

theorem schedule_rewritten (s : Snapshot) : s.rewritten.schedule = s.schedule := by
  have hhead : (s.rulesets.map Ruleset.rewritten).head?.map (·.index) =
      s.rulesets.head?.map (·.index) := by
    rw [List.head?_map, Option.map_map]
    rfl
  have horder : (Schedule.order (s.rulesets.map Ruleset.rewritten)).map (·.index) =
      (Schedule.order s.rulesets).map (·.index) := by
    rw [order_map_rewritten, List.map_map]
    rfl
  simp only [schedule, rewritten, hhead, horder]

theorem get?_rewritten {s : Snapshot} (h : Ascending s.rulesets) (i : UInt64) :
    s.rewritten.get? i = (s.get? i).map Ruleset.rewritten := by
  have hascending : Ascending s.rewritten.rulesets := List.pairwise_map.2 h
  rw [get?, get?, search_eq_find? hascending, search_eq_find? h]
  exact List.find?_map

/-- A run over the rewritten rule-sets finds what a run over the rule-sets finds, rewritten. -/
theorem filterMap_get?_rewritten {s : Snapshot} (h : Ascending s.rulesets) :
    s.rewritten.schedule.filterMap s.rewritten.get? =
      (s.schedule.filterMap s.get?).map Ruleset.rewritten := by
  rw [schedule_rewritten, List.map_filterMap]
  exact List.filterMap_congr fun i _ ↦ get?_rewritten h i

/-! ### What a run tests after saving -/

theorem testedFirst_map_rewritten (rs : List Ruleset) :
    testedFirst (rs.map Ruleset.rewritten) = (testedFirst rs).map Ruleset.rewritten := by
  cases rs with
  | nil => rfl
  | cons r rs =>
    have hfact : r.rewritten.condition.fact? = r.condition.fact? := r.condition.fact?_rewritten
    by_cases h : r.condition.fact? = some (.numeric .activeProductCount)
    · simp [testedFirst, hfact, h]
    · simp [testedFirst, hfact, h]

/-- The same rule-sets are tested, if the value of each of them was read. -/
theorem tested_map_rewritten {rs : List Ruleset}
    (hloaded : ∀ r ∈ rs, r.condition.hasReadValue = true → r.condition.hasValue = true)
    (h : ∀ r ∈ tested rs, r.condition.hasReadValue = true) :
    tested (rs.map Ruleset.rewritten) = (tested rs).map Ruleset.rewritten := by
  induction rs with
  | nil => rfl
  | cons r rs ih =>
    have hrest (q : Ruleset) (hq : q ∈ rs) := hloaded q (List.mem_cons_of_mem _ hq)
    have hrewritten : r.rewritten.condition.isBlank = !r.condition.hasReadValue :=
      r.condition.isBlank_rewritten
    rw [List.map_cons]
    cases hread : r.condition.hasReadValue with
    | false =>
      -- What is not read is not tested, so the condition was blank before.
      cases hblank : r.condition.isBlank with
      | true =>
        rw [tested_cons_of_blank hblank] at h ⊢
        rw [tested_cons_of_blank (by rw [hrewritten, hread]; rfl), ih hrest h]
      | false =>
        have hmem : r ∈ tested (r :: rs) := by
          cases hstop : r.stopsOthers with
          | true => exact tested_cons_of_stop hblank hstop ▸ List.mem_cons_self
          | false => exact tested_cons_of_not_stop hblank hstop ▸ List.mem_cons_self
        rw [h r hmem] at hread
        cases hread
    | true =>
      have hblank : r.condition.isBlank = false := by
        rw [Condition.isBlank, hloaded r List.mem_cons_self hread]
        rfl
      have hblank' : r.rewritten.condition.isBlank = false := by
        rw [hrewritten, hread]
        rfl
      cases hstop : r.stopsOthers with
      | true => rw [tested_cons_of_stop hblank hstop, tested_cons_of_stop hblank' hstop]; rfl
      | false =>
        rw [tested_cons_of_not_stop hblank hstop] at h ⊢
        rw [tested_cons_of_not_stop hblank' hstop,
          ih hrest fun q hq ↦ h q (List.mem_cons_of_mem _ hq)]
        rfl

theorem testedIn_map_rewritten {tier : Tier} {rs : List Ruleset}
    (hloaded : ∀ r ∈ rs, r.condition.hasReadValue = true → r.condition.hasValue = true)
    (h : tier = .paid → ∀ r ∈ testedIn tier rs, r.condition.hasReadValue = true) :
    testedIn tier (rs.map Ruleset.rewritten) = (testedIn tier rs).map Ruleset.rewritten := by
  cases tier with
  | free => exact testedFirst_map_rewritten rs
  | paid => exact tested_map_rewritten hloaded (h rfl)

theorem haltedIn_map_rewritten {tier : Tier} {rs : List Ruleset}
    (h : testedIn tier (rs.map Ruleset.rewritten) = (testedIn tier rs).map Ruleset.rewritten) :
    haltedIn tier (rs.map Ruleset.rewritten) = haltedIn tier rs := by
  cases tier with
  | free => rfl
  | paid =>
    have hlast : (tested (rs.map Ruleset.rewritten)).getLast? =
        (tested rs).getLast?.map Ruleset.rewritten := by
      rw [← List.getLast?_map]
      exact congrArg List.getLast? h
    rw [haltedIn, haltedIn, hlast]
    cases (tested rs).getLast? with
    | none => rfl
    | some r => cases hstop : r.stopsOthers <;> simp [Option.filter, Ruleset.rewritten, hstop]

theorem filter_evaluate_map_rewritten (r : Request) (c : Catalog) (rs : List Ruleset) :
    (rs.map Ruleset.rewritten).filter (·.condition.evaluate r c) =
      (rs.filter (·.condition.evaluate r c)).map Ruleset.rewritten := by
  rw [List.filter_map]
  exact congrArg (List.map Ruleset.rewritten)
    (List.filter_congr fun rule _ ↦ rule.condition.evaluate_rewritten r c)

theorem absorbAll_map_rewritten (c : Catalog) (rs : List Ruleset) :
    Plan.empty.absorbAll c (rs.map Ruleset.rewritten) = Plan.empty.absorbAll c rs := by
  rw [Plan.absorbAll, List.foldl_map]
  rfl

/-- What is found is a rule-set of the snapshot, found under its own index. -/
theorem mem_of_mem_found {s : Snapshot} {r : Ruleset} (h : r ∈ s.schedule.filterMap s.get?) :
    r ∈ s.rulesets := by
  obtain ⟨i, -, hi⟩ := List.mem_filterMap.1 h
  exact mem_of_search hi

/-- The report of a run over rewritten rule-sets is the same exactly if the value of every rule-set
that the paid tier tested was read. -/
theorem report_rewritten_eq_iff {s : Snapshot} (h : Ascending s.rulesets)
    (hloaded : ∀ r ∈ s.rulesets, r.condition.hasReadValue = true → r.condition.hasValue = true)
    (request : Request) (c : Catalog) :
    s.rewritten.report request c = s.report request c ↔
      (s.tier = .paid → ∀ r ∈ s.rulesets, r.index ∈ (s.report request c).evaluated →
        r.condition.hasReadValue = true) := by
  constructor
  · intro heq hpaid r hr hevaluated
    rw [← heq, report_eq, filterMap_get?_rewritten h] at hevaluated
    obtain ⟨q', hq', hindex⟩ := List.mem_map.1 hevaluated
    obtain ⟨q, hq, rfl⟩ := List.mem_map.1 (mem_of_mem_testedIn hq')
    -- Indices occur once, so what was tested after saving is this rule-set.
    have hfound : search r.index s.rulesets = some q := by
      rw [← hindex]
      exact search_index_of_mem h (mem_of_mem_found hq)
    rw [search_index_of_mem h hr] at hfound
    obtain rfl : r = q := Option.some.inj hfound
    have htested : r.rewritten ∈ tested
        ((s.schedule.filterMap s.get?).map Ruleset.rewritten) := by
      have htier : s.rewritten.tier = .paid := hpaid
      rwa [htier] at hq'
    have hpresent := isBlank_of_mem_tested htested
    rwa [Ruleset.rewritten, Condition.isBlank_rewritten, Bool.not_eq_false'] at hpresent
  · intro hread
    have htested : testedIn s.tier ((s.schedule.filterMap s.get?).map Ruleset.rewritten) =
        (testedIn s.tier (s.schedule.filterMap s.get?)).map Ruleset.rewritten := by
      refine testedIn_map_rewritten (fun r hr ↦ hloaded r (mem_of_mem_found hr)) ?_
      intro hpaid r hr
      refine hread hpaid r (mem_of_mem_found (mem_of_mem_testedIn hr)) ?_
      rw [report_eq]
      exact List.mem_map_of_mem hr
    have htier : s.rewritten.tier = s.tier := rfl
    rw [report_eq, report_eq, filterMap_get?_rewritten h, schedule_rewritten, htier, htested,
      haltedIn_map_rewritten htested, filter_evaluate_map_rewritten, absorbAll_map_rewritten,
      List.map_map, List.map_map]
    rfl

end Snapshot

namespace Configuration

/-- **What saving a loaded configuration changes.** The save succeeds and gives the rule-sets back
as they were loaded; loading again gives the same rule-sets, except that a condition whose value
could not be read has none any more. The order of a run is the same, and its whole report is the
same exactly if every rule-set that the paid tier tested before had a value that could be read. -/
theorem report_load_save_load (naming : Naming) (t : OptionTable)
    (hindex : ∀ r ∈ ((onTable naming).load t).rulesets, r.index.toNat < 2 ^ 63)
    (hpriority : (((onTable naming).load t).rulesets.filterMap (·.priority)).Nodup) :
    let before := (onTable naming).load t
    ∃ t', (onTable naming).save before.rulesets t = (.ok before.rulesets, t') ∧
      (onTable naming).load t' = before.rewritten ∧
      ∀ (r : Request) (c : Catalog),
        (((onTable naming).load t').report r c).order = (before.report r c).order ∧
        (((onTable naming).load t').report r c = before.report r c ↔
          (before.tier = .paid → ∀ rule ∈ before.rulesets,
            rule.index ∈ (before.report r c).evaluated →
              rule.condition.hasReadValue = true)) := by
  intro before
  obtain ⟨t', hsave, hload⟩ := load_save_load naming t hindex hpriority
  have hascending : Snapshot.Ascending before.rulesets := Sheet.ascending_rulesets _
  have hloaded (rule : Ruleset) (hrule : rule ∈ before.rulesets) :
      rule.condition.hasReadValue = true → rule.condition.hasValue = true := by
    obtain ⟨i, -, rfl⟩ := List.mem_map.1 hrule
    exact Sheet.hasValue_of_hasReadValue
  refine ⟨t', hsave, hload, fun r c ↦ ?_⟩
  rw [hload]
  exact ⟨Snapshot.schedule_rewritten before,
    Snapshot.report_rewritten_eq_iff hascending hloaded r c⟩

/-- Two rule-sets. The first compares a quantity with a value that is given, and its stop toggle is
set; the second hides a product. -/
def quantityTable (value : String) : OptionTable :=
  OrderedMap.ofList
    [("api_license_key", .text "key"),
      ("api_get_response", .array [(.name "activated", .bool true)]),
      ("ruleset_toggle", .text "yes"),
      ("conditions", .list [.text "total_quantity", .text "customer_roles"]),
      ("operator", .list [.text "greater_than", .text "is_not"]),
      ("condition_subfield", .list [.text value, .text "editor"]),
      ("rule_toggle", .list [.text "yes", .text "no"]),
      ("rule_set_priority", .list [.text "0", .text "1"]),
      ("show_product_is_product", .list [.list [], .list [.text "77"]])]

/-- The same rule-sets as they are loaded, given what could be read of the value. -/
def quantitySnapshot (bound : Option Binary64) : Snapshot where
  tier := .paid
  rulesets :=
    [{ index := 0, condition := .numeric .totalQuantity (some .greater) bound true
       priority := some 0, stopsOthers := true },
      { index := 1, condition := .ofRoles .excludes ["editor"]
        priority := some 1, products := { products := [77] } }]

theorem load_quantityTable_readable :
    (onTable { optionPrefix := "" }).load (quantityTable " 3") =
      quantitySnapshot (some (.ofNat 3)) := by
  decide +kernel

theorem load_quantityTable_unreadable :
    (onTable { optionPrefix := "" }).load (quantityTable "3 items") = quantitySnapshot none := by
  decide +kernel

/-- With a number as the value, saving changes no report. -/
theorem report_quantityTable_readable :
    let c := onTable { optionPrefix := "" }
    let before := c.load (quantityTable " 3")
    ∃ t', c.save before.rulesets (quantityTable " 3") = (.ok before.rulesets, t') ∧
      ∀ (r : Request) (catalog : Catalog),
        (c.load t').report r catalog = before.report r catalog := by
  intro c before
  have hbefore : before = quantitySnapshot (some (.ofNat 3)) := load_quantityTable_readable
  have hread : ∀ rule ∈ before.rulesets, rule.condition.hasReadValue = true := by
    rw [hbefore]
    decide
  have hindex : ∀ rule ∈ before.rulesets, rule.index.toNat < 2 ^ 63 := by
    rw [hbefore]
    decide
  have hpriority : (before.rulesets.filterMap (·.priority)).Nodup := by
    rw [hbefore]
    decide
  obtain ⟨t', hsave, -, hreport⟩ :=
    report_load_save_load { optionPrefix := "" } (quantityTable " 3") hindex hpriority
  exact ⟨t', hsave, fun r catalog ↦ (hreport r catalog).2.2 fun _ rule hrule _ ↦ hread rule hrule⟩

/-- With a value that is no number, the first rule-set stops the run and nothing is hidden. Saved as
it was loaded, it is passed over, and the second one hides its product. -/
theorem report_quantityTable_unreadable :
    let c := onTable { optionPrefix := "" }
    let before := c.load (quantityTable "3 items")
    let after := c.load (c.save before.rulesets (quantityTable "3 items")).2
    (∀ r ∈ before.rulesets, r.index.toNat < 2 ^ 63) ∧
      (before.rulesets.filterMap (·.priority)).Nodup ∧
      before.report {} (∅ : Inventory).catalog =
        { order := [0, 1], evaluated := [0], haltedAt := some 0 } ∧
      after.report {} (∅ : Inventory).catalog =
        { order := [0, 1], evaluated := [1], matched := [1],
          plan := { products := IdSet.ofList [77] } } := by
  intro c before after
  have hbefore : before = quantitySnapshot none := load_quantityTable_unreadable
  have hindex : ∀ rule ∈ before.rulesets, rule.index.toNat < 2 ^ 63 := by
    rw [hbefore]
    decide
  have hpriority : (before.rulesets.filterMap (·.priority)).Nodup := by
    rw [hbefore]
    decide
  have hafter : after = before.rewritten := by
    obtain ⟨t', hsave, hload⟩ :=
      load_save_load { optionPrefix := "" } (quantityTable "3 items") hindex hpriority
    have hstate : (c.save before.rulesets (quantityTable "3 items")).2 = t' := by rw [hsave]
    rw [← hload, ← hstate]
  refine ⟨hindex, hpriority, ?_, ?_⟩
  · rw [hbefore]
    decide +kernel
  · rw [hafter, hbefore]
    decide +kernel

end Configuration

end Storefront
