import Storefront.Proofs.Configuration.Rows
import Mathlib.Data.List.Nodup
/-!
# Saved configurations load back

Saving well-formed rule-sets into an option table and loading the table gives the rule-sets as they
were written (`load_save`), whatever the table held before: each of the seventeen fields is written
whole and under a name of its own. No other option changes, so that the switch and the license tier
are as before.

What is written is the list in the order of its indices, each priority left to its last holder.
Leaving out a priority does not make a rule-set ill-formed (`wellFormed_of_mem_repaired`).
-/

namespace Storefront

/-! ### Tables after several updates -/

namespace OptionTable

/-- The table with options set one after the other. -/
def setAll (t : OptionTable) (options : List (String × StoredValue)) : OptionTable :=
  options.foldl (fun t (option, v) ↦ t.insert option v) t

theorem updateAll_backend (options : List (String × StoredValue)) (t : OptionTable) :
    backend.updateAll options t = (.ok (), t.setAll options) := by
  induction options generalizing t with
  | nil => rfl
  | cons e options ih => exact ih (t.insert e.1 e.2)

theorem get?_insert_self (t : OptionTable) (option : String) (v : StoredValue) :
    (t.insert option v).get? option = some v := by
  rw [OrderedMap.get?_insert, if_pos Std.ReflCmp.compare_self]

theorem get?_insert_of_ne (t : OptionTable) {option other : String} (h : other ≠ option)
    (v : StoredValue) : (t.insert option v).get? other = t.get? other := by
  rw [OrderedMap.get?_insert, if_neg fun heq ↦ h (Std.LawfulEqCmp.eq_of_compare heq)]

/-- Options that are not set keep their values. -/
theorem get?_setAll_of_notMem {options : List (String × StoredValue)} {option : String}
    (h : option ∉ options.map (·.1)) (t : OptionTable) :
    (t.setAll options).get? option = t.get? option := by
  induction options generalizing t with
  | nil => rfl
  | cons e options ih =>
    rw [List.map_cons, List.mem_cons, not_or] at h
    exact (ih h.2 (t.insert e.1 e.2)).trans (get?_insert_of_ne t h.1 e.2)

/-- An option that is set once has the value that it was set to. -/
theorem get?_setAll_of_mem {options : List (String × StoredValue)}
    (hnodup : (options.map (·.1)).Nodup) {option : String} {v : StoredValue}
    (h : (option, v) ∈ options) (t : OptionTable) : (t.setAll options).get? option = some v := by
  induction options generalizing t with
  | nil => cases h
  | cons e options ih =>
    obtain ⟨hhead, htail⟩ := List.nodup_cons.1 hnodup
    rcases List.mem_cons.1 h with rfl | h
    · exact (get?_setAll_of_notMem hhead _).trans (get?_insert_self t option v)
    · exact ih htail h _

end OptionTable

/-! ### Names of options -/

theorem Field.name_injective : Function.Injective Field.name := by
  have hnodup : (Field.all.map Field.name).Nodup := by decide
  intro f g h
  exact List.inj_on_of_nodup_map hnodup (Field.mem_all f) (Field.mem_all g) h

theorem Naming.ofField_injective (n : Naming) : Function.Injective n.ofField := by
  intro f g h
  exact Field.name_injective ((String.append_right_inj n.optionPrefix).1 h)

/-! ### Rule-sets as they are written -/

namespace Schedule

theorem map_index_dedupe (rs : List Ruleset) :
    (dedupe rs).map (·.index) = rs.map (·.index) := by
  induction rs with
  | nil => rfl
  | cons r rs ih =>
    rw [dedupe, List.map_cons, List.map_cons, ih]
    split <;> rfl

/-- What is left of a rule-set differs from it in its priority at most. -/
theorem exists_mem_of_mem_dedupe {r : Ruleset} {rs : List Ruleset} (h : r ∈ dedupe rs) :
    ∃ s ∈ rs, r = s ∨ r = { s with priority := none } := by
  induction rs with
  | nil => cases h
  | cons s rs ih =>
    rcases List.mem_cons.1 h with rfl | h
    · refine ⟨s, List.mem_cons_self, ?_⟩
      split
      · exact .inr rfl
      · exact .inl rfl
    · obtain ⟨t, ht, heq⟩ := ih h
      exact ⟨t, List.mem_cons_of_mem _ ht, heq⟩

/-- Sorting by indices that occur once lists the rule-sets strictly by index. -/
theorem ascending_byIndex {rs : List Ruleset} (hnodup : (rs.map (·.index)).Nodup) :
    Snapshot.Ascending (byIndex rs) := by
  have hdistinct : ((byIndex rs).map (·.index)).Nodup :=
    (((stableSort_perm _ rs).map _).nodup_iff).2 hnodup
  exact ((pairwise_byIndex rs).and (List.pairwise_map.1 hdistinct)).imp fun ⟨hle, hne⟩ ↦
    UInt64.lt_of_le_of_ne hle hne

end Schedule

namespace Configuration

theorem ascending_repaired {rs : List Ruleset} (hnodup : (rs.map (·.index)).Nodup) :
    Snapshot.Ascending (repaired rs) := by
  have hascending := List.pairwise_map.2 (Schedule.ascending_byIndex hnodup)
  rw [← Schedule.map_index_dedupe] at hascending
  exact List.pairwise_map.1 hascending

theorem wellFormed_of_mem_repaired {rs : List Ruleset} (hwf : ∀ r ∈ rs, r.WellFormed)
    {r : Ruleset} (hr : r ∈ repaired rs) : r.WellFormed := by
  obtain ⟨s, hs, heq⟩ := Schedule.exists_mem_of_mem_dedupe hr
  obtain ⟨hindex, hcondition, hprice, hcount⟩ := hwf s ((stableSort_perm _ rs).mem_iff.1 hs)
  rcases heq with rfl | rfl
  · exact ⟨hindex, hcondition, hprice, hcount⟩
  · exact ⟨hindex, hcondition, hprice, hcount⟩

/-! ### Saving into a table and loading it -/

/-- A configuration kept in an option table. -/
def onTable (naming : Naming) : Configuration OptionTable where
  backend := OptionTable.backend
  naming := naming

theorem field?_onTable (naming : Naming) (f : Field) (t : OptionTable) :
    (onTable naming).field? f t = t.get? (naming.ofField f) := rfl

section

variable (naming : Naming) (rs : List Ruleset)

theorem map_fst_columns :
    ((onTable naming).columns rs).map (·.1) = RulesetField.all.map naming.ofRulesetField := by
  rw [columns, List.map_map]
  rfl

theorem nodup_map_fst_columns : (((onTable naming).columns rs).map (·.1)).Nodup := by
  have hfields : (RulesetField.all.map Field.ruleset).Nodup := by decide
  rw [map_fst_columns]
  have hnames := hfields.map naming.ofField_injective
  rw [List.map_map] at hnames
  exact hnames

theorem save_onTable (t : OptionTable) :
    (onTable naming).save rs t =
      (.ok (repaired rs), t.setAll ((onTable naming).columns rs)) := by
  rw [save]
  simp only [onTable, OptionTable.updateAll_backend]

/-- Saving leaves a table as it is outside the rule-set fields. -/
theorem get?_setAll_columns {option : String} (h : ∀ f, option ≠ naming.ofRulesetField f)
    (t : OptionTable) :
    (t.setAll ((onTable naming).columns rs)).get? option = t.get? option := by
  refine OptionTable.get?_setAll_of_notMem ?_ t
  rw [map_fst_columns]
  intro hmem
  obtain ⟨f, -, heq⟩ := List.mem_map.1 hmem
  exact h f heq.symm

/-- Saving leaves every field as it is that is no rule-set field. -/
theorem field?_setAll_columns {f : Field} (hf : ∀ g, f ≠ .ruleset g) (t : OptionTable) :
    (onTable naming).field? f (t.setAll ((onTable naming).columns rs)) =
      (onTable naming).field? f t := by
  rw [field?_onTable, field?_onTable, get?_setAll_columns]
  intro g heq
  exact hf g (naming.ofField_injective heq)

/-- After saving, the table holds the sheet of the rule-sets as they were written. -/
theorem sheet_setAll_columns (t : OptionTable) :
    (onTable naming).sheet (t.setAll ((onTable naming).columns rs)) =
      Sheet.ofRulesets (repaired rs) := by
  funext f
  -- Seventeen different names are set, each of them once.
  have hmem : (naming.ofField (.ruleset f), f.column (repaired rs)) ∈
      (onTable naming).columns rs := List.mem_map_of_mem (RulesetField.mem_all f)
  rw [sheet, field?_onTable,
    OptionTable.get?_setAll_of_mem (nodup_map_fst_columns naming rs) hmem, Sheet.ofRulesets]

end

/-- Saving well-formed rule-sets under distinct indices succeeds whatever the table held. Loading
then gives them as they were written, and nothing but the rule-set fields has changed. -/
theorem load_save (naming : Naming) (t : OptionTable) (rs : List Ruleset)
    (hnodup : (rs.map (·.index)).Nodup) (hwf : ∀ r ∈ rs, r.WellFormed) :
    ∃ t', (onTable naming).save rs t = (.ok (repaired rs), t') ∧
      ((onTable naming).load t').rulesets = repaired rs ∧
      (onTable naming).tier t' = (onTable naming).tier t ∧
      (onTable naming).isEnabled t' = (onTable naming).isEnabled t ∧
      ∀ option, (∀ f, option ≠ naming.ofRulesetField f) → t'.get? option = t.get? option := by
  refine ⟨t.setAll ((onTable naming).columns rs), save_onTable naming rs t, ?_, ?_, ?_, ?_⟩
  · rw [load, sheet_setAll_columns]
    exact Sheet.rulesets_ofRulesets (ascending_repaired hnodup) fun r hr ↦
      wellFormed_of_mem_repaired hwf hr
  · rw [tier, tier, field?_setAll_columns naming rs (fun _ ↦ Field.noConfusion),
      field?_setAll_columns naming rs (fun _ ↦ Field.noConfusion)]
  · rw [isEnabled, isEnabled, field?_setAll_columns naming rs (fun _ ↦ Field.noConfusion)]
  · intro option hoption
    exact get?_setAll_columns naming rs hoption t

/-- Rule-sets of three families, out of order and with a priority held twice. -/
def mixedRulesets : List Ruleset :=
  [{ index := 7, condition := .ofRoles .excludes ["staff", "wholesale", "staff"]
     priority := some 2, stopsOthers := true, products := { inCategories := [9, 4, 9] } },
    { index := 2, condition := .ofNumeric .orderSubtotal .greaterOrEqual (.ofNat 50)
      priority := some 2, products := { price := some ⟨.less, .zero true⟩ } },
    { index := 5, condition := .unsupported "moon_phase" false }]

theorem load_save_mixedRulesets :
    ∃ t', (onTable {}).save mixedRulesets
        (OrderedMap.empty.insert "woo_shop_manager_conditions" (.text "stale")) =
        (.ok (repaired mixedRulesets), t') ∧
      ((onTable {}).load t').rulesets = repaired mixedRulesets ∧
      ((onTable {}).load t').rulesets.map (fun r ↦ (r.index, r.priority)) =
        [(2, none), (5, none), (7, some 2)] := by
  have hwf : ∀ r ∈ mixedRulesets, r.WellFormed := by
    intro r hr
    simp only [mixedRulesets, List.mem_cons, List.not_mem_nil, or_false] at hr
    rcases hr with rfl | rfl | rfl
    · refine ⟨by decide, ⟨rfl, ?_⟩, ?_, ?_⟩
      · decide
      · rintro rule ⟨⟩
      · rintro rule ⟨⟩
    · refine ⟨by decide, ⟨rfl, ?_⟩, ?_, ?_⟩
      · intro x hx
        rw [← Option.some.inj hx]
        decide +kernel
      · rintro rule ⟨⟩
        exact ⟨rfl, rfl⟩
      · rintro rule ⟨⟩
    · refine ⟨by decide, ⟨rfl, by decide, fun f ↦ ?_⟩, ?_, ?_⟩
      · rcases f with ⟨_ | _ | _ | _⟩ | _ | ⟨_ | _ | _ | _⟩ <;> decide
      · rintro rule ⟨⟩
      · rintro rule ⟨⟩
  obtain ⟨t', hsave, hload, -⟩ := load_save {}
    (OrderedMap.empty.insert "woo_shop_manager_conditions" (.text "stale")) mixedRulesets
    (by decide) hwf
  exact ⟨t', hsave, hload, by rw [hload]; decide⟩

end Configuration

end Storefront
