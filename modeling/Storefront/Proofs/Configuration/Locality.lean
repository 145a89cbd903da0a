import Storefront.Proofs.Configuration.RoundTrip
import Storefront.Proofs.Snapshot.Constructed
/-!
# Loading is local to an index

The rule-set of an index is read from one cell of each column, the first entry whose key spells the
index, and from nothing else. So it is there exactly if some column has such an entry, and two stores
that agree in these cells load the same rule-set for the index, whatever they hold for others
(`load_local`).

Two paths through the stored arrays have to agree for this: the indices are collected from all keys
of a column, and a cell is found by the first key that spells its index. Both go by what a key
spells, so `5`, `"5"` and `"+05"` are one index to both (`mem_indices_iff`).

Layout does not matter either: entries may stand in any order as long as their keys spell different
indices, and entries whose keys spell none may be anywhere (`StoredValue.Rearranged`).
-/

namespace Storefront

/-! ### The layout of an array -/

namespace StoredValue

/-- Values that differ in the layout of an array at most. -/
inductive Rearranged : StoredValue → StoredValue → Prop where
  /-- The same value. -/
  | refl (v : StoredValue) : Rearranged v v
  /-- Entries in another order, where no two keys spell the same index. -/
  | perm {es es' : List (StoredKey × StoredValue)} (h : es.Perm es')
      (hnodup : (es.filterMap (·.1.index?)).Nodup) : Rearranged (array es) (array es')
  /-- One entry less, where its key spells no index. -/
  | stray {e : StoredKey × StoredValue} (h : e.1.index? = none)
      (front back : List (StoredKey × StoredValue)) :
      Rearranged (array (front ++ e :: back)) (array (front ++ back))
  /-- Either value may come first; in particular there may be one entry more. -/
  | symm {v w : StoredValue} (h : Rearranged v w) : Rearranged w v
  /-- Any number of such steps. -/
  | trans {v w x : StoredValue} (h : Rearranged v w) (h' : Rearranged w x) : Rearranged v x

/-- An index that is spelt at most once is found in any order of the entries. -/
theorem find?_index_eq_of_perm {es es' : List (StoredKey × StoredValue)} (h : es.Perm es')
    (hnodup : (es.filterMap (·.1.index?)).Nodup) (i : UInt64) :
    es.find? (·.1.index? == some i) = es'.find? (·.1.index? == some i) := by
  induction h with
  | nil => rfl
  | cons e _ ih =>
    have htail := hnodup.sublist ((List.sublist_cons_self e _).filterMap _)
    rw [List.find?_cons, List.find?_cons, ih htail]
  | swap d e es =>
    cases hd : d.1.index? == some i with
    | false => simp only [List.find?_cons, hd]
    | true =>
      -- Both cannot spell the index.
      have he : (e.1.index? == some i) = false := by
        rw [beq_eq_false_iff_ne]
        intro he
        simp only [List.filterMap_cons, he, eq_of_beq hd] at hnodup
        exact (List.nodup_cons.1 hnodup).1 List.mem_cons_self
      simp only [List.find?_cons, hd, he]
  | trans h _ ih ih' =>
    have hnodup' := ((h.filterMap _).nodup_iff).1 hnodup
    exact (ih hnodup).trans (ih' hnodup')

/-- No look-up by index tells the layout of an array. -/
theorem Rearranged.at?_eq {v w : StoredValue} (h : Rearranged v w) (i : UInt64) :
    v.at? i = w.at? i := by
  induction h with
  | refl v => rfl
  | perm h hnodup =>
    rw [at?, at?, entries, entries, find?_index_eq_of_perm h hnodup]
  | stray h front back =>
    rw [at?, at?, entries, entries, List.find?_append, List.find?_append,
      List.find?_cons_of_neg (by simp [h])]
  | symm _ ih => exact ih.symm
  | trans _ _ ih ih' => exact ih.trans ih'

/-- The indices of an array are those under which something is found in it. -/
theorem mem_indices_iff {v : StoredValue} {i : UInt64} :
    i ∈ v.indices ↔ (v.at? i).isSome = true := by
  rw [indices, List.mem_filterMap, at?, Option.isSome_map, List.find?_isSome]
  simp only [beq_iff_eq]

theorem isSome_at?_iff {v : StoredValue} {i : UInt64} :
    (v.at? i).isSome = true ↔ ∃ es e, v = array es ∧ e ∈ es ∧ e.1.index? = some i := by
  rw [← mem_indices_iff, indices, List.mem_filterMap]
  constructor
  · rintro ⟨e, he, hindex⟩
    cases v with
    | array es => exact ⟨es, e, rfl, he, hindex⟩
    | _ => cases he
  · rintro ⟨es, e, rfl, he, hindex⟩
    exact ⟨e, he, hindex⟩

end StoredValue

/-! ### Rows and their indices -/

namespace Sheet

variable {s t : Sheet} {i : UInt64}

/-- The indices of a sheet are those for which some column holds an entry. -/
theorem mem_indices_iff : i ∈ s.indices ↔ ∃ f, (s.stored? f i).isSome = true := by
  have hcolumn (f : RulesetField) : i ∈ s.columnIndices f ↔ (s.stored? f i).isSome = true := by
    rw [columnIndices, stored?]
    cases s f with
    | none => simp
    | some v => exact StoredValue.mem_indices_iff
  have hmem : i ∈ s.indices ↔ i ∈ RulesetField.all.flatMap s.columnIndices := IdSet.mem_ofList
  rw [hmem, List.mem_flatMap]
  simp only [hcolumn]
  exact exists_congr fun f ↦ and_iff_right (RulesetField.mem_all f)

/-- The rule-set of an index is read from the cells of the index alone. -/
theorem ruleset_congr (h : ∀ f, s.stored? f i = t.stored? f i) : s.ruleset i = t.ruleset i := by
  have hcell (f : RulesetField) : s.cell? f i = t.cell? f i := by rw [cell?_eq, cell?_eq, h]
  have htext (f : RulesetField) : s.text? f i = t.text? f i := by rw [text?, text?, hcell]
  have hids (f : RulesetField) : s.ids f i = t.ids f i := by rw [ids, ids, hcell]
  have hnumber (f : RulesetField) : s.number? f i = t.number? f i := by rw [number?, number?, htext]
  have hcomparison (f : RulesetField) : s.comparison? f i = t.comparison? f i := by
    rw [comparison?, comparison?, htext]
  have hmembership (f : RulesetField) : s.membership? f i = t.membership? f i := by
    rw [membership?, membership?, htext]
  have hcondition : s.condition i = t.condition i := by
    simp only [condition, hcell, htext, hids, hnumber, hcomparison, hmembership]
  simp only [ruleset, hcondition, priceRule?, countRule?, htext, hids, hnumber, hcomparison]

/-- Sheets whose cells are the same hold the same rule-sets. -/
theorem rulesets_congr (h : ∀ f i, s.stored? f i = t.stored? f i) : s.rulesets = t.rulesets := by
  have hindices : s.indices = t.indices := by
    refine congrArg IdSet.toList (IdSet.ext_mem fun i ↦ ?_)
    show i ∈ s.indices ↔ i ∈ t.indices
    rw [mem_indices_iff, mem_indices_iff]
    exact exists_congr fun f ↦ by rw [h]
  rw [rulesets, rulesets, hindices]
  exact List.map_congr_left fun i _ ↦ ruleset_congr fun f ↦ h f i

/-! ### Looking a rule-set up -/

theorem search_rulesets_of_mem (hi : i ∈ s.indices) :
    Snapshot.search i s.rulesets = some (s.ruleset i) :=
  Snapshot.search_index_of_mem s.ascending_rulesets (List.mem_map_of_mem hi)

theorem search_rulesets_of_notMem (hi : i ∉ s.indices) : Snapshot.search i s.rulesets = none := by
  rw [Snapshot.search_eq_find? s.ascending_rulesets, List.find?_eq_none]
  intro r hr hindex
  obtain ⟨j, hj, rfl⟩ := List.mem_map.1 hr
  exact hi (eq_of_beq hindex ▸ hj)

theorem isSome_search_rulesets :
    (Snapshot.search i s.rulesets).isSome = true ↔ i ∈ s.indices := by
  by_cases hi : i ∈ s.indices
  · simp [search_rulesets_of_mem hi, hi]
  · simp [search_rulesets_of_notMem hi, hi]

theorem search_rulesets_congr (h : ∀ f, s.stored? f i = t.stored? f i) :
    Snapshot.search i s.rulesets = Snapshot.search i t.rulesets := by
  have hmem : i ∈ s.indices ↔ i ∈ t.indices := by
    rw [mem_indices_iff, mem_indices_iff]
    exact exists_congr fun f ↦ by rw [h]
  by_cases hi : i ∈ s.indices
  · rw [search_rulesets_of_mem hi, search_rulesets_of_mem (hmem.1 hi), ruleset_congr h]
  · rw [search_rulesets_of_notMem hi, search_rulesets_of_notMem (mt hmem.2 hi)]

end Sheet

namespace Configuration

variable {σ τ : Type}

/-- **Loading is local to an index.** A rule-set is loaded for an index exactly if some rule-set
field is an array with an entry whose key spells the index. Stores in which the first such entry of
every field is the same, or missing in both, load the same rule-set for the index. And stores whose
fields differ in the layout of their arrays only load the same rule-sets. -/
theorem load_local (c : Configuration σ) (s : σ) (c' : Configuration τ) (s' : τ) :
    (∀ i, ((c.load s).get? i).isSome = true ↔
      ∃ f es e, c.field? (.ruleset f) s = some (.array es) ∧ e ∈ es ∧ e.1.index? = some i) ∧
    (∀ i, (∀ f, (c.sheet s).stored? f i = (c'.sheet s').stored? f i) →
      (c.load s).get? i = (c'.load s').get? i) ∧
    ((∀ f, Option.Rel StoredValue.Rearranged (c.field? (.ruleset f) s)
        (c'.field? (.ruleset f) s')) →
      (c.load s).rulesets = (c'.load s').rulesets) := by
  refine ⟨fun i ↦ ?_, fun i h ↦ Sheet.search_rulesets_congr h, fun h ↦ ?_⟩
  · rw [Snapshot.get?, show (c.load s).rulesets = (c.sheet s).rulesets from rfl,
      Sheet.isSome_search_rulesets, Sheet.mem_indices_iff]
    refine exists_congr fun f ↦ ?_
    rw [Sheet.stored?, show c.sheet s f = c.field? (.ruleset f) s from rfl]
    cases c.field? (.ruleset f) s with
    | none => simp
    | some v =>
      rw [Option.bind_some, StoredValue.isSome_at?_iff]
      simp only [Option.some.injEq]
  · refine Sheet.rulesets_congr fun f i ↦ ?_
    rw [Sheet.stored?, Sheet.stored?, sheet, sheet]
    have hf := h f
    generalize c.field? (.ruleset f) s = v, c'.field? (.ruleset f) s' = w at hf ⊢
    cases hf with
    | none => rfl
    | some hv => exact hv.at?_eq i

/-- A table with the kinds given and one stop toggle. -/
def kindsTable (kinds : List (StoredKey × StoredValue)) : OptionTable :=
  (OrderedMap.empty.insert "rule_toggle" (.array [(.name "+7", .text "yes")])).insert "conditions"
    (.array kinds)

theorem field?_kindsTable (kinds : List (StoredKey × StoredValue)) (f : RulesetField) :
    (onTable { optionPrefix := "" }).field? (.ruleset f) (kindsTable kinds) =
      if f = .conditions then some (.array kinds)
      else (onTable { optionPrefix := "" }).field? (.ruleset f) (kindsTable []) := by
  rw [field?_onTable, field?_onTable, kindsTable, kindsTable]
  split
  · next hf => exact hf ▸ OptionTable.get?_insert_self _ "conditions" _
  · next hf =>
    have hname : Naming.ofField { optionPrefix := "" } (.ruleset f) ≠ "conditions" :=
      fun heq ↦ hf (Field.ruleset.inj (Naming.ofField_injective { optionPrefix := "" } heq))
    rw [OptionTable.get?_insert_of_ne _ hname, OptionTable.get?_insert_of_ne _ hname]

/-- Two rule-sets under indices spelt in several ways, with two stray entries. The same without
these and in the other order loads alike; and the rule-set of index seven is the same in a table
that holds something else for every other index. -/
theorem load_local_kindsTable :
    let c := onTable { optionPrefix := "" }
    let kinds := [(.name "x", .null), (.name "07", .text "total_quantity"),
      (.position (-1), .text "weather"), (.position 2, .text "customer_roles")]
    (c.load (kindsTable kinds)).rulesets =
        (c.load (kindsTable
          [(.position 2, .text "customer_roles"), (.name "07", .text "total_quantity")])).rulesets ∧
      (c.load (kindsTable kinds)).get? 7 =
        (c.load (kindsTable [(.position 3, .null), (.position 7, .text "total_quantity"),
          (.name "7", .text "weather")])).get? 7 ∧
      ((c.load (kindsTable kinds)).get? 7).isSome = true := by
  intro c kinds
  -- The stray entries go first; then only the order is different.
  have hkinds : StoredValue.Rearranged (.array kinds)
      (.array [(.position 2, .text "customer_roles"), (.name "07", .text "total_quantity")]) :=
    .trans (.stray (by decide) [] _)
      (.trans (.stray (by decide) [_] _) (.perm (.swap ..) (by decide)))
  refine ⟨?_, ?_, ?_⟩
  · refine (load_local c _ c _).2.2 fun f ↦ ?_
    rw [field?_kindsTable kinds, field?_kindsTable [_, _]]
    split
    · exact .some hkinds
    · cases c.field? (.ruleset f) (kindsTable []) with
      | none => exact .none
      | some v => exact .some (.refl v)
  · refine (load_local c _ c _).2.1 7 fun f ↦ ?_
    rw [Sheet.stored?, Sheet.stored?, sheet, sheet, field?_kindsTable kinds,
      field?_kindsTable [_, _, _]]
    split
    · rfl
    · rfl
  · exact ((load_local c _ c (kindsTable kinds)).1 7).2
      ⟨.conditions, kinds, (.name "07", .text "total_quantity"), field?_kindsTable kinds _,
        .tail _ (.head _), by decide⟩

end Configuration

end Storefront
