import Storefront.Configuration.Basic
import Storefront.Snapshot.Ascending
/-!
# Snapshots that the library makes

A snapshot comes from the empty one by setting the switch and putting rule-sets in, or is loaded
from an option store. `Constructed` collects these ways, in any order and number. A snapshot that is
read from a record is not among them, and need not be ascending.

* `Constructed.ascending`: such a snapshot lists its rule-sets strictly ascending by index.
* `filterMap_get?_map_index`: in an ascending snapshot, looking up the indices of some of its
  rule-sets gives those rule-sets, none skipped.
-/

namespace Storefront

/-- A sheet lists its rule-sets by index. -/
theorem Sheet.ascending_rulesets (s : Sheet) : Snapshot.Ascending s.rulesets :=
  List.pairwise_map.2 (IdSet.ascending _)

namespace Snapshot

/-- A snapshot made by the operations of the library. -/
inductive Constructed : Snapshot → Prop where
  /-- The empty snapshot. -/
  | empty (tier : Tier) : Constructed (empty tier)
  /-- A snapshot with the main switch set. -/
  | switch {s : Snapshot} (enabled : Bool) (h : Constructed s) : Constructed { s with enabled }
  /-- A snapshot with a rule-set put in. -/
  | put {s : Snapshot} (r : Ruleset) (h : Constructed s) : Constructed (s.put r)
  /-- A snapshot loaded from a store in any state. -/
  | load {σ : Type} (c : Configuration σ) (state : σ) : Constructed (c.load state)

/-- However a snapshot was made, its rule-sets are listed strictly ascending by index. -/
theorem Constructed.ascending {s : Snapshot} (h : s.Constructed) : Ascending s.rulesets := by
  induction h with
  | empty tier => exact .nil
  | switch enabled _ ih => exact ih
  | put r _ ih => exact ascending_putRuleset ih
  | load c state => exact Sheet.ascending_rulesets _

/-- A rule-set with the smallest index goes to the front. -/
theorem putRuleset_of_forall_lt {r : Ruleset} {rs : List Ruleset} (h : Ascending rs)
    (hr : ∀ s ∈ rs, r.index < s.index) : putRuleset r rs = r :: rs := by
  obtain ⟨front, back, hput, hfront, -, hrs⟩ := exists_putRuleset_eq h r
  have hsub : front.Sublist rs := by
    rcases hrs with rfl | ⟨s, -, rfl⟩ <;> exact List.sublist_append_left ..
  obtain rfl : front = [] := by
    refine List.eq_nil_iff_forall_not_mem.2 fun t ht ↦ ?_
    exact UInt64.lt_asymm (hfront t ht) (hr t (hsub.subset ht))
  rcases hrs with rfl | ⟨s, hs, rfl⟩
  · exact hput
  · have hlt : r.index < s.index := hr s List.mem_cons_self
    exact absurd (hs ▸ hlt) (UInt64.lt_irrefl _)

/-- Every snapshot whose rule-sets are listed strictly ascending by index can be made. -/
theorem constructed_of_ascending {s : Snapshot} (h : Ascending s.rulesets) : s.Constructed := by
  obtain ⟨enabled, tier, rs⟩ := s
  induction rs with
  | nil => exact .switch enabled (.empty tier)
  | cons r rs ih =>
    obtain ⟨hhead, htail⟩ := List.pairwise_cons.1 h
    have hput : putRuleset r rs = r :: rs := putRuleset_of_forall_lt htail hhead
    have hmade : Constructed ({ enabled, tier, rulesets := rs : Snapshot }.put r) :=
      .put r (ih htail)
    rwa [Snapshot.put, hput] at hmade

/-- In an ascending list, a rule-set is what looking its index up finds. -/
theorem search_index_of_mem {r : Ruleset} {rs : List Ruleset} (h : Ascending rs) (hr : r ∈ rs) :
    search r.index rs = some r := by
  rw [search_eq_find? h]
  -- No rule-set in front of it has the same index.
  induction rs with
  | nil => cases hr
  | cons s rs ih =>
    obtain ⟨hhead, htail⟩ := List.pairwise_cons.1 h
    rcases List.mem_cons.1 hr with rfl | hr
    · simp
    · have hne : ¬ s.index = r.index := UInt64.ne_of_lt (hhead r hr)
      simp [hne, ih htail hr]

/-- In an ascending list no index occurs twice. -/
theorem eq_of_index_eq {r s : Ruleset} {rs : List Ruleset} (h : Ascending rs) (hr : r ∈ rs)
    (hs : s ∈ rs) (hindex : r.index = s.index) : r = s := by
  have hfound := search_index_of_mem h hr
  rw [hindex, search_index_of_mem h hs] at hfound
  exact (Option.some.inj hfound).symm

/-- What is found in a list is in it, whatever the order of the list. -/
theorem mem_of_search {i : UInt64} {r : Ruleset} {rs : List Ruleset} (h : search i rs = some r) :
    r ∈ rs :=
  List.mem_of_getElem? (Option.eq_some_of_filter_eq_some h)

/-- What is found under an index has it, whatever the order of the list. -/
theorem index_of_search {i : UInt64} {r : Ruleset} {rs : List Ruleset}
    (h : search i rs = some r) : r.index = i :=
  eq_of_beq (Option.filter_eq_some_iff.1 h).2

/-- Looking up the indices of rule-sets that are found under them gives them back. -/
theorem filterMap_get?_of_found {s : Snapshot} {rs : List Ruleset}
    (hrs : ∀ r ∈ rs, s.get? r.index = some r) : (rs.map (·.index)).filterMap s.get? = rs := by
  induction rs with
  | nil => rfl
  | cons r rs ih =>
    rw [List.map_cons, List.filterMap_cons_some (hrs r List.mem_cons_self),
      ih fun t ht ↦ hrs t (List.mem_cons_of_mem _ ht)]

/-- Looking up the indices of rule-sets of an ascending snapshot gives them back. -/
theorem filterMap_get?_map_index {s : Snapshot} (h : Ascending s.rulesets) {rs : List Ruleset}
    (hrs : ∀ r ∈ rs, r ∈ s.rulesets) : (rs.map (·.index)).filterMap s.get? = rs :=
  filterMap_get?_of_found fun r hr ↦ search_index_of_mem h (hrs r hr)

end Snapshot

end Storefront
