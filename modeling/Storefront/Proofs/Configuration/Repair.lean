import Storefront.Proofs.Configuration.RoundTrip
import Storefront.Proofs.Schedule.Repair
/-!
# What saving makes of a list of rule-sets

Saving gives back what it wrote: the rule-sets in the order of their indices, those of one index in
the order in which they came, with each priority left to its last holder in that order. This is a
normal form. Neither sorting nor the repair finds anything to do in it (`repaired_repaired`), so
what was saved is saved again as it is.
-/

namespace Storefront

namespace Schedule

/-- A list in the order of its indices, equal ones as they came. -/
structure SortedByIndex (rs qs : List Ruleset) : Prop where
  /-- The same rule-sets are listed. -/
  perm : qs.Perm rs
  /-- They are listed by index. -/
  sorted : qs.Pairwise fun r s ↦ r.index ≤ s.index
  /-- Those of one index are in their old order. -/
  stable (i : UInt64) : qs.filter (·.index == i) = rs.filter (·.index == i)

theorem sortedByIndex_byIndex (rs : List Ruleset) : SortedByIndex rs (byIndex rs) :=
  ⟨stableSort_perm _ rs, pairwise_byIndex rs, fun i ↦ filter_byIndex i rs⟩

end Schedule

namespace Configuration

/-- What is written is written again as it is. -/
theorem repaired_repaired (rs : List Ruleset) : repaired (repaired rs) = repaired rs := by
  have hsorted : (repaired rs).Pairwise fun r s ↦ r.index ≤ s.index := by
    have hindices := List.pairwise_map.2 (Schedule.pairwise_byIndex rs)
    rw [← Schedule.map_index_dedupe] at hindices
    exact List.pairwise_map.1 hindices
  rw [repaired, Schedule.byIndex_eq_self hsorted]
  exact Schedule.dedupe_dedupe _

/-- A save that goes through gives back the repaired list. -/
theorem eq_repaired_of_save {σ : Type} {c : Configuration σ} {rs written : List Ruleset} {s s' : σ}
    (h : c.save rs s = (.ok written, s')) : written = repaired rs := by
  rw [save] at h
  split at h
  · cases h
    rfl
  · cases h

open Schedule

/-- **Saving leaves each priority to its last holder.** Whatever the list, a position keeps its
priority exactly if no later position holds the same, and nothing but a priority is lost, whether
the repair looks ahead or is made in place. So each priority that was held is held by one position,
a second repair changes nothing, and the positions that have the priority they had are scheduled in
the order in which they were. A save gives back the list in the stable order of its indices,
repaired in this way: always on an option table, and on any other store if it goes through. Saved
again, that list comes back as it is. -/
theorem repairOf_save (rs : List Ruleset) :
    (RepairOf rs (dedupe rs) ∧ dedupeInPlace rs = dedupe rs ∧ dedupe (dedupe rs) = dedupe rs) ∧
    (∀ p i, priorityAt (dedupe rs) i = some p ↔ IsLastHolder rs p i) ∧
    (∀ p i, priorityAt rs i = some p → ∃! j, priorityAt (dedupe rs) j = some p) ∧
    ((positions rs).Perm (List.range rs.length) ∧
      (positions rs).filterMap (rs[·]?) = order rs ∧
      (positions (dedupe rs)).filterMap ((dedupe rs)[·]?) = order (dedupe rs) ∧
      (positions (dedupe rs)).filter (fun i ↦ priorityAt (dedupe rs) i == priorityAt rs i) =
        (positions rs).filter fun i ↦ priorityAt (dedupe rs) i == priorityAt rs i) ∧
    (SortedByIndex rs (byIndex rs) ∧ RepairOf (byIndex rs) (repaired rs)) ∧
    (∀ naming t, ((onTable naming).save rs t).1 = .ok (repaired rs) ∧
      ((onTable naming).save (repaired rs) t).1 = .ok (repaired rs)) ∧
    ∀ (σ : Type) (c : Configuration σ) (s s' : σ) (written : List Ruleset),
      (c.save rs s = (.ok written, s') → written = repaired rs) ∧
        (c.save (repaired rs) s = (.ok written, s') → written = repaired rs) := by
  have hrepair := repairOf_dedupe rs
  refine ⟨⟨hrepair, dedupeInPlace_eq_dedupe rs, dedupe_dedupe rs⟩,
    fun p i ↦ hrepair.priorityAt_eq_some_iff, fun p i hp ↦ hrepair.existsUnique_priorityAt ⟨i, hp⟩,
    ⟨positions_perm rs, filterMap_positions rs, filterMap_positions _,
      hrepair.filter_positions_eq⟩,
    ⟨sortedByIndex_byIndex rs, repairOf_dedupe _⟩, fun naming t ↦ ⟨?_, ?_⟩,
    fun σ c s s' written ↦ ⟨eq_repaired_of_save, fun h ↦ ?_⟩⟩
  · rw [save_onTable]
  · rw [save_onTable, repaired_repaired]
  · rw [eq_repaired_of_save h, repaired_repaired]

/-- Three holders of one priority and two of another, among each other and out of the order of their
indices. -/
def contestedRulesets : List Ruleset :=
  [{ index := 8, condition := .unsupported "a" true, priority := some 5 },
    { index := 3, condition := .unsupported "b" true, priority := some (-1) },
    { index := 3, condition := .unsupported "c" true, priority := some 5 },
    { index := 1, condition := .unsupported "d" true, priority := some (-1) },
    { index := 9, condition := .unsupported "e" true },
    { index := 0, condition := .unsupported "f" true, priority := some 5 }]

/-- In the list as it is the last holder is the one of index 0; once it is sorted by index, it is
the one of index 8. -/
theorem repairOf_save_contestedRulesets :
    (priorityAt contestedRulesets 0 = some 5 ∧
      ∃! i, priorityAt (dedupe contestedRulesets) i = some 5) ∧
    (dedupe contestedRulesets).map (·.priority) =
      [none, none, none, some (-1), none, some 5] ∧
    (repaired contestedRulesets).map (fun r ↦ (r.index, r.priority)) =
      [(0, none), (1, none), (3, some (-1)), (3, none), (8, some 5), (9, none)] :=
  ⟨⟨rfl, (repairOf_save contestedRulesets).2.2.1 5 0 rfl⟩, by decide, by decide⟩

end Configuration

end Storefront
