import Storefront.Ruleset
import Storefront.Ordered.StableSort
/-!
# Schedules

The order in which rule-sets are looked at: ascending by priority, and those without a priority at
the end. Rule-sets that priority does not tell apart stay in the order of the list. A schedule is
made in these two parts, and comes out as one stable sort of the whole list does
(`order_eq_stableSort`).

A priority is meant to be held by one rule-set. When a configuration is saved, a priority that
occurs more than once stays with the last rule-set that holds it and is taken from the others.

`order_perm`, `pairwise_order` and `filter_order` determine the order: it rearranges the list,
stands by priority, and keeps the list's order within a priority. `pairwise_byIndex` and
`filter_byIndex` say the same of the order by index.
-/

namespace Storefront.Schedule

/-- Whether a rule-set may be looked at before another one, by priority. -/
def mayPrecede (r s : Ruleset) : Bool :=
  match r.priority, s.priority with
  | some p, some q => p ≤ q
  | some _, none => true
  | none, some _ => false
  | none, none => true

/-- Rule-sets in the order in which they are looked at: those with a priority sorted by it, and
behind them the others as they are listed. -/
def order (rs : List Ruleset) : List Ruleset :=
  stableSort mayPrecede (rs.filter (·.priority.isSome)) ++ rs.filter (!·.priority.isSome)

/-- Rule-sets with every priority left to the last one that holds it. -/
def dedupe : List Ruleset → List Ruleset
  | [] => []
  | r :: rs =>
    let shared := r.priority.isSome && rs.any (·.priority == r.priority)
    (if shared then { r with priority := none } else r) :: dedupe rs

/-- Rule-sets in the order of their indices. -/
def byIndex (rs : List Ruleset) : List Ruleset := stableSort (fun r s ↦ r.index ≤ s.index) rs

/-! ### The order -/

theorem mayPrecede_total (r s : Ruleset) : mayPrecede r s ∨ mayPrecede s r := by
  cases hr : r.priority <;> cases hs : s.priority <;> simp [mayPrecede, hr, hs, Int64.le_total]

theorem mayPrecede_trans (r s t : Ruleset) (hrs : mayPrecede r s) (hst : mayPrecede s t) :
    mayPrecede r t := by
  cases hr : r.priority <;> cases hs : s.priority <;> cases ht : t.priority <;>
    simp [mayPrecede, hr, hs, ht] at hrs hst ⊢
  exact Int64.le_trans hrs hst

theorem mayPrecede_of_priority_eq {r s : Ruleset} (h : r.priority = s.priority) :
    mayPrecede r s := by
  cases hs : s.priority <;> simp [mayPrecede, h, hs]

/-- A schedule is one stable sort, because whatever has a priority stands in front of what has
none. -/
theorem order_eq_stableSort (rs : List Ruleset) : order rs = stableSort mayPrecede rs := by
  have hlast : stableSort mayPrecede (rs.filter (!·.priority.isSome)) =
      rs.filter (!·.priority.isSome) := by
    refine stableSort_eq_self (List.pairwise_of_forall_mem_list fun r hr s hs ↦ ?_)
    have hr : r.priority = none := by simpa using (List.mem_filter.1 hr).2
    have hs : s.priority = none := by simpa using (List.mem_filter.1 hs).2
    exact mayPrecede_of_priority_eq (hr.trans hs.symm)
  have hsplit : (stableSort mayPrecede rs).Pairwise fun r s ↦
      s.priority.isSome → r.priority.isSome := by
    refine (pairwise_stableSort mayPrecede_trans mayPrecede_total rs).imp fun {r s} h hs ↦ ?_
    obtain ⟨q, hq⟩ := Option.isSome_iff_exists.1 hs
    rcases hr : r.priority with - | p
    · simp [mayPrecede, hr, hq] at h
    · rfl
  rw [order, ← hlast, stableSort_filter mayPrecede_trans mayPrecede_total,
    stableSort_filter mayPrecede_trans mayPrecede_total]
  exact filter_append_filter_not hsplit

/-- Scheduling rearranges the rule-sets. -/
theorem order_perm (rs : List Ruleset) : (order rs).Perm rs := by
  rw [order_eq_stableSort]
  exact stableSort_perm _ rs

/-- Scheduled rule-sets stand in the order of their priorities. -/
theorem pairwise_order (rs : List Ruleset) : (order rs).Pairwise fun r s ↦ mayPrecede r s := by
  rw [order_eq_stableSort]
  exact pairwise_stableSort mayPrecede_trans mayPrecede_total rs

/-- Rule-sets that priority does not tell apart keep their order. -/
theorem filter_order (p : Option Int64) (rs : List Ruleset) :
    (order rs).filter (·.priority == p) = rs.filter (·.priority == p) := by
  rw [order_eq_stableSort]
  refine filter_stableSort _ (fun r s hr hs ↦ ?_) rs
  exact mayPrecede_of_priority_eq ((eq_of_beq hr).trans (eq_of_beq hs).symm)

/-- Rule-sets sorted by index stand in the order of their indices. -/
theorem pairwise_byIndex (rs : List Ruleset) :
    (byIndex rs).Pairwise fun r s ↦ r.index ≤ s.index := by
  refine (pairwise_stableSort (fun r s t hrs hst ↦ ?_) (fun r s ↦ ?_) rs).imp of_decide_eq_true
  · exact decide_eq_true (UInt64.le_trans (of_decide_eq_true hrs) (of_decide_eq_true hst))
  · exact (UInt64.le_total r.index s.index).imp decide_eq_true decide_eq_true

/-- Rule-sets of one index keep their order when they are sorted by index. -/
theorem filter_byIndex (i : UInt64) (rs : List Ruleset) :
    (byIndex rs).filter (·.index == i) = rs.filter (·.index == i) := by
  refine filter_stableSort _ (fun r s hr hs ↦ decide_eq_true ?_) rs
  rw [eq_of_beq hr, eq_of_beq hs]
  exact UInt64.le_refl i

/-- Sorting by index leaves alone what is listed by index. -/
theorem byIndex_eq_self {rs : List Ruleset} (h : rs.Pairwise fun r s ↦ r.index ≤ s.index) :
    byIndex rs = rs :=
  stableSort_eq_self (h.imp decide_eq_true)

end Storefront.Schedule
