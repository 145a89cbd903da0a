import Storefront.Schedule
/-!
# The order of a schedule

Scheduling is a stable sort by priority. On rule-sets that are listed by index this is the strict
order `Before`: by priority, those without a priority last, and by index where priority does not
decide.

* `pairwise_order_of_pairwise`: whatever relates the members of a list in their order still relates
  those of one priority after scheduling.
* `pairwise_before_order`: a schedule of rule-sets listed by index stands in the order `Before`.
* `order_filter`: scheduling some rule-sets of a list leaves the others out of the schedule.
-/

namespace Storefront.Schedule

/-- Which of two rule-sets is looked at earlier: the one of the smaller priority, or the one that
has a priority at all, and the one of the smaller index if priority does not tell them apart. -/
def Before (r s : Ruleset) : Prop :=
  match r.priority, s.priority with
  | some p, some q => p < q ∨ p = q ∧ r.index < s.index
  | some _, none => True
  | none, some _ => False
  | none, none => r.index < s.index

theorem before_of_mayPrecede {r s : Ruleset} (h : mayPrecede r s)
    (hindex : r.priority = s.priority → r.index < s.index) : Before r s := by
  unfold Before
  rcases hr : r.priority with - | p <;> rcases hs : s.priority with - | q
  · exact hindex (hr.trans hs.symm)
  · simp [mayPrecede, hr, hs] at h
  · trivial
  · have hle : p ≤ q := by simpa [mayPrecede, hr, hs] using h
    by_cases heq : p = q
    · exact .inr ⟨heq, hindex (by rw [hr, hs, heq])⟩
    · exact .inl (Int64.lt_of_le_of_ne hle heq)

/-- What relates the members of a list in their order relates those of one priority in the
schedule. -/
theorem pairwise_order_of_pairwise {R : Ruleset → Ruleset → Prop} {rs : List Ruleset}
    (h : rs.Pairwise R) :
    (order rs).Pairwise fun r s ↦ r.priority = s.priority → R r s := by
  rw [order_eq_stableSort]
  exact (pairwise_stableSort_of_pairwise h).imp fun hR heq ↦
    hR (mayPrecede_of_priority_eq heq.symm)

/-- A schedule of rule-sets that are listed by index. -/
theorem pairwise_before_order {rs : List Ruleset} (h : rs.Pairwise fun r s ↦ r.index < s.index) :
    (order rs).Pairwise Before :=
  ((pairwise_order rs).and (pairwise_order_of_pairwise h)).imp fun ⟨hle, hindex⟩ ↦
    before_of_mayPrecede hle hindex

theorem Before.asymm {r s : Ruleset} (h : Before r s) : ¬ Before s r := by
  unfold Before at h ⊢
  rcases hr : r.priority with - | p <;> rcases hs : s.priority with - | q <;>
    simp only [hr, hs, not_false_eq_true] at h ⊢
  · exact UInt64.lt_asymm h
  · rcases h with hlt | ⟨rfl, hindex⟩
    · rintro (hgt | ⟨rfl, -⟩)
      · exact Int64.lt_irrefl (Int64.lt_trans hlt hgt)
      · exact Int64.lt_irrefl hlt
    · rintro (hgt | ⟨-, hgt⟩)
      · exact Int64.lt_irrefl hgt
      · exact UInt64.lt_asymm hindex hgt

/-- Scheduling some of the rule-sets of a list leaves the others out of the schedule. -/
theorem order_filter (keep : Ruleset → Bool) (rs : List Ruleset) :
    order (rs.filter keep) = (order rs).filter keep := by
  rw [order_eq_stableSort, order_eq_stableSort]
  exact stableSort_filter mayPrecede_trans mayPrecede_total keep rs

end Storefront.Schedule
