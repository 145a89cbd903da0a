import Storefront.Plan.Sql
import Mathlib.Data.List.Infix
/-!
# The join that price filters need

Price filters end in a condition on the meta table of the shop, whose name starts with the shop's
prefix. The table is joined unless the `JOIN` part *mentions a meta table*, and any text does that
in which the bare name occurs, with whatever in front of it. So the join is missing where another
table's name ends in the same way, as that of a second shop in the same database does: after price
filters were added, the `JOIN` part has the name of the meta table exactly if it had it before or
mentioned no meta table at all (`contains_metaTable_iff`).

The test keeps the join from being added again. The join mentions a meta table, so whatever the
calls and the plans, at most one of them adds it (`join_applyAllPriceClauses`).
-/

namespace Storefront.Plan

variable {plan : Plan} {tablePrefix : String} {clauses : PostsClauses}

/-- The name of the meta table. -/
def metaTable (tablePrefix : String) : String := tablePrefix ++ "postmeta"

/-! ### Names in a text -/

theorem contains_append_of_left {s name : String} (h : s.contains name = true) (t : String) :
    (s ++ t).contains name = true := by
  rw [String.contains_string_iff] at h ⊢
  rw [String.toList_append]
  exact List.infix_append_of_infix_left h

theorem contains_append_of_right {t name : String} (h : t.contains name = true) (s : String) :
    (s ++ t).contains name = true := by
  rw [String.contains_string_iff] at h ⊢
  rw [String.toList_append]
  exact List.infix_append_of_infix_right h

/-- The name of a meta table mentions one. -/
theorem mentionsMeta_of_contains {join : String}
    (h : join.contains (metaTable tablePrefix) = true) : mentionsMeta join = true := by
  rw [mentionsMeta]
  rw [String.contains_string_iff] at h ⊢
  refine List.IsInfix.trans ?_ h
  rw [metaTable, String.toList_append]
  exact (List.suffix_append _ _).isInfix

/-- The join names the meta table. -/
theorem contains_metaJoin (tablePrefix : String) :
    (metaJoin tablePrefix).contains (metaTable tablePrefix) = true := by
  have hsplit : metaJoin tablePrefix = " LEFT JOIN " ++ (metaTable tablePrefix ++
      (" ON " ++ tablePrefix ++ "posts.ID = " ++ tablePrefix ++ "postmeta.post_id")) := by
    show " LEFT JOIN " ++ tablePrefix ++ ("postmeta" ++ " ON ") ++ tablePrefix ++ "posts.ID = " ++
      tablePrefix ++ "postmeta.post_id" = _
    simp only [metaTable, String.append_assoc]
  have hself : (metaTable tablePrefix).contains (metaTable tablePrefix) = true :=
    String.contains_string_iff.2 List.infix_rfl
  rw [hsplit]
  exact contains_append_of_right (contains_append_of_left hself _) _

theorem contains_append_metaJoin (join tablePrefix : String) :
    (join ++ metaJoin tablePrefix).contains (metaTable tablePrefix) = true :=
  contains_append_of_right (contains_metaJoin tablePrefix) join

/-! ### One call -/

/-- A call adds the join if there are price filters and no meta table is mentioned. -/
theorem join_applyPriceClauses (plan : Plan) (tablePrefix : String) (clauses : PostsClauses) :
    (plan.applyPriceClauses tablePrefix clauses).join =
      if plan.priceFilters ≠ [] ∧ mentionsMeta clauses.join = false then
        clauses.join ++ metaJoin tablePrefix
      else clauses.join := by
  rw [applyPriceClauses]
  by_cases hfilters : plan.priceFilters = []
  · rw [if_pos (List.isEmpty_iff.2 hfilters), if_neg fun h ↦ h.1 hfilters]
  · rw [if_neg (mt List.isEmpty_iff.1 hfilters)]
    cases mentionsMeta clauses.join with
    | false => exact (if_pos ⟨hfilters, rfl⟩).symm
    | true => exact (if_neg fun h ↦ Bool.noConfusion h.2).symm

theorem exists_filter_eq_append_priceGuard (h : plan.priceFilters ≠ []) (tablePrefix : String)
    (clauses : PostsClauses) :
    ∃ w, (plan.applyPriceClauses tablePrefix clauses).filter = w ++ priceGuard tablePrefix := by
  rw [applyPriceClauses, if_neg (by simpa using h)]
  exact ⟨_, rfl⟩

/-- The meta table has been joined if the text named it before, or mentioned none. -/
theorem contains_metaTable_iff (h : plan.priceFilters ≠ []) :
    (plan.applyPriceClauses tablePrefix clauses).join.contains (metaTable tablePrefix) = true ↔
      clauses.join.contains (metaTable tablePrefix) = true ∨ mentionsMeta clauses.join = false := by
  rw [join_applyPriceClauses]
  cases hmentions : mentionsMeta clauses.join with
  | false =>
    rw [if_pos ⟨h, rfl⟩]
    exact iff_of_true (contains_append_metaJoin _ _) (.inr rfl)
  | true => simp

/-! ### Calls one after the other -/

/-- The text of a product query to which plans have added their price filters one after the
other. -/
def applyAllPriceClauses (plans : List Plan) (tablePrefix : String) (clauses : PostsClauses) :
    PostsClauses :=
  plans.foldl (fun clauses plan ↦ plan.applyPriceClauses tablePrefix clauses) clauses

/-- Where a meta table is mentioned, no call adds the join. -/
theorem join_applyAllPriceClauses_of_mentionsMeta (plans : List Plan)
    (h : mentionsMeta clauses.join = true) :
    (applyAllPriceClauses plans tablePrefix clauses).join = clauses.join := by
  induction plans generalizing clauses with
  | nil => rfl
  | cons plan plans ih =>
    have hstep : (plan.applyPriceClauses tablePrefix clauses).join = clauses.join := by
      rw [join_applyPriceClauses, if_neg (by simp [h])]
    rw [← hstep] at h
    exact (ih h).trans hstep

/-- Elsewhere the first plan with price filters adds it, and no other one does. -/
theorem join_applyAllPriceClauses (plans : List Plan) (tablePrefix : String)
    (clauses : PostsClauses) :
    (applyAllPriceClauses plans tablePrefix clauses).join =
      if (∃ plan ∈ plans, plan.priceFilters ≠ []) ∧ mentionsMeta clauses.join = false then
        clauses.join ++ metaJoin tablePrefix
      else clauses.join := by
  induction plans generalizing clauses with
  | nil => simp [applyAllPriceClauses]
  | cons plan plans ih =>
    have hcons : applyAllPriceClauses (plan :: plans) tablePrefix clauses =
        applyAllPriceClauses plans tablePrefix (plan.applyPriceClauses tablePrefix clauses) := rfl
    have hstep := join_applyPriceClauses plan tablePrefix clauses
    rw [hcons]
    by_cases hadds : plan.priceFilters ≠ [] ∧ mentionsMeta clauses.join = false
    · -- This call adds the join, which mentions a meta table to all further ones.
      rw [if_pos hadds] at hstep
      have hmentions : mentionsMeta (plan.applyPriceClauses tablePrefix clauses).join = true := by
        rw [hstep]
        exact mentionsMeta_of_contains (contains_append_metaJoin _ _)
      rw [join_applyAllPriceClauses_of_mentionsMeta plans hmentions, hstep,
        if_pos ⟨⟨plan, List.mem_cons_self, hadds.1⟩, hadds.2⟩]
    · rw [if_neg hadds] at hstep
      rw [ih, hstep]
      refine if_congr (and_congr_left fun hmentions ↦ ?_) rfl rfl
      have hnone : ¬ plan.priceFilters ≠ [] := fun hne ↦ hadds ⟨hne, hmentions⟩
      simp only [List.mem_cons, exists_eq_or_imp, or_iff_right hnone]

/-- **The meta table is joined where the text named it or mentioned none, and at most once.** A call
with price filters ends in the condition on the meta table. After it the `JOIN` part has the name of
that table exactly if it had it before or mentioned no meta table. A call adds the join or leaves
the `JOIN` part alone, and of any calls one after the other for the same shop at most one adds
it. -/
theorem contains_metaTable_applyPriceClauses (tablePrefix : String) :
    (∀ (plan : Plan) (clauses : PostsClauses), plan.priceFilters ≠ [] →
      (∃ w, (plan.applyPriceClauses tablePrefix clauses).filter =
        w ++ (" AND " ++ tablePrefix ++ "postmeta.meta_key = '_price'")) ∧
      ((plan.applyPriceClauses tablePrefix clauses).join.contains (tablePrefix ++ "postmeta") =
          true ↔
        clauses.join.contains (tablePrefix ++ "postmeta") = true ∨
          clauses.join.contains "postmeta" = false)) ∧
    (∀ (plan : Plan) (clauses : PostsClauses),
      (plan.applyPriceClauses tablePrefix clauses).join = clauses.join ∨
      (plan.applyPriceClauses tablePrefix clauses).join =
        clauses.join ++ metaJoin tablePrefix) ∧
    ∀ (plans : List Plan) (clauses : PostsClauses),
      (applyAllPriceClauses plans tablePrefix clauses).join =
        if (∃ plan ∈ plans, plan.priceFilters ≠ []) ∧ clauses.join.contains "postmeta" = false then
          clauses.join ++ metaJoin tablePrefix
        else clauses.join := by
  refine ⟨fun plan clauses h ↦ ?_, fun plan clauses ↦ ?_, fun plans clauses ↦ ?_⟩
  · exact ⟨exists_filter_eq_append_priceGuard h tablePrefix clauses, contains_metaTable_iff h⟩
  · rw [join_applyPriceClauses]
    split
    · exact .inr rfl
    · exact .inl rfl
  · exact join_applyAllPriceClauses plans tablePrefix clauses

/-- Hides cheap products. -/
def cheapPlan : Plan := { priceFilters := [⟨0, .less, .ofNat 10⟩] }

/-- Joins the meta table of a second shop in the same database. -/
def otherShopClauses : PostsClauses :=
  { join := " INNER JOIN wp_2_postmeta pm ON pm.post_id = wp_posts.ID" }

/-- From an empty text the table is joined by the first call only. -/
theorem contains_metaTable_applyPriceClauses_cheapPlan :
    cheapPlan.priceFilters ≠ [] ∧
    (cheapPlan.applyPriceClauses "wp_" {}).join.contains "wp_postmeta" = true ∧
    (applyAllPriceClauses [cheapPlan, ∅, cheapPlan] "wp_" {}).join =
      " LEFT JOIN wp_postmeta ON wp_posts.ID = wp_postmeta.post_id" := by
  obtain ⟨hcall, -, hcalls⟩ := contains_metaTable_applyPriceClauses "wp_"
  have hfilters : cheapPlan.priceFilters ≠ [] := List.cons_ne_nil _ _
  have hempty : "".contains "postmeta" = false :=
    String.contains_string_eq_false_iff.2 (by decide)
  have hsome : ∃ plan ∈ [cheapPlan, ∅, cheapPlan], plan.priceFilters ≠ [] :=
    ⟨cheapPlan, List.mem_cons_self, hfilters⟩
  refine ⟨hfilters, (hcall cheapPlan {} hfilters).2.2 (.inr hempty), ?_⟩
  rw [hcalls, if_pos ⟨hsome, hempty⟩]
  rfl

/-- The join is missing where a second shop's meta table is joined: the text does not have the name
of the table that the condition is on. -/
theorem not_contains_metaTable_otherShopClauses :
    cheapPlan.priceFilters ≠ [] ∧
    (cheapPlan.applyPriceClauses "wp_" otherShopClauses).join.contains "wp_postmeta" = false ∧
    (cheapPlan.applyPriceClauses "wp_" otherShopClauses).filter =
      " AND wp_posts.ID NOT IN (SELECT post_id FROM wp_postmeta WHERE meta_key = '_price' AND " ++
        "meta_value < 10) AND wp_postmeta.meta_key = '_price'" := by
  have hmentions : mentionsMeta otherShopClauses.join = true := by
    rw [mentionsMeta, String.contains_string_iff]
    decide
  have hjoin : (cheapPlan.applyPriceClauses "wp_" otherShopClauses).join =
      otherShopClauses.join := by
    rw [join_applyPriceClauses, if_neg (by simp [hmentions])]
  refine ⟨List.cons_ne_nil _ _, ?_, by decide +kernel⟩
  rw [hjoin, String.contains_string_eq_false_iff]
  decide

end Storefront.Plan
