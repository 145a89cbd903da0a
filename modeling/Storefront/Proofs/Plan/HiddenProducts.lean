import Storefront.Plan.Query
import Mathlib.Data.List.Nodup
/-!
# Plans applied to a product query

A plan puts its hidden products behind the ids that a product query leaves out already, and its
clauses behind those of the query. It looks for each id in the list that it makes longer meanwhile,
but since a plan hides no product twice, what counts is the list it started from: the new ids are
those of the plan that were not there, ascending (`notIn_applyToQuery`).

What plans do one after the other is described by `AddsExclusions`, which holds of one application
(`addsExclusions_applyToQuery`) and of two runs in sequence (`AddsExclusions.append`), and so of
every run. The products that are left out in the end are a union. They do not depend on the order of
the plans, and a plan that was applied finds all of its products there.
-/

namespace Storefront.Plan

/-! ### Ids behind a list -/

theorem appendId_of_mem {ids : List UInt64} {i : UInt64} (h : i ∈ ids) : appendId ids i = ids :=
  if_pos h

theorem appendId_of_notMem {ids : List UInt64} {i : UInt64} (h : i ∉ ids) :
    appendId ids i = ids ++ [i] :=
  if_neg h

/-- Of ids without repeats, those that are not in the list yet end up behind it, in their order. -/
theorem foldl_appendId {ids : List UInt64} (h : ids.Nodup) (start : List UInt64) :
    ids.foldl appendId start = start ++ ids.filter (· ∉ start) := by
  induction ids generalizing start with
  | nil => simp
  | cons i ids ih =>
    obtain ⟨hi, hids⟩ := List.nodup_cons.1 h
    rw [List.foldl_cons]
    by_cases hmem : i ∈ start
    · rw [appendId_of_mem hmem, ih hids, List.filter_cons_of_neg (by simpa using hmem)]
    · -- The list is longer by an id that does not come again.
      have hsame : ids.filter (· ∉ start ++ [i]) = ids.filter (· ∉ start) := by
        refine List.filter_congr fun k hk ↦ ?_
        have hne : k ≠ i := fun heq ↦ hi (heq ▸ hk)
        simp [hne]
      rw [appendId_of_notMem hmem, ih hids, hsame, List.filter_cons_of_pos (by simpa using hmem),
        List.append_assoc, List.singleton_append]

/-! ### One plan -/

/-- The hidden products of a plan that a product query does not leave out yet, ascending. -/
def newIds (plan : Plan) (args : ProductQueryArgs) : List UInt64 :=
  plan.products.toList.filter (· ∉ args.notIn)

theorem mem_newIds {plan : Plan} {args : ProductQueryArgs} {i : UInt64} :
    i ∈ plan.newIds args ↔ i ∈ plan.products ∧ i ∉ args.notIn := by
  rw [newIds, List.mem_filter, decide_eq_true_iff]
  rfl

theorem pairwise_newIds (plan : Plan) (args : ProductQueryArgs) :
    (plan.newIds args).Pairwise (· < ·) :=
  plan.products.ascending.filter _

theorem notIn_applyToQuery (plan : Plan) (args : ProductQueryArgs) :
    (plan.applyToQuery args).notIn = args.notIn ++ plan.newIds args :=
  foldl_appendId plan.products.nodup_toList args.notIn

/-- A plan whose products are left out already adds none. -/
theorem notIn_applyToQuery_of_forall {plan : Plan} {args : ProductQueryArgs}
    (h : ∀ i, i ∈ plan.products → i ∈ args.notIn) :
    (plan.applyToQuery args).notIn = args.notIn := by
  have hnone : plan.newIds args = [] := by
    refine List.eq_nil_iff_forall_not_mem.2 fun i hi ↦ ?_
    obtain ⟨hplan, hnot⟩ := mem_newIds.1 hi
    exact hnot (h i hplan)
  rw [notIn_applyToQuery, hnone, List.append_nil]

/-! ### Plans one after the other -/

/-- A product query to which plans have been applied one after the other. -/
def applyAllToQuery (plans : List Plan) (args : ProductQueryArgs) : ProductQueryArgs :=
  plans.foldl (fun args plan ↦ plan.applyToQuery args) args

/-- What plans do to a product query: they add exclusions, and do nothing else. -/
structure AddsExclusions (plans : List Plan) (before after : ProductQueryArgs) : Prop where
  /-- The ids that were left out before stay as they are, with their repeats. Behind them stand
  others that were not there, each of them once. -/
  exists_added : ∃ added, after.notIn = before.notIn ++ added ∧ added.Nodup ∧
    ∀ i ∈ added, i ∉ before.notIn
  /-- The products that are left out are those of before and those that some plan hides. -/
  mem_notIn (i : UInt64) : i ∈ after.notIn ↔ i ∈ before.notIn ∨ ∃ plan ∈ plans, i ∈ plan.products
  /-- The clauses of the plans stand behind those of before, in the order of the plans. -/
  taxQuery : after.taxQuery = before.taxQuery ++ plans.flatMap (·.clauses)

theorem addsExclusions_nil (args : ProductQueryArgs) : AddsExclusions [] args args where
  exists_added := ⟨[], (List.append_nil _).symm, .nil, List.forall_mem_nil _⟩
  mem_notIn i := by simp
  taxQuery := (List.append_nil _).symm

theorem addsExclusions_applyToQuery (plan : Plan) (args : ProductQueryArgs) :
    AddsExclusions [plan] args (plan.applyToQuery args) where
  exists_added := ⟨plan.newIds args, notIn_applyToQuery plan args,
    (pairwise_newIds plan args).imp UInt64.ne_of_lt, fun _ hi ↦ (mem_newIds.1 hi).2⟩
  mem_notIn i := by
    simp only [notIn_applyToQuery, List.mem_append, mem_newIds, List.mem_singleton, exists_eq_left]
    constructor
    · rintro (h | ⟨h, -⟩)
      · exact .inl h
      · exact .inr h
    · intro h
      by_cases hmem : i ∈ args.notIn
      · exact .inl hmem
      · exact .inr ⟨h.resolve_left hmem, hmem⟩
  taxQuery := by
    rw [List.flatMap_singleton]
    rfl

/-- Two runs, one after the other. -/
theorem AddsExclusions.append {plans others : List Plan} {before between after : ProductQueryArgs}
    (h : AddsExclusions plans before between) (h' : AddsExclusions others between after) :
    AddsExclusions (plans ++ others) before after where
  exists_added := by
    obtain ⟨added, hadded, hnodup, hnew⟩ := h.exists_added
    obtain ⟨added', hadded', hnodup', hnew'⟩ := h'.exists_added
    rw [hadded, List.append_assoc] at hadded'
    -- What the second run adds was not there after the first one.
    have hapart : ∀ i ∈ added', i ∉ before.notIn ∧ i ∉ added := by
      intro i hi
      have hnot := hnew' i hi
      rw [hadded, List.mem_append, not_or] at hnot
      exact hnot
    refine ⟨added ++ added', hadded', hnodup.append hnodup' fun i hi hi' ↦ (hapart i hi').2 hi, ?_⟩
    intro i hi
    rcases List.mem_append.1 hi with hi | hi
    · exact hnew i hi
    · exact (hapart i hi).1
  mem_notIn i := by
    simp only [h'.mem_notIn, h.mem_notIn, List.mem_append, or_and_right, exists_or, or_assoc]
  taxQuery := by
    rw [h'.taxQuery, h.taxQuery, List.flatMap_append, List.append_assoc]

theorem addsExclusions_run (plans : List Plan) (args : ProductQueryArgs) :
    AddsExclusions plans args (applyAllToQuery plans args) := by
  induction plans generalizing args with
  | nil => exact addsExclusions_nil args
  | cons plan plans ih => exact (addsExclusions_applyToQuery plan args).append (ih _)

/-- **Applying plans only adds exclusions.** Plans that are applied to a product query one after the
other keep what the query leaves out and asks for, and add their hidden products and clauses behind
it. Runs of the same plans, in whatever order and however often each, leave out the same products,
and after a run any of its plans can be applied again without a change to what is left out. Each
single application puts its new ids behind the others in ascending order. -/
theorem addsExclusions_applyAllToQuery (plans : List Plan) (args : ProductQueryArgs) :
    AddsExclusions plans args (applyAllToQuery plans args) ∧
    (∀ others : List Plan, (∀ plan, plan ∈ others ↔ plan ∈ plans) →
      ∀ i, i ∈ (applyAllToQuery others args).notIn ↔ i ∈ (applyAllToQuery plans args).notIn) ∧
    (∀ plan ∈ plans, (plan.applyToQuery (applyAllToQuery plans args)).notIn =
      (applyAllToQuery plans args).notIn) ∧
    ∀ (plan : Plan) (args : ProductQueryArgs), ∃ added,
      (plan.applyToQuery args).notIn = args.notIn ++ added ∧ added.Pairwise (· < ·) ∧
        ∀ i, i ∈ added ↔ i ∈ plan.products ∧ i ∉ args.notIn := by
  have hrun := addsExclusions_run plans args
  refine ⟨hrun, fun others hsame i ↦ ?_, fun plan hplan ↦ ?_, fun plan args ↦ ?_⟩
  · rw [(addsExclusions_run others args).mem_notIn, hrun.mem_notIn]
    simp only [hsame]
  · exact notIn_applyToQuery_of_forall fun i hi ↦ (hrun.mem_notIn i).2 (.inr ⟨plan, hplan, hi⟩)
  · exact ⟨plan.newIds args, notIn_applyToQuery plan args, pairwise_newIds plan args,
      fun _ ↦ mem_newIds⟩

/-- A query that leaves out one product twice. -/
def repeatingQuery : ProductQueryArgs := { notIn := [11, 50, 11] }

/-- Hides a product that the query leaves out, and one that it does not. -/
def firstPlan : Plan := { products := IdSet.ofList [11, 10] }

/-- Hides three products, of which the first plan and the query have one each. -/
def secondPlan : Plan := { products := IdSet.ofList [50, 10, 9], clauses := [.notInCategories [3]] }

/-- The two plans in either order leave out the same products, though not in the same order, and
the first one can be applied again. -/
theorem addsExclusions_repeatingQuery :
    ((applyAllToQuery [firstPlan, secondPlan] repeatingQuery).notIn = [11, 50, 11, 10, 9] ∧
      (applyAllToQuery [secondPlan, firstPlan] repeatingQuery).notIn = [11, 50, 11, 9, 10]) ∧
    ((∀ plan, plan ∈ [secondPlan, firstPlan] ↔ plan ∈ [firstPlan, secondPlan]) ∧
      ∀ i, i ∈ (applyAllToQuery [secondPlan, firstPlan] repeatingQuery).notIn ↔
        i ∈ (applyAllToQuery [firstPlan, secondPlan] repeatingQuery).notIn) ∧
    (firstPlan ∈ [firstPlan, secondPlan] ∧
      (firstPlan.applyToQuery (applyAllToQuery [firstPlan, secondPlan] repeatingQuery)).notIn =
        [11, 50, 11, 10, 9]) := by
  obtain ⟨-, horder, hagain, -⟩ :=
    addsExclusions_applyAllToQuery [firstPlan, secondPlan] repeatingQuery
  have hsame (plan : Plan) :
      plan ∈ [secondPlan, firstPlan] ↔ plan ∈ [firstPlan, secondPlan] :=
    (List.Perm.swap firstPlan secondPlan []).mem_iff
  have hfirst : firstPlan ∈ [firstPlan, secondPlan] := List.mem_cons_self
  have hrun : (applyAllToQuery [firstPlan, secondPlan] repeatingQuery).notIn =
      [11, 50, 11, 10, 9] := by decide
  refine ⟨⟨hrun, by decide⟩, ⟨hsame, horder _ hsame⟩, hfirst, ?_⟩
  rw [hagain firstPlan hfirst, hrun]

end Storefront.Plan
