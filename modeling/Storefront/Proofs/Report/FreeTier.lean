import Storefront.Proofs.Report.Course
/-!
# What a run of the free tier depends on

The free tier looks at the rule-set of the lowest index and at nothing else of it than its
condition, its index and what it hides. So two snapshots whose first rule-sets agree in these
(`Ruleset.SameRule`) give the same run, however they were made, and whatever else they hold:
priorities, stop toggles and further rule-sets are for the paid tier (`reportWith_eq_of_sameRule`).

The test is called once, on the first rule-set, if this tests the active product count, and not at
all otherwise (`reportWith_of_free`). As in the paid tier the statements are between computations,
for a test that may keep a state.
-/

namespace Storefront

/-- Rule-sets that differ in their priority and their stop toggle at most. -/
structure Ruleset.SameRule (r₁ r₂ : Ruleset) : Prop where
  /-- They stand under the same index. -/
  index : r₁.index = r₂.index
  /-- They apply under the same condition. -/
  condition : r₁.condition = r₂.condition
  /-- They hide the same products. -/
  products : r₁.products = r₂.products
  /-- They hide the same categories. -/
  categories : r₁.categories = r₂.categories

/-- Neither a priority nor a stop toggle has an effect on a plan. -/
theorem Ruleset.SameRule.absorb_eq {r₁ r₂ : Ruleset} (h : r₁.SameRule r₂) (plan : Plan)
    (c : Catalog) : plan.absorb c r₁ = plan.absorb c r₂ := by
  rw [Plan.absorb, Plan.absorb, Ruleset.priceFilters, Ruleset.priceFilters, h.index, h.products,
    h.categories]

namespace Snapshot

/-- An enabled snapshot of the free tier that the library makes, with its rule-set of the lowest
index. -/
structure IsFree (s : Snapshot) (first : Ruleset) : Prop where
  /-- It is made by putting rule-sets in, in any order, or loaded. -/
  constructed : s.Constructed
  /-- It is switched on. -/
  enabled : s.enabled = true
  /-- It is not licensed. -/
  tier : s.tier = .free
  /-- The rule-set is among its rule-sets. -/
  mem : first ∈ s.rulesets
  /-- None of them has a lower index. -/
  index_le : ∀ r ∈ s.rulesets, first.index ≤ r.index

/-- In an ascending list the rule-set of the lowest index comes first. -/
theorem head?_of_lowest {rs : List Ruleset} (h : Ascending rs) {first : Ruleset}
    (hmem : first ∈ rs) (hle : ∀ r ∈ rs, first.index ≤ r.index) : rs.head? = some first := by
  match rs with
  | r :: rs =>
    obtain ⟨hhead, -⟩ := List.pairwise_cons.1 h
    rcases List.mem_cons.1 hmem with rfl | htail
    · rfl
    · exact absurd (hhead first htail) (UInt64.not_lt.2 (hle r List.mem_cons_self))

/-- The report of a free run in which the first rule-set was tested. -/
def firstReport (c : Catalog) (first : Ruleset) (hit : Bool) : Report where
  order := [first.index]
  evaluated := [first.index]
  matched := if hit then [first.index] else []
  haltedAt := none
  plan := if hit then Plan.empty.absorb c first else ∅

theorem firstReport_congr {r₁ r₂ : Ruleset} (h : r₁.SameRule r₂) (c : Catalog) :
    firstReport c r₁ = firstReport c r₂ := by
  funext hit
  rw [firstReport, firstReport, h.index, h.absorb_eq]

variable {σ : Type} {s : Snapshot} {first : Ruleset}

/-- A run of the free tier schedules the rule-set of the lowest index. It tests this one if its
condition is about the active product count, and it tests no other. -/
theorem reportWith_of_free (h : s.IsFree first) (c : Catalog) (holds : Ruleset → StateM σ Bool) :
    s.reportWith c holds =
      if first.condition.fact? = some (.numeric .activeProductCount) then
        firstReport c first <$> holds first
      else pure { order := [first.index] } := by
  have hascending := h.constructed.ascending
  have hschedule : s.schedule = [first].map (·.index) := by
    simp [schedule, h.enabled, h.tier, head?_of_lowest hascending h.mem h.index_le]
  have hfound : s.schedule.filterMap s.get? = [first] := by
    rw [hschedule]
    exact filterMap_get?_map_index hascending (List.forall_mem_singleton.2 h.mem)
  rw [reportWith_eq_map, hfound, h.tier, hschedule]
  show _ <$> visitFirst holds [first] = _
  rw [visitFirst]
  split
  · rw [map_bind, ← bind_pure_comp]
    refine congrArg (holds first >>= ·) (funext fun hit ↦ ?_)
    rw [map_pure]
    cases hit <;> rfl
  · rw [map_pure]
    rfl

/-- **The free tier is isolated.** Take two enabled snapshots of the free tier whose rule-sets of the
lowest index agree in everything but their priorities and stop toggles. For a test that looks at the
condition, the two runs are the same computation: the reports are equal, and so is what becomes of
the state of the test. For any test, a run calls it once and on the rule-set of the lowest index, if
this is about the active product count, and reports that rule-set alone; otherwise it does not call
it, and what it reports beside the schedule is empty. Nothing halts the run. -/
theorem reportWith_eq_of_sameRule {s₁ s₂ : Snapshot} {r₁ r₂ : Ruleset} (h₁ : s₁.IsFree r₁)
    (h₂ : s₂.IsFree r₂) (hsame : r₁.SameRule r₂) (c : Catalog) :
    (∀ test : Condition → StateM σ Bool,
      s₁.reportWith c (fun r ↦ test r.condition) = s₂.reportWith c fun r ↦ test r.condition) ∧
    ∀ holds : Ruleset → StateM σ Bool,
      (r₁.condition.fact? = some (.numeric .activeProductCount) →
        s₁.reportWith c holds =
          (fun hit ↦
            { order := [r₁.index]
              evaluated := [r₁.index]
              matched := if hit then [r₁.index] else []
              haltedAt := none
              plan := if hit then Plan.empty.absorb c r₁ else ∅ }) <$> holds r₁) ∧
      (r₁.condition.fact? ≠ some (.numeric .activeProductCount) →
        s₁.reportWith c holds =
          pure
            { order := [r₁.index], evaluated := [], matched := [], haltedAt := none
              plan := ∅ }) := by
  refine ⟨fun test ↦ ?_, fun holds ↦ ⟨fun hfact ↦ ?_, fun hfact ↦ ?_⟩⟩
  · rw [reportWith_of_free h₁, reportWith_of_free h₂, firstReport_congr hsame, hsame.condition,
      hsame.index]
  · exact (reportWith_of_free h₁ c holds).trans (if_pos hfact)
  · exact (reportWith_of_free h₁ c holds).trans (if_neg hfact)

/-- A rule-set on the active product count that hides the product a hundred above its index. -/
def countRuleset (index : UInt64) (priority : Option Int64) (stops : Bool) : Ruleset where
  index := index
  condition := .ofNumeric .activeProductCount .greaterOrEqual (.zero false)
  priority := priority
  stopsOthers := stops
  products := { products := [index + 100] }

/-- The first rule-set is put in last and replaces another one of its index. -/
def unlicensedSnapshot : Snapshot :=
  (((empty .free).put (roleRuleset 3 [] none true)).put (roleRuleset 5 ["editor"] (some 0) true)).put
    (countRuleset 3 (some 9) false)

/-- The test is called once in either run, although the second rule-set of the one has the lower
priority and the only rule-set of the other stops the run. -/
theorem reportWith_eq_unlicensedSnapshot :
    unlicensedSnapshot.IsFree (countRuleset 3 (some 9) false) ∧
      ((empty .free).put (countRuleset 3 none true)).IsFree (countRuleset 3 none true) ∧
      ∀ s ∈ [unlicensedSnapshot, (empty .free).put (countRuleset 3 none true)],
        (s.reportWith (∅ : Inventory).catalog fun _ ↦ do modify (· + 1); pure true).run 0 =
          ({ order := [3], evaluated := [3], matched := [3]
             plan := { products := IdSet.ofList [103] } }, 1) := by
  have hfirst : unlicensedSnapshot.IsFree (countRuleset 3 (some 9) false) :=
    ⟨.put _ (.put _ (.put _ (.empty .free))), rfl, rfl, by decide +kernel, by decide +kernel⟩
  have hother : ((empty .free).put (countRuleset 3 none true)).IsFree (countRuleset 3 none true) :=
    ⟨.put _ (.empty .free), rfl, rfl, by decide +kernel, by decide +kernel⟩
  have hsame : (countRuleset 3 (some 9) false).SameRule (countRuleset 3 none true) :=
    ⟨rfl, rfl, rfl, rfl⟩
  obtain ⟨hequal, hcalled⟩ := reportWith_eq_of_sameRule hfirst hother hsame (∅ : Inventory).catalog
  have hrun := (hcalled fun _ ↦ (do modify (· + 1); pure true : StateM Nat Bool)).1 rfl
  refine ⟨hfirst, hother, List.forall_mem_cons.2 ⟨?_, List.forall_mem_singleton.2 ?_⟩⟩
  · rw [hrun]
    rfl
  · rw [← hequal fun _ ↦ (do modify (· + 1); pure true : StateM Nat Bool), hrun]
    rfl

end Snapshot

end Storefront
