import Storefront.Proofs.Report.Course
/-!
# What it takes to match

For a test without a state, such as evaluating the condition for a request, a run comes down to
lists: what is tested is known beforehand, and what matched is that list filtered (`report_eq`,
`matched_report`). So an index in a report belongs to a rule-set of the snapshot whose condition
holds (`exists_of_mem_matched`); in the free tier it is the index of the first one, which tests the
active product count.
-/

namespace Storefront

theorem accepted_map {α : Type} (as : List α) (p : α → Bool) :
    accepted as (as.map p) = as.filter p := by
  induction as with
  | nil => rfl
  | cons a as ih => rw [List.map_cons, accepted_cons, ih, List.filter_cons]

theorem mem_of_mem_accepted {α : Type} {a : α} {as : List α} {answers : List Bool}
    (h : a ∈ accepted as answers) : a ∈ as := by
  obtain ⟨⟨b, hit⟩, hpair, rfl⟩ := List.mem_map.1 h
  exact (List.of_mem_zip (List.mem_filter.1 hpair).1).1

namespace Snapshot

/-- The rule-sets that a run over the given ones tests. -/
def testedIn : Tier → List Ruleset → List Ruleset
  | .free, rs => testedFirst rs
  | .paid, rs => tested rs

/-- The index at which a run over the given rule-sets halts. -/
def haltedIn : Tier → List Ruleset → Option UInt64
  | .free, _ => none
  | .paid, rs => ((tested rs).getLast?.filter (·.stopsOthers)).map (·.index)

theorem mem_of_mem_testedIn {tier : Tier} {r : Ruleset} {rs : List Ruleset}
    (h : r ∈ testedIn tier rs) : r ∈ rs := by
  cases tier with
  | free => exact List.mem_of_mem_head? (Option.mem_toList.1 (List.mem_filter.1 h).1)
  | paid => exact (List.mem_filter.1 (List.mem_of_mem_take h)).1

theorem enabled_of_mem_schedule {s : Snapshot} {i : UInt64} (h : i ∈ s.schedule) :
    s.enabled = true := by
  rw [schedule] at h
  split at h
  · next hon => exact hon
  · cases h

theorem head?_of_mem_schedule {s : Snapshot} {i : UInt64} (hfree : s.tier = .free)
    (h : i ∈ s.schedule) : s.rulesets.head?.map (·.index) = some i := by
  rw [schedule, if_pos (enabled_of_mem_schedule h), hfree] at h
  exact Option.mem_toList.1 h

/-- What matched was looked at, whatever the test does. -/
theorem mem_of_mem_matched_visit {σ : Type} {tier : Tier} {holds : Ruleset → StateM σ Bool}
    {rs : List Ruleset} {state : σ} {r : Ruleset}
    (h : r ∈ ((visit tier holds rs).run state).1.matched) : r ∈ rs := by
  suffices htested : r ∈ testedIn tier rs from mem_of_mem_testedIn htested
  cases tier with
  | free =>
    rw [visit, visitFirst_eq_mapM] at h
    exact mem_of_mem_accepted h
  | paid =>
    rw [visit, visitAll_eq_mapM] at h
    exact mem_of_mem_accepted h

/-- A run whose test keeps no state. -/
theorem visit_pure (tier : Tier) (test : Ruleset → Bool) (rs : List Ruleset) :
    visit tier (fun r ↦ (pure (test r) : StateM Unit Bool)) rs =
      pure
        { evaluated := testedIn tier rs
          matched := (testedIn tier rs).filter test
          haltedAt := haltedIn tier rs } := by
  cases tier with
  | free =>
    rw [visit, visitFirst_eq_mapM, List.mapM_pure, map_pure, courseOf, accepted_map]
    rfl
  | paid =>
    rw [visit, visitAll_eq_mapM, List.mapM_pure, map_pure, courseOf, accepted_map]
    rfl

/-- The report of a run over the rule-sets that are found under the scheduled indices. -/
theorem report_eq (s : Snapshot) (r : Request) (c : Catalog) :
    let found := s.schedule.filterMap s.get?
    let matched := (testedIn s.tier found).filter (·.condition.evaluate r c)
    s.report r c =
      { order := s.schedule
        evaluated := (testedIn s.tier found).map (·.index)
        matched := matched.map (·.index)
        haltedAt := haltedIn s.tier found
        plan := Plan.empty.absorbAll c matched } := by
  intro found matched
  rw [report, reportWith_eq_map, visit_pure]
  rfl

/-- What matched is what was tested and holds. -/
theorem matched_report (s : Snapshot) (r : Request) (c : Catalog) :
    (s.report r c).matched =
      ((testedIn s.tier (s.schedule.filterMap s.get?)).filter
        (·.condition.evaluate r c)).map (·.index) := by
  rw [report_eq]

/-- A matched index is that of a rule-set of the snapshot whose condition holds. The snapshot is
switched on, and in the free tier the index is the first one and the active product count is
tested. -/
theorem exists_of_mem_matched {s : Snapshot} {r : Request} {c : Catalog} {i : UInt64}
    (h : i ∈ (s.report r c).matched) :
    ∃ rule ∈ s.rulesets, rule.index = i ∧ rule.condition.evaluate r c = true ∧
      s.enabled = true ∧
      (s.tier = .free → s.rulesets.head?.map (·.index) = some i ∧
        rule.condition.fact? = some (.numeric .activeProductCount)) := by
  rw [matched_report] at h
  obtain ⟨rule, hrule, rfl⟩ := List.mem_map.1 h
  obtain ⟨htested, hholds⟩ := List.mem_filter.1 hrule
  obtain ⟨j, hj, hfound⟩ := List.mem_filterMap.1 (mem_of_mem_testedIn htested)
  -- The list need not be ascending: what is found under an index has it in any case.
  obtain rfl : rule.index = j := index_of_search hfound
  refine ⟨rule, mem_of_search hfound, rfl, hholds, enabled_of_mem_schedule hj, fun hfree ↦ ?_⟩
  rw [hfree] at htested
  exact ⟨head?_of_mem_schedule hfree hj, of_decide_eq_true (List.mem_filter.1 htested).2⟩

end Snapshot

end Storefront
