import Storefront.Inventory
import Storefront.Report
import Storefront.Proofs.Schedule.Order
import Storefront.Proofs.Snapshot.Constructed
/-!
# The course of a run

A run asks its test about rule-sets one after the other. Which ones it asks about does not depend on
the answers: in the paid tier they are the scheduled rule-sets with a value to compare with, up to
and with the first whose stop toggle is set (`tested`), and in the free tier the first rule-set if
it tests the active product count (`testedFirst`). So a run is the test mapped over that list, and
everything else in the report is read off the list and the answers.

The test may keep a state, or do anything else between the calls: the equations are between
computations, so they say how often the test is called, on what and in which order.

* `visitAll_eq_mapM`, `visitFirst_eq_mapM`: the run of each tier as one map.
* `reportWith_eq_mapM`: the report of any snapshot that the library makes.
-/

namespace Storefront

/-- Those members of a list whose answer was yes. -/
def accepted {α : Type} (as : List α) (answers : List Bool) : List α :=
  ((as.zip answers).filter (·.2)).map (·.1)

@[simp] theorem accepted_nil {α : Type} (answers : List Bool) :
    accepted ([] : List α) answers = [] := rfl

@[simp] theorem accepted_cons {α : Type} (a : α) (as : List α) (hit : Bool) (answers : List Bool) :
    accepted (a :: as) (hit :: answers) =
      if hit then a :: accepted as answers else accepted as answers := by
  cases hit <;> simp [accepted]

/-- What a report says about the course of a run. -/
def Trace.report (t : Trace) (order : List UInt64) (c : Catalog) : Report where
  order := order
  evaluated := t.evaluated.map (·.index)
  matched := t.matched.map (·.index)
  haltedAt := t.haltedAt
  plan := Plan.empty.absorbAll c t.matched

namespace Snapshot

/-! ### What is tested -/

/-- The rule-sets of a schedule that the paid tier tests: those with a value to compare with, up to
and with the first whose stop toggle is set. -/
def tested (rs : List Ruleset) : List Ruleset :=
  let present := rs.filter (!·.condition.isBlank)
  present.take (present.findIdx (·.stopsOthers) + 1)

/-- The rule-set that the free tier tests: the first one, if it tests the active product count. -/
def testedFirst (rs : List Ruleset) : List Ruleset :=
  rs.head?.toList.filter (·.condition.fact? = some (.numeric .activeProductCount))

theorem isBlank_of_mem_tested {r : Ruleset} {rs : List Ruleset} (h : r ∈ tested rs) :
    r.condition.isBlank = false := by
  have hpresent := (List.mem_filter.1 (List.mem_of_mem_take h)).2
  rwa [Bool.not_eq_true'] at hpresent

theorem tested_cons_of_blank {r : Ruleset} {rs : List Ruleset} (h : r.condition.isBlank = true) :
    tested (r :: rs) = tested rs := by
  simp [tested, h]

theorem tested_cons_of_stop {r : Ruleset} {rs : List Ruleset} (h : r.condition.isBlank = false)
    (hstop : r.stopsOthers = true) : tested (r :: rs) = [r] := by
  simp [tested, h, List.findIdx_cons, hstop]

theorem tested_cons_of_not_stop {r : Ruleset} {rs : List Ruleset}
    (h : r.condition.isBlank = false) (hstop : r.stopsOthers = false) :
    tested (r :: rs) = r :: tested rs := by
  simp [tested, h, List.findIdx_cons, hstop]

/-- Leaving out rule-sets that are not tested does not change what is tested. -/
theorem tested_filter {keep : Ruleset → Bool} {rs : List Ruleset}
    (h : ∀ r ∈ tested rs, keep r = true) : tested (rs.filter keep) = tested rs := by
  induction rs with
  | nil => rfl
  | cons r rs ih =>
    cases hblank : r.condition.isBlank with
    | true =>
      -- A blank rule-set is passed over, whether it is kept or not.
      rw [tested_cons_of_blank hblank] at h ⊢
      cases hkeep : keep r with
      | true => rw [List.filter_cons_of_pos hkeep, tested_cons_of_blank hblank, ih h]
      | false => rw [List.filter_cons_of_neg (by simp [hkeep]), ih h]
    | false =>
      cases hstop : r.stopsOthers with
      | true =>
        rw [tested_cons_of_stop hblank hstop] at h ⊢
        rw [List.filter_cons_of_pos (h r List.mem_cons_self), tested_cons_of_stop hblank hstop]
      | false =>
        rw [tested_cons_of_not_stop hblank hstop] at h ⊢
        rw [List.filter_cons_of_pos (h r List.mem_cons_self),
          tested_cons_of_not_stop hblank hstop, ih fun q hq ↦ h q (List.mem_cons_of_mem _ hq)]

/-! ### The course -/

variable {σ : Type}

/-- The course of a run that tested the given rule-sets and got the given answers. -/
def courseOf (rs : List Ruleset) (answers : List Bool) : Trace where
  evaluated := rs
  matched := accepted rs answers
  haltedAt := (rs.getLast?.filter (·.stopsOthers)).map (·.index)

/-- One more test in front, by a rule-set that does not stop the run. -/
theorem precededBy_courseOf {r : Ruleset} (hstop : r.stopsOthers = false) (rs : List Ruleset)
    (hit : Bool) (answers : List Bool) :
    (courseOf rs answers).precededBy r hit = courseOf (r :: rs) (hit :: answers) := by
  have hhalted :
      (r :: rs).getLast?.filter (·.stopsOthers) = rs.getLast?.filter (·.stopsOthers) := by
    cases rs with
    | nil => simp [hstop]
    | cons s rs => rw [List.getLast?_cons_cons]
  simp only [Trace.precededBy, courseOf, accepted_cons, hhalted]

/-- The run of the paid tier is one map of the test over `tested`. -/
theorem visitAll_eq_mapM (holds : Ruleset → StateM σ Bool) (rs : List Ruleset) :
    visitAll holds rs = courseOf (tested rs) <$> (tested rs).mapM holds := by
  induction rs with
  | nil => rfl
  | cons r rs ih =>
    cases hblank : r.condition.isBlank with
    | true => rw [visitAll, if_pos hblank, ih, tested_cons_of_blank hblank]
    | false =>
      -- The stop toggle is looked at after the test, whatever the answer.
      cases hstop : r.stopsOthers with
      | true =>
        rw [tested_cons_of_stop hblank hstop]
        simp [visitAll, hblank, hstop, courseOf, Trace.precededBy, Option.filter]
      | false =>
        rw [tested_cons_of_not_stop hblank hstop]
        simp [visitAll, hblank, hstop, ih, precededBy_courseOf hstop]

/-- The run of the free tier is one map of the test over `testedFirst`, and nothing halts it. -/
theorem visitFirst_eq_mapM (holds : Ruleset → StateM σ Bool) (rs : List Ruleset) :
    visitFirst holds rs =
      (fun answers ↦ { courseOf (testedFirst rs) answers with haltedAt := none }) <$>
        (testedFirst rs).mapM holds := by
  cases rs with
  | nil => rfl
  | cons r rs =>
    by_cases hfact : r.condition.fact? = some (.numeric .activeProductCount)
    · simp [visitFirst, testedFirst, hfact, courseOf, Trace.precededBy]
    · simp [visitFirst, testedFirst, hfact, courseOf]

/-! ### The report -/

theorem reportWith_eq_map (s : Snapshot) (c : Catalog) (holds : Ruleset → StateM σ Bool) :
    s.reportWith c holds =
      (fun t ↦ t.report s.schedule c) <$> visit s.tier holds (s.schedule.filterMap s.get?) := rfl

/-- Nothing is scheduled in a disabled snapshot, so nothing is visited. -/
theorem visit_nil (tier : Tier) (holds : Ruleset → StateM σ Bool) :
    visit tier holds [] = pure {} := by
  cases tier <;> rfl

/-- **The report of a run**, for a test that may keep a state. A disabled snapshot reports nothing
and asks nothing. In the paid tier the schedule is the rule-sets rearranged by priority and index,
the test is asked once about each of its `tested` members, in order, and the answers decide what
matched and what is hidden; the run halts at the last tested one if its stop toggle is set, whatever
the answer. In the free tier at most the first rule-set is tested and nothing halts the run. -/
theorem reportWith_eq_mapM {s : Snapshot} (h : s.Constructed) (c : Catalog)
    (holds : Ruleset → StateM σ Bool) :
    (s.enabled = false → s.reportWith c holds = pure {}) ∧
    (s.enabled = true → s.tier = .paid →
      let scheduled := Schedule.order s.rulesets
      scheduled.Perm s.rulesets ∧ scheduled.Pairwise Schedule.Before ∧
        s.reportWith c holds =
          (fun answers ↦
            { order := scheduled.map (·.index)
              evaluated := (tested scheduled).map (·.index)
              matched := (accepted (tested scheduled) answers).map (·.index)
              haltedAt := ((tested scheduled).getLast?.filter (·.stopsOthers)).map (·.index)
              plan := Plan.empty.absorbAll c (accepted (tested scheduled) answers) }) <$>
            (tested scheduled).mapM holds) ∧
    (s.enabled = true → s.tier = .free →
      s.reportWith c holds =
        (fun answers ↦
          { order := (s.rulesets.head?.map (·.index)).toList
            evaluated := (testedFirst s.rulesets).map (·.index)
            matched := (accepted (testedFirst s.rulesets) answers).map (·.index)
            haltedAt := none
            plan := Plan.empty.absorbAll c (accepted (testedFirst s.rulesets) answers) }) <$>
          (testedFirst s.rulesets).mapM holds) := by
  refine ⟨fun hoff ↦ ?_, fun hon hpaid ↦ ?_, fun hon hfree ↦ ?_⟩
  · have hschedule : s.schedule = [] := by simp [schedule, hoff]
    rw [reportWith_eq_map, hschedule, List.filterMap_nil, visit_nil, map_pure]
    rfl
  · have hschedule : s.schedule = (Schedule.order s.rulesets).map (·.index) := by
      simp [schedule, hon, hpaid]
    have hperm := Schedule.order_perm s.rulesets
    have hfound : s.schedule.filterMap s.get? = Schedule.order s.rulesets := by
      rw [hschedule]
      exact filterMap_get?_map_index h.ascending fun r hr ↦ hperm.mem_iff.1 hr
    refine ⟨hperm, Schedule.pairwise_before_order h.ascending, ?_⟩
    rw [reportWith_eq_map, hfound, hpaid, visit, visitAll_eq_mapM, Functor.map_map, hschedule]
    rfl
  · have hschedule : s.schedule = s.rulesets.head?.toList.map (·.index) := by
      cases hrs : s.rulesets <;> simp [schedule, hon, hfree, hrs]
    have hfound : s.schedule.filterMap s.get? = s.rulesets.head?.toList := by
      rw [hschedule]
      exact filterMap_get?_map_index h.ascending fun r hr ↦
        List.mem_of_mem_head? (Option.mem_toList.1 hr)
    have hfirst : testedFirst s.rulesets.head?.toList = testedFirst s.rulesets := by
      cases s.rulesets <;> rfl
    rw [reportWith_eq_map, hfound, hfree, visit, visitFirst_eq_mapM, Functor.map_map, hschedule,
      hfirst]
    cases s.rulesets <;> rfl

/-- A rule-set that hides one product and tests the roles, or tests nothing if no role is given. -/
def roleRuleset (index : UInt64) (roles : List String) (priority : Option Int64) (stops : Bool) :
    Ruleset where
  index := index
  condition := .ofRoles .includes roles
  priority := priority
  stopsOthers := stops
  products := { products := [index + 100] }

/-- Four rule-sets: one without a value whose stop toggle is set, two that share a priority and of
which the second stops the run, and one without a priority. -/
def crowdedSnapshot : Snapshot :=
  ((((empty .paid).put (roleRuleset 3 ["editor"] none false)).put
    (roleRuleset 2 ["editor"] (some 5) true)).put
    (roleRuleset 0 ["editor"] (some 5) false)).put (roleRuleset 1 [] (some 0) true)

theorem rulesets_crowdedSnapshot :
    crowdedSnapshot.rulesets =
      [roleRuleset 0 ["editor"] (some 5) false, roleRuleset 1 [] (some 0) true,
        roleRuleset 2 ["editor"] (some 5) true, roleRuleset 3 ["editor"] none false] := by
  decide +kernel

/-- A test that writes down what it is asked about and accepts the rule-set of index zero. -/
def recordingTest (r : Ruleset) : StateM (List UInt64) Bool := do
  modify (· ++ [r.index])
  pure (r.index == 0)

/-- The rule-set without a value is scheduled first and passed over, its stop toggle included. The
one that stops the run does so although it does not match. -/
theorem reportWith_crowdedSnapshot :
    crowdedSnapshot.Constructed ∧ crowdedSnapshot.enabled = true ∧ crowdedSnapshot.tier = .paid ∧
      (crowdedSnapshot.reportWith (∅ : Inventory).catalog recordingTest).run [] =
        ({ order := [1, 0, 2, 3], evaluated := [0, 2], matched := [0], haltedAt := some 2,
           plan := { products := IdSet.ofList [100] } }, [0, 2]) := by
  have h : crowdedSnapshot.Constructed := .put _ (.put _ (.put _ (.put _ (.empty .paid))))
  obtain ⟨-, -, hreport⟩ :=
    (reportWith_eq_mapM h (∅ : Inventory).catalog recordingTest).2.1 rfl rfl
  refine ⟨h, rfl, rfl, ?_⟩
  rw [hreport, rulesets_crowdedSnapshot]
  rfl

end Snapshot

end Storefront
