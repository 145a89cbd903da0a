import Storefront.Proofs.Report.Course
/-!
# Rule-sets that were not tested

A rule-set that a run of the paid tier does not test might as well not be configured. Without it the
same rule-sets are tested, in the same order and with the same answers, so the run halts at the same
place and hides the same things; only the schedule is shorter by its index (`reportWith_without`).

This rests on two facts about leaving rule-sets out: the schedule of the others is the schedule
without those left out (`Schedule.order_filter`), and what is tested of a schedule does not depend
on members that are not tested (`tested_filter`).

Two kinds of rule-sets are never tested: blank ones, and those scheduled after the one that halted
the run (`notMem_tested_of_before`).
-/

namespace Storefront.Snapshot

/-- A snapshot without the rule-set of an index. -/
def without (s : Snapshot) (i : UInt64) : Snapshot :=
  { s with rulesets := s.rulesets.filter (·.index ≠ i) }

variable {σ : Type} {s : Snapshot}

/-- Leaving a rule-set out keeps a snapshot ascending, so the library can make what is left. -/
theorem Constructed.without (h : s.Constructed) (i : UInt64) : (s.without i).Constructed :=
  constructed_of_ascending (h.ascending.filter _)

/-! ### Runs of the paid tier -/

theorem schedule_of_paid (hon : s.enabled = true) (hpaid : s.tier = .paid) :
    s.schedule = (Schedule.order s.rulesets).map (·.index) := by
  simp [schedule, hon, hpaid]

/-- A run of the paid tier over an ascending snapshot: the test is mapped over the part of the
schedule that is tested. -/
theorem reportWith_of_paid (h : Ascending s.rulesets) (hon : s.enabled = true)
    (hpaid : s.tier = .paid) (c : Catalog) (holds : Ruleset → StateM σ Bool) :
    s.reportWith c holds =
      (fun answers ↦
        (courseOf (tested (Schedule.order s.rulesets)) answers).report s.schedule c) <$>
        (tested (Schedule.order s.rulesets)).mapM holds := by
  have hfound : s.schedule.filterMap s.get? = Schedule.order s.rulesets := by
    rw [schedule_of_paid hon hpaid]
    exact filterMap_get?_map_index h fun r hr ↦ (Schedule.order_perm s.rulesets).mem_iff.1 hr
  rw [reportWith_eq_map, hfound, hpaid, visit, visitAll_eq_mapM, Functor.map_map]

/-- What a run of the paid tier reports apart from the answers does not depend on them. -/
theorem evaluated_of_paid (h : Ascending s.rulesets) (hon : s.enabled = true)
    (hpaid : s.tier = .paid) (c : Catalog) (holds : Ruleset → StateM σ Bool) (state : σ) :
    ((s.reportWith c holds).run state).1.evaluated =
      (tested (Schedule.order s.rulesets)).map (·.index) := by
  rw [reportWith_of_paid h hon hpaid]
  rfl

theorem haltedAt_of_paid (h : Ascending s.rulesets) (hon : s.enabled = true)
    (hpaid : s.tier = .paid) (c : Catalog) (holds : Ruleset → StateM σ Bool) (state : σ) :
    ((s.reportWith c holds).run state).1.haltedAt =
      ((tested (Schedule.order s.rulesets)).getLast?.filter (·.stopsOthers)).map (·.index) := by
  rw [reportWith_of_paid h hon hpaid]
  rfl

/-! ### Leaving a rule-set out -/

/-- The run without a rule-set that is not tested. -/
theorem reportWith_without_of_notMem (h : Ascending s.rulesets) (hon : s.enabled = true)
    (hpaid : s.tier = .paid) {i : UInt64}
    (hi : i ∉ (tested (Schedule.order s.rulesets)).map (·.index)) (c : Catalog)
    (holds : Ruleset → StateM σ Bool) :
    (s.without i).reportWith c holds =
      (fun report ↦ { report with order := report.order.filter (· ≠ i) }) <$>
        s.reportWith c holds := by
  have hkept : ∀ r ∈ tested (Schedule.order s.rulesets), decide (r.index ≠ i) = true :=
    fun r hr ↦ decide_eq_true fun heq ↦ hi (heq ▸ List.mem_map_of_mem hr)
  have horder : Schedule.order (s.without i).rulesets =
      (Schedule.order s.rulesets).filter (·.index ≠ i) := Schedule.order_filter _ _
  have hschedule : (s.without i).schedule = s.schedule.filter (· ≠ i) := by
    rw [schedule_of_paid hon hpaid, schedule_of_paid (s := s.without i) hon hpaid, horder,
      List.filter_map]
    rfl
  rw [reportWith_of_paid h hon hpaid, reportWith_of_paid (s := s.without i) (h.filter _) hon hpaid,
    horder, tested_filter hkept, hschedule, Functor.map_map]
  rfl

/-! ### Rule-sets after the one that halts -/

/-- The last member of a list comes after all others. -/
theorem eq_or_of_getLast? {α : Type} {R : α → α → Prop} {as : List α} {a b : α}
    (h : as.Pairwise R) (hlast : as.getLast? = some b) (ha : a ∈ as) : a = b ∨ R a b := by
  obtain ⟨front, rfl⟩ := List.getLast?_eq_some_iff.1 hlast
  rcases List.mem_append.1 ha with ha | ha
  · exact .inr ((List.pairwise_append.1 h).2.2 a ha b List.mem_cons_self)
  · exact .inl (List.mem_singleton.1 ha)

/-- What stands behind a member in the images of an ordered list comes of a later member. -/
theorem exists_of_map_eq_append {α β : Type} {R : α → α → Prop} {f : α → β} {as : List α}
    (h : as.Pairwise R) {front back : List β} {b c : β} (hsplit : as.map f = front ++ b :: back)
    (hc : c ∈ back) : ∃ a ∈ as, ∃ d ∈ as, f a = b ∧ f d = c ∧ R a d := by
  obtain ⟨front', rest, rfl, -, hrest⟩ := List.map_eq_append_iff.1 hsplit
  obtain ⟨a, back', rfl, ha, rfl⟩ := List.map_eq_cons_iff.1 hrest
  obtain ⟨d, hd, rfl⟩ := List.mem_map.1 hc
  have htail := (List.pairwise_append.1 h).2.1
  refine ⟨a, ?_, d, ?_, ha, rfl, (List.pairwise_cons.1 htail).1 d hd⟩
  · exact List.mem_append_right _ List.mem_cons_self
  · exact List.mem_append_right _ (List.mem_cons_of_mem _ hd)

/-- What is scheduled after the last tested rule-set is not tested. -/
theorem notMem_tested_of_before (h : Ascending s.rulesets) {last r : Ruleset}
    (hlast : (tested (Schedule.order s.rulesets)).getLast? = some last)
    (hafter : Schedule.Before last r) : r ∉ tested (Schedule.order s.rulesets) := by
  have hsublist : (tested (Schedule.order s.rulesets)).Sublist (Schedule.order s.rulesets) :=
    (List.take_sublist _ _).trans List.filter_sublist
  have hpairwise := (Schedule.pairwise_before_order h).sublist hsublist
  intro hr
  rcases eq_or_of_getLast? hpairwise hlast hr with rfl | hbefore
  · exact hafter.asymm hafter
  · exact hafter.asymm hbefore

/-- **What was not tested has no influence.** Take a run of the paid tier, for a test that may keep
a state. Leaving out a rule-set that was not tested gives a snapshot that the library can make, and
the same run over it: the same tests in the same order, and the same report, in which only the
schedule misses the index. Blank rule-sets are not tested, even if their stop toggle is set, and
neither is anything scheduled after the rule-set that halted the run. -/
theorem reportWith_without (hs : s.Constructed) (hon : s.enabled = true) (hpaid : s.tier = .paid)
    (c : Catalog) (holds : Ruleset → StateM σ Bool) (state : σ) :
    let run := (s.reportWith c holds).run state
    (∀ i ∉ run.1.evaluated, (s.without i).Constructed ∧
      ((s.without i).reportWith c holds).run state =
        ({ run.1 with order := run.1.order.filter (· ≠ i) }, run.2)) ∧
    (∀ r ∈ s.rulesets, r.condition.isBlank = true → r.index ∉ run.1.evaluated) ∧
    (∀ j before after, run.1.haltedAt = some j → run.1.order = before ++ j :: after →
      ∀ i ∈ after, i ∉ run.1.evaluated) := by
  intro run
  have hascending := hs.ascending
  have hperm := Schedule.order_perm s.rulesets
  have hevaluated : run.1.evaluated = (tested (Schedule.order s.rulesets)).map (·.index) :=
    evaluated_of_paid hascending hon hpaid c holds state
  -- An index that was evaluated is that of the rule-set that was tested, and of no other.
  have htested {r : Ruleset} (hr : r ∈ s.rulesets) (hmem : r.index ∈ run.1.evaluated) :
      r ∈ tested (Schedule.order s.rulesets) := by
    rw [hevaluated] at hmem
    obtain ⟨t, ht, hindex⟩ := List.mem_map.1 hmem
    have hscheduled := hperm.mem_iff.1 (List.mem_filter.1 (List.mem_of_mem_take ht)).1
    exact eq_of_index_eq hascending hscheduled hr hindex ▸ ht
  refine ⟨fun i hi ↦ ⟨hs.without i, ?_⟩, fun r hr hblank hmem ↦ ?_, ?_⟩
  · rw [reportWith_without_of_notMem hascending hon hpaid (hevaluated ▸ hi)]
    rfl
  · rw [isBlank_of_mem_tested (htested hr hmem)] at hblank
    cases hblank
  · intro j before after hhalted horder i hi hmem
    rw [show run.1.haltedAt = _ from haltedAt_of_paid hascending hon hpaid c holds state,
      Option.map_eq_some_iff] at hhalted
    obtain ⟨last, hfilter, rfl⟩ := hhalted
    have hlast := (Option.filter_eq_some_iff.1 hfilter).1
    rw [show run.1.order = s.schedule from rfl, schedule_of_paid hon hpaid] at horder
    obtain ⟨q, hq, r, hr, hindex, rfl, hafter⟩ :=
      exists_of_map_eq_append (Schedule.pairwise_before_order hascending) horder hi
    have hscheduled : last ∈ Schedule.order s.rulesets :=
      (List.mem_filter.1 (List.mem_of_mem_take (List.mem_of_getLast? hlast))).1
    obtain rfl : q = last :=
      eq_of_index_eq hascending (hperm.mem_iff.1 hq) (hperm.mem_iff.1 hscheduled) hindex
    exact notMem_tested_of_before hascending hlast hafter (htested (hperm.mem_iff.1 hr) hmem)

/-- Neither the blank rule-set at the front of the schedule nor the one behind the rule-set that
stops the run was tested. Without the blank one the run is the same. -/
theorem reportWith_without_crowdedSnapshot :
    crowdedSnapshot.Constructed ∧ crowdedSnapshot.enabled = true ∧ crowdedSnapshot.tier = .paid ∧
      ((crowdedSnapshot.without 1).reportWith (∅ : Inventory).catalog recordingTest).run [] =
        ({ order := [0, 2, 3], evaluated := [0, 2], matched := [0], haltedAt := some 2,
           plan := { products := IdSet.ofList [100] } }, [0, 2]) ∧
      3 ∉ ((crowdedSnapshot.reportWith (∅ : Inventory).catalog recordingTest).run
        []).1.evaluated := by
  have h : crowdedSnapshot.Constructed := .put _ (.put _ (.put _ (.put _ (.empty .paid))))
  have hrun : (crowdedSnapshot.reportWith (∅ : Inventory).catalog recordingTest).run [] =
      ({ order := [1, 0, 2, 3], evaluated := [0, 2], matched := [0], haltedAt := some 2,
         plan := { products := IdSet.ofList [100] } }, [0, 2]) := by
    rw [reportWith_of_paid h.ascending rfl rfl, schedule_of_paid rfl rfl,
      rulesets_crowdedSnapshot]
    rfl
  have hresult := reportWith_without h rfl rfl (∅ : Inventory).catalog recordingTest []
  rw [hrun] at hresult ⊢
  obtain ⟨hrest, -, hafter⟩ := hresult
  exact ⟨h, rfl, rfl, (hrest 1 (by decide)).2, hafter 2 [1, 0] [3] rfl rfl 3 List.mem_cons_self⟩

end Storefront.Snapshot
