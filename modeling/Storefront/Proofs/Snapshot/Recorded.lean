import Storefront.Proofs.Report.Matched
import Storefront.Record.Rules
import Mathlib.Data.List.Perm.Lattice
/-!
# Snapshots read from records

A record lists its rule-sets in any order, and reading keeps the order. But an index is looked up by
halving, and halving finds every rule-set of a list exactly if the list is ascending by index
(`forall_search_iff_ascending`): where two of them stand the wrong way round, the step that parts
them sends at least one to the wrong side.

So a run over a snapshot that was read passes over those rule-sets that are not found, without
a word (`reportWith_of_read`). Nothing is lost of a record that lists them ascending.
-/

namespace Storefront.Snapshot

/-! ### What halving finds -/

section

variable {r s middle : Ruleset} {rs : List Ruleset}

/-- Halving ends inside the list, whatever its order. -/
theorem probe_lt (i : UInt64) (hne : rs ≠ []) : probe i rs < rs.length := by
  fun_induction probe i rs with
  | case1 rs _ => exact List.length_pos_iff.2 hne
  | case2 rs hlen _ _ _ ih =>
    have hplace := ih (by simp [hne]; omega)
    rw [List.length_take] at hplace
    omega
  | case3 rs hlen _ _ _ ih =>
    have hplace := ih (by simp; omega)
    rw [List.length_drop] at hplace
    omega
  | case4 rs hlen _ => omega

theorem search_of_two_le (hlen : 2 ≤ rs.length) (hmiddle : rs[rs.length / 2]? = some middle)
    (i : UInt64) :
    search i rs =
      if i < middle.index then search i (rs.take (rs.length - rs.length / 2))
      else search i (rs.drop (rs.length / 2)) := by
  have hne : rs.take (rs.length - rs.length / 2) ≠ [] :=
    List.ne_nil_of_length_pos (by rw [List.length_take]; omega)
  have hplace := probe_lt i hne
  rw [List.length_take] at hplace
  rw [search, probe, dif_neg (by omega), hmiddle]
  dsimp only
  split
  · rw [search, List.getElem?_take_of_lt (by omega)]
  · rw [search, List.getElem?_drop]

/-- A rule-set of the front half is found there or not at all. -/
theorem search_take_of_found (hnodup : rs.Nodup) (hlen : 2 ≤ rs.length)
    (hmiddle : rs[rs.length / 2]? = some middle) (hr : r ∈ rs.take (rs.length / 2))
    (hfound : search r.index rs = some r) :
    r.index < middle.index ∧ search r.index (rs.take (rs.length - rs.length / 2)) = some r := by
  rw [search_of_two_le hlen hmiddle] at hfound
  split at hfound
  · next hlt => exact ⟨hlt, hfound⟩
  · exact absurd (mem_of_search hfound) (List.disjoint_take_drop hnodup (Nat.le_refl _) hr)

/-- A rule-set of the back half is found there or not at all. -/
theorem search_drop_of_found (hnodup : rs.Nodup) (hlen : 2 ≤ rs.length)
    (hmiddle : rs[rs.length / 2]? = some middle) (hs : s ∈ rs.drop (rs.length / 2))
    (hfound : search s.index rs = some s) :
    middle.index ≤ s.index ∧ search s.index (rs.drop (rs.length / 2)) = some s := by
  rw [search_of_two_le hlen hmiddle] at hfound
  split at hfound
  · next hlt =>
    -- The front part that is searched may hold the middle, but nothing behind it.
    obtain ⟨hsize, rfl⟩ := List.getElem?_eq_some_iff.1 hmiddle
    rw [List.drop_eq_getElem_cons hsize] at hs
    rcases List.mem_cons.1 hs with rfl | hs
    · exact absurd hlt (UInt64.lt_irrefl _)
    · have hfront := mem_of_search hfound
      exact absurd hs (List.disjoint_take_drop hnodup (by omega) hfront)
  · next hle => exact ⟨UInt64.not_lt.1 hle, hfound⟩

/-- Of two rule-sets that are found, the one that stands first has the smaller index. -/
theorem index_lt_of_found (hnodup : rs.Nodup) (hsub : [r, s].Sublist rs)
    (hr : search r.index rs = some r) (hs : search s.index rs = some s) : r.index < s.index := by
  induction hn : rs.length using Nat.strongRecOn generalizing rs with
  | _ n ih =>
    subst hn
    have hlen : 2 ≤ rs.length := hsub.length_le
    have hhalf : rs.length / 2 < rs.length := by omega
    have hmiddle : rs[rs.length / 2]? = some rs[rs.length / 2] := List.getElem?_eq_getElem hhalf
    -- Both stand in front of the cut, or both behind it, or the cut parts them.
    rw [← List.take_append_drop (rs.length / 2) rs, List.sublist_append_iff] at hsub
    obtain ⟨front, back, heq, hfront, hback⟩ := hsub
    match front with
    | [] =>
      obtain rfl : [r, s] = back := heq
      obtain ⟨-, hr⟩ := search_drop_of_found hnodup hlen hmiddle (hback.mem (by simp)) hr
      obtain ⟨-, hs⟩ := search_drop_of_found hnodup hlen hmiddle (hback.mem (by simp)) hs
      exact ih _ (by rw [List.length_drop]; omega) (hnodup.sublist (List.drop_sublist _ _)) hback
        hr hs rfl
    | [a] =>
      obtain ⟨rfl, rfl⟩ := List.cons.inj heq
      obtain ⟨hlt, -⟩ := search_take_of_found hnodup hlen hmiddle (hfront.mem (by simp)) hr
      obtain ⟨hle, -⟩ := search_drop_of_found hnodup hlen hmiddle (hback.mem (by simp)) hs
      exact UInt64.lt_of_lt_of_le hlt hle
    | a :: b :: rest =>
      obtain ⟨rfl, htail⟩ := List.cons.inj heq
      obtain ⟨rfl, hnil⟩ := List.cons.inj htail
      obtain ⟨rfl, -⟩ := List.append_eq_nil_iff.1 hnil.symm
      obtain ⟨-, hr⟩ := search_take_of_found hnodup hlen hmiddle (hfront.mem (by simp)) hr
      obtain ⟨-, hs⟩ := search_take_of_found hnodup hlen hmiddle (hfront.mem (by simp)) hs
      exact ih _ (by rw [List.length_take]; omega) (hnodup.sublist (List.take_sublist _ _))
        (hfront.trans (List.take_sublist_take_left (by omega))) hr hs rfl

/-- Halving finds every rule-set of a list exactly if the list is ascending. -/
theorem forall_search_iff_ascending (hnodup : (rs.map (·.index)).Nodup) :
    (∀ r ∈ rs, search r.index rs = some r) ↔ Ascending rs := by
  constructor
  · intro hfound
    refine List.pairwise_iff_forall_sublist.2 fun {r s} hsub ↦ ?_
    exact index_lt_of_found (.of_map _ hnodup) hsub (hfound r (hsub.mem (by simp)))
      (hfound s (hsub.mem (by simp)))
  · exact fun hascending r hr ↦ search_index_of_mem hascending hr

end

/-! ### The run over a snapshot in any order -/

/-- Without stop toggles every rule-set with a value to compare with is tested. -/
theorem tested_eq_filter {rs : List Ruleset} (h : ∀ r ∈ rs, r.stopsOthers = false) :
    tested rs = rs.filter (!·.condition.isBlank) := by
  induction rs with
  | nil => rfl
  | cons r rs ih =>
    obtain ⟨hstop, hrest⟩ := List.forall_mem_cons.1 h
    cases hblank : r.condition.isBlank with
    | true => rw [tested_cons_of_blank hblank, ih hrest, List.filter_cons_of_neg (by simp [hblank])]
    | false =>
      rw [tested_cons_of_not_stop hblank hstop, ih hrest,
        List.filter_cons_of_pos (by simp [hblank])]

/-- The scheduled rule-sets that are found under their index. -/
def found (s : Snapshot) : List Ruleset :=
  (Schedule.order s.rulesets).filter fun r ↦ s.get? r.index = some r

variable {σ : Type} {s : Snapshot}

theorem mem_found {r : Ruleset} : r ∈ s.found ↔ r ∈ s.rulesets ∧ s.get? r.index = some r := by
  rw [found, List.mem_filter, decide_eq_true_iff, (Schedule.order_perm s.rulesets).mem_iff]

/-- Under the index of a rule-set stands that rule-set or, for all that halving can tell, none. -/
theorem get?_index_eq (hnodup : (s.rulesets.map (·.index)).Nodup) {r : Ruleset}
    (hr : r ∈ s.rulesets) : s.get? r.index = Option.guard (fun r ↦ s.get? r.index = some r) r := by
  cases h : s.get? r.index with
  | none => rw [Option.guard, if_neg (by simp [h])]
  | some t =>
    obtain rfl : t = r :=
      List.inj_on_of_nodup_map hnodup (mem_of_search h) hr (index_of_search h)
    rw [Option.guard, if_pos (decide_eq_true h)]

/-- Of the scheduled rule-sets a run goes on with those that are found. -/
theorem filterMap_get?_order (hnodup : (s.rulesets.map (·.index)).Nodup) :
    ((Schedule.order s.rulesets).map (·.index)).filterMap s.get? = s.found := by
  rw [List.filterMap_map, found, ← List.filterMap_eq_filter]
  exact List.filterMap_congr fun r hr ↦
    get?_index_eq hnodup ((Schedule.order_perm s.rulesets).mem_iff.1 hr)

/-- A run of the paid tier over rule-sets with distinct indices, in any order: the test is mapped
over those of the scheduled rule-sets that are found. -/
theorem reportWith_of_nodup (hon : s.enabled = true) (hpaid : s.tier = .paid)
    (hnodup : (s.rulesets.map (·.index)).Nodup) (c : Catalog) (holds : Ruleset → StateM σ Bool) :
    s.reportWith c holds =
      (fun answers ↦ (courseOf (tested s.found) answers).report
        ((Schedule.order s.rulesets).map (·.index)) c) <$> (tested s.found).mapM holds := by
  have hschedule : s.schedule = (Schedule.order s.rulesets).map (·.index) := by
    simp [schedule, hon, hpaid]
  rw [reportWith_eq_map, hschedule, filterMap_get?_order hnodup, hpaid, visit, visitAll_eq_mapM,
    Functor.map_map]

/-- The rule-sets that a document lists for a snapshot. -/
def listed? (d : Document) : Option (List Ruleset) := do
  let [_, _, rulesets] ← Record.fields? ["enabled", "tier", "rulesets"] d | none
  Record.field? rulesets

/-- A snapshot has the rule-sets that its document lists, in that order. -/
theorem listed?_of_read {d : Document} (h : Record.read? d = some s) :
    listed? d = some s.rulesets := by
  obtain ⟨fields, hfields, h⟩ := Option.bind_eq_some_iff.1 h
  obtain ⟨enabled, tier, rulesets, rfl⟩ :
      ∃ enabled tier rulesets, fields = [enabled, tier, rulesets] := by
    match fields, h with
    | [enabled, tier, rulesets], _ => exact ⟨enabled, tier, rulesets, rfl⟩
  simp only [Option.bind_eq_bind, Option.bind_eq_some_iff, Option.pure_def, Option.some.injEq] at h
  obtain ⟨-, -, -, -, rs, hrs, rfl⟩ := h
  rw [listed?, hfields]
  exact hrs

/-- **A snapshot that was read runs what is found.** Take a record of a snapshot that is switched on
and in the paid tier, whose rule-sets have distinct indices and no stop toggle. What is read has the
rule-sets in the order in which they are listed, and a run asks its test, once each, about those
with a value to compare with that are found under their own index, and about no other. All are found
exactly if the record lists them ascending, and then it asks about all that have a value. -/
theorem reportWith_of_read {d : Document} (hread : Record.read? d = some s)
    (hon : s.enabled = true) (hpaid : s.tier = .paid)
    (hnodup : (s.rulesets.map (·.index)).Nodup) (hstops : ∀ r ∈ s.rulesets, r.stopsOthers = false)
    (c : Catalog) (holds : Ruleset → StateM σ Bool) :
    let asked := s.found.filter (!·.condition.isBlank)
    listed? d = some s.rulesets ∧
    s.reportWith c holds =
      (fun answers ↦
        { order := (Schedule.order s.rulesets).map (·.index)
          evaluated := asked.map (·.index)
          matched := (accepted asked answers).map (·.index)
          haltedAt := none
          plan := Plan.empty.absorbAll c (accepted asked answers) }) <$> asked.mapM holds ∧
    asked.Nodup ∧
    (∀ r, r ∈ asked ↔
      r ∈ s.rulesets ∧ s.get? r.index = some r ∧ r.condition.isBlank = false) ∧
    ((∀ r ∈ s.rulesets, s.get? r.index = some r) ↔ Ascending s.rulesets) ∧
    (Ascending s.rulesets → asked.Perm (s.rulesets.filter (!·.condition.isBlank))) := by
  intro asked
  have hperm := Schedule.order_perm s.rulesets
  have htested : tested s.found = asked :=
    tested_eq_filter fun r hr ↦ hstops r (mem_found.1 hr).1
  have hasked {r : Ruleset} :
      r ∈ asked ↔ r ∈ s.rulesets ∧ s.get? r.index = some r ∧ r.condition.isBlank = false := by
    rw [List.mem_filter, mem_found, Bool.not_eq_true', and_assoc]
  have hlast : asked.getLast?.filter (·.stopsOthers) = none := by
    refine Option.filter_eq_none_iff.2 fun r hr ↦ ?_
    simp [hstops r (hasked.1 (List.mem_of_getLast? hr)).1]
  refine ⟨listed?_of_read hread, ?_, ?_, fun r ↦ hasked,
    forall_search_iff_ascending hnodup, fun hascending ↦ ?_⟩
  · rw [reportWith_of_nodup hon hpaid hnodup, htested]
    simp only [Trace.report, courseOf, hlast, Option.map_none]
  · exact ((hperm.nodup_iff.2 (.of_map _ hnodup)).filter _).filter _
  · have hfound : s.found = Schedule.order s.rulesets :=
      List.filter_eq_self.2 fun r hr ↦
        decide_eq_true (search_index_of_mem hascending (hperm.mem_iff.1 hr))
    rw [show asked = s.found.filter (!·.condition.isBlank) from rfl, hfound]
    exact hperm.filter _

/-- The document of `roleRuleset` for one role. -/
def roleRulesetDocument (index product : Int) : Document :=
  .object [("index", .integer index),
    ("condition", .object [("family", .text "customer_roles"), ("op", .text "includes"),
      ("roles", .list [.text "editor"]), ("has_value", .bool true)]),
    ("priority", .null), ("stop_other_rules", .bool false),
    ("products", .object [("in_categories", .list []), ("products", .list [.integer product]),
      ("variants", .list []), ("attribute_terms", .list []), ("price", .null)]),
    ("categories", .object [("categories", .list []), ("subcategories", .list []),
      ("containing_products", .list []), ("containing_variants", .list []),
      ("product_count", .null)])]

/-- A document that lists the rule-set of index four in front of that of index one. -/
def descendingDocument : Document :=
  .object [("enabled", .bool true), ("tier", .text "paid"),
    ("rulesets", .list [roleRulesetDocument 4 104, roleRulesetDocument 1 101])]

/-- What `descendingDocument` is read as. -/
def descendingSnapshot : Snapshot where
  tier := .paid
  rulesets := [roleRuleset 4 ["editor"] none false, roleRuleset 1 ["editor"] none false]

theorem read_descendingDocument : Record.read? descendingDocument = some descendingSnapshot := rfl

theorem nodup_descendingSnapshot : (descendingSnapshot.rulesets.map (·.index)).Nodup := by
  decide

/-- Halving starts at the rule-set of index one and does not look in front of it. -/
theorem get?_descendingSnapshot : descendingSnapshot.get? 4 = none := by cbv

theorem found_descendingSnapshot :
    descendingSnapshot.found = [roleRuleset 1 ["editor"] none false] := by
  cbv

/-- The run asks about the second rule-set of the document alone. -/
theorem reportWith_of_read_descendingDocument :
    (Record.read? descendingDocument = some descendingSnapshot ∧
      descendingSnapshot.enabled = true ∧ descendingSnapshot.tier = .paid ∧
      (descendingSnapshot.rulesets.map (·.index)).Nodup ∧
      ∀ r ∈ descendingSnapshot.rulesets, r.stopsOthers = false) ∧
    (descendingSnapshot.reportWith (∅ : Inventory).catalog recordingTest).run [] =
      ({ order := [4, 1], evaluated := [1] }, [1]) := by
  have hstops : ∀ r ∈ descendingSnapshot.rulesets, r.stopsOthers = false := by decide
  obtain ⟨-, hreport, -⟩ := reportWith_of_read read_descendingDocument rfl rfl
    nodup_descendingSnapshot hstops (∅ : Inventory).catalog recordingTest
  refine ⟨⟨read_descendingDocument, rfl, rfl, nodup_descendingSnapshot, hstops⟩, ?_⟩
  rw [hreport, found_descendingSnapshot]
  rfl

/-- A rule-set that a document lists, with an index of its own and a value to compare with, may not
be found under that index, and then the run does not ask about it. -/
theorem exists_read_not_found :
    ∃ (d : Document) (s : Snapshot), Record.read? d = some s ∧ s.enabled = true ∧ s.tier = .paid ∧
      (s.rulesets.map (·.index)).Nodup ∧ (∀ r ∈ s.rulesets, r.stopsOthers = false) ∧
      ∃ r ∈ s.rulesets, r.condition.isBlank = false ∧ s.get? r.index = none ∧
        r.index ∉ ((s.reportWith (∅ : Inventory).catalog recordingTest).run []).2 := by
  have hcalls :
      ((descendingSnapshot.reportWith (∅ : Inventory).catalog recordingTest).run []).2 = [1] := by
    rw [reportWith_of_nodup rfl rfl nodup_descendingSnapshot, found_descendingSnapshot]
    rfl
  refine ⟨descendingDocument, descendingSnapshot, read_descendingDocument, rfl, rfl,
    nodup_descendingSnapshot, by decide, roleRuleset 4 ["editor"] none false,
    List.mem_cons_self, rfl, get?_descendingSnapshot, ?_⟩
  rw [hcalls]
  decide

end Storefront.Snapshot
