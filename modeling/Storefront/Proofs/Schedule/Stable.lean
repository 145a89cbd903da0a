import Storefront.Proofs.Schedule.Order
import Storefront.Proofs.Schedule.Repair
/-!
# The stable order

A list of rule-sets may hold an index or a priority any number of times, so what a schedule does to
it is said of positions. Their order `Precedes` is asymmetric, and the scheduled positions stand in
it (`pairwise_positions`). So there is one way to list all positions in this order
(`isStableOrder_iff`), and the schedule lists the rule-sets at these positions (`map_index_order`).
-/

namespace Storefront.Schedule

variable {rs qs : List Ruleset} {ps : List Nat} {i j : Nat}

/-! ### The order of positions -/

/-- Which of two positions of a list is looked at earlier. -/
inductive Precedes (rs : List Ruleset) (i j : Nat) : Prop where
  /-- The one that holds a priority, if the other one holds none. -/
  | set {p : Int64} (hi : priorityAt rs i = some p) (hj : priorityAt rs j = none)
  /-- The one that holds the smaller priority. -/
  | smaller {p q : Int64} (hi : priorityAt rs i = some p) (hj : priorityAt rs j = some q)
    (h : p < q)
  /-- The one that stands earlier, if the priorities are equal or both are missing. -/
  | earlier (heq : priorityAt rs i = priorityAt rs j) (h : i < j)

theorem Precedes.asymm (h : Precedes rs i j) : ¬ Precedes rs j i := by
  intro h'
  rcases h with ⟨hi, hj⟩ | ⟨hi, hj, hlt⟩ | ⟨heq, hlt⟩ <;>
    rcases h' with ⟨hj', hi'⟩ | ⟨hj', hi', hgt⟩ | ⟨heq', hgt⟩
  all_goals grind [Int64.lt_asymm, Int64.lt_irrefl]

/-- Of rule-sets that are scheduled one after the other, the first one's position precedes. -/
theorem precedes_of_mayPrecede {r s : Ruleset} (hi : rs[i]? = some r) (hj : rs[j]? = some s)
    (h : mayPrecede r s) (htie : mayPrecede s r → i < j) : Precedes rs i j := by
  have hi : priorityAt rs i = r.priority := priorityAt_of_getElem? hi
  have hj : priorityAt rs j = s.priority := priorityAt_of_getElem? hj
  by_cases heq : r.priority = s.priority
  · exact .earlier (by rw [hi, hj, heq]) (htie (mayPrecede_of_priority_eq heq.symm))
  · rcases hr : r.priority with - | p <;> rcases hs : s.priority with - | q
    · exact absurd (hr.trans hs.symm) heq
    · simp [mayPrecede, hr, hs] at h
    · exact .set (hi.trans hr) (hj.trans hs)
    · have hle : p ≤ q := by simpa [mayPrecede, hr, hs] using h
      have hne : p ≠ q := fun hpq ↦ heq (by rw [hr, hs, hpq])
      exact .smaller (hi.trans hr) (hj.trans hs) (Int64.lt_of_le_of_ne hle hne)

/-- The scheduled positions stand in the order of positions. -/
theorem pairwise_positions (rs : List Ruleset) : (positions rs).Pairwise (Precedes rs) := by
  have hlisted : rs.zipIdx.Pairwise fun a b ↦ a.2 < b.2 := by
    have hrange : (rs.zipIdx.map (·.2)).Pairwise (· < ·) := by
      rw [List.zipIdx_map_snd]
      exact List.pairwise_lt_range'
    exact List.pairwise_map.1 hrange
  have hsorted : (stableSort mayPrecedeAt rs.zipIdx).Pairwise fun a b ↦ mayPrecedeAt a b :=
    pairwise_stableSort (fun a b c ↦ mayPrecede_trans a.1 b.1 c.1)
      (fun a b ↦ mayPrecede_total a.1 b.1) _
  have hmem : ∀ a ∈ stableSort mayPrecedeAt rs.zipIdx, rs[a.2]? = some a.1 := fun a ha ↦
    List.mem_zipIdx_iff_getElem?.1 ((stableSort_perm _ _).mem_iff.1 ha)
  refine List.pairwise_map.2 ?_
  refine (hsorted.and (pairwise_stableSort_of_pairwise hlisted)).imp_of_mem ?_
  intro a b ha hb ⟨hle, htie⟩
  exact precedes_of_mayPrecede (hmem a ha) (hmem b hb) hle htie

/-! ### Listing the positions in order -/

/-- A list holds the positions of a list of rule-sets in their order. -/
structure IsStableOrder (rs : List Ruleset) (ps : List Nat) : Prop where
  /-- Every position stands in it once. -/
  perm : ps.Perm (List.range rs.length)
  /-- One position stands in front of another exactly if it precedes it. -/
  sublist_iff {i j : Nat} (hi : i < rs.length) (hj : j < rs.length) :
    [i, j].Sublist ps ↔ Precedes rs i j

/-- Of two elements of a list one stands in front of the other. -/
theorem sublist_or_sublist {α : Type} {a b : α} {as : List α} (ha : a ∈ as) (hb : b ∈ as)
    (hne : a ≠ b) : [a, b].Sublist as ∨ [b, a].Sublist as := by
  obtain ⟨front, back, rfl⟩ := List.append_of_mem ha
  rcases List.mem_append.1 hb with hb | hb
  · exact .inr ((List.singleton_sublist.2 hb).append (List.singleton_sublist.2 List.mem_cons_self))
  · have hback : b ∈ back := (List.mem_cons.1 hb).resolve_left (Ne.symm hne)
    exact .inl ((List.nil_sublist front).append ((List.singleton_sublist.2 hback).cons_cons a))

theorem isStableOrder_of_pairwise (hperm : ps.Perm (List.range rs.length))
    (h : ps.Pairwise (Precedes rs)) : IsStableOrder rs ps where
  perm := hperm
  sublist_iff {i j} hi hj := by
    refine ⟨fun hsub ↦ List.pairwise_iff_forall_sublist.1 h hsub, fun hij ↦ ?_⟩
    have hne : i ≠ j := by
      rintro rfl
      exact hij.asymm hij
    have hmem : ∀ k < rs.length, k ∈ ps := fun k hk ↦ hperm.mem_iff.2 (List.mem_range.2 hk)
    refine (sublist_or_sublist (hmem i hi) (hmem j hj) hne).resolve_right fun hsub ↦ ?_
    exact hij.asymm (List.pairwise_iff_forall_sublist.1 h hsub)

theorem IsStableOrder.pairwise (h : IsStableOrder rs ps) : ps.Pairwise (Precedes rs) := by
  rw [List.pairwise_iff_forall_sublist]
  intro i j hsub
  have hlt : ∀ k ∈ [i, j], k < rs.length := fun k hk ↦
    List.mem_range.1 (h.perm.mem_iff.1 (hsub.subset hk))
  exact (h.sublist_iff (hlt i List.mem_cons_self) (hlt j (by simp))).1 hsub

/-- The scheduled positions are the only list of the positions in their order. -/
theorem isStableOrder_iff : IsStableOrder rs ps ↔ ps = positions rs := by
  have hpositions := isStableOrder_of_pairwise (positions_perm rs) (pairwise_positions rs)
  constructor
  · intro h
    exact (h.perm.trans hpositions.perm.symm).eq_of_pairwise
      (fun _ _ _ _ hij hji ↦ absurd hji hij.asymm) h.pairwise hpositions.pairwise
  · rintro rfl
    exact hpositions

/-- The rule-sets at the scheduled positions, none of which is missing. -/
theorem map_getElem?_positions (rs : List Ruleset) :
    (positions rs).map (rs[·]?) = (order rs).map some := by
  rw [← filterMap_positions, List.map_filterMap_some_eq_filter_map_isSome]
  refine (List.filter_eq_self.2 fun r? hr? ↦ ?_).symm
  obtain ⟨i, hi, rfl⟩ := List.mem_map.1 hr?
  have hlt : i < rs.length := List.mem_range.1 ((positions_perm rs).mem_iff.1 hi)
  rw [List.getElem?_eq_getElem hlt]
  rfl

/-- **Scheduling lists the rule-sets in the one stable order.** Whatever the list of rule-sets, one
list holds each of its positions once and one of them in front of another exactly if it precedes it:
by priority, those without a priority last, and as listed where priority does not decide. The
indices of the scheduled rule-sets are those found at these positions, one for each. -/
theorem map_index_order (rs : List Ruleset) :
    ∃ ps : List Nat, (∀ qs, IsStableOrder rs qs ↔ qs = ps) ∧
      ((order rs).map (·.index)).map some = ps.map fun i ↦ rs[i]?.map (·.index) := by
  refine ⟨positions rs, fun _ ↦ isStableOrder_iff, ?_⟩
  have hfound : (positions rs).map (fun i ↦ rs[i]?.map (·.index)) =
      ((positions rs).map (rs[·]?)).map (Option.map (·.index)) := by
    rw [List.map_map]
    rfl
  rw [hfound, map_getElem?_positions, List.map_map, List.map_map]
  rfl

end Storefront.Schedule
