import Storefront.Ordered.Map
import Storefront.Schedule
import Mathlib.Data.List.Basic
/-!
# Priorities left to their last holders

A repaired list has the positions of the given one. A position keeps its priority exactly if it is
the last holder of it (`IsLastHolder`), and nothing but a priority is ever taken away
(`repairOf_dedupe`). All else is read off this description: each priority that was held is held once
(`existsUnique_priorityAt`), a second repair finds nothing to do (`dedupe_dedupe`), and the
positions that were left alone are scheduled in the same order (`filter_positions_eq`).

`dedupe` looks ahead from every position. The repair can also be made in place, in one pass that
remembers for each priority which position held it last and takes it from there when it is found
again (`dedupeInPlace`). The record is the invariant of the pass: after `k` positions it holds the
last holders among them (`Pass.Reached`).
-/

namespace Storefront.Schedule

/-! ### Holders of priorities -/

/-- The priority at a position of a list, if there is one. -/
def priorityAt (rs : List Ruleset) (i : Nat) : Option Int64 := rs[i]?.bind (·.priority)

/-- A position that holds a priority which no later position holds. -/
def IsLastHolder (rs : List Ruleset) (p : Int64) (i : Nat) : Prop :=
  priorityAt rs i = some p ∧ ∀ j, i < j → priorityAt rs j ≠ some p

/-- How a list of rule-sets is repaired. -/
structure RepairOf (rs qs : List Ruleset) : Prop where
  /-- Positions are neither added nor lost. -/
  length_eq : qs.length = rs.length
  /-- A rule-set without a priority or at the last holder of its priority stays as it is. -/
  kept {i : Nat} {r : Ruleset} (h : rs[i]? = some r)
    (hlast : ∀ p, r.priority = some p → IsLastHolder rs p i) : qs[i]? = some r
  /-- Any other rule-set loses its priority and nothing else. -/
  taken {i : Nat} {r : Ruleset} {p : Int64} (h : rs[i]? = some r) (hp : r.priority = some p)
    (hlast : ¬ IsLastHolder rs p i) : qs[i]? = some { r with priority := none }

variable {rs qs : List Ruleset} {r : Ruleset} {p : Int64} {i j : Nat}

theorem priorityAt_of_getElem? (h : rs[i]? = some r) : priorityAt rs i = r.priority := by
  rw [priorityAt, h, Option.bind_some]

theorem exists_of_priorityAt (h : priorityAt rs i = some p) :
    ∃ r, rs[i]? = some r ∧ r.priority = some p :=
  Option.bind_eq_some_iff.1 h

theorem lt_length_of_priorityAt (h : priorityAt rs i = some p) : i < rs.length := by
  obtain ⟨r, hr, -⟩ := exists_of_priorityAt h
  exact (List.getElem?_eq_some_iff.1 hr).1

theorem IsLastHolder.eq (hi : IsLastHolder rs p i) (hj : IsLastHolder rs p j) : i = j := by
  rcases Nat.lt_trichotomy i j with hlt | heq | hgt
  · exact absurd hj.1 (hi.2 j hlt)
  · exact heq
  · exact absurd hi.1 (hj.2 i hgt)

theorem IsLastHolder.cons (h : IsLastHolder rs p i) (r : Ruleset) :
    IsLastHolder (r :: rs) p (i + 1) := by
  refine ⟨h.1, fun j hj ↦ ?_⟩
  obtain ⟨j, rfl⟩ := Nat.exists_eq_succ_of_ne_zero (Nat.ne_zero_of_lt hj)
  exact h.2 j (Nat.lt_of_succ_lt_succ hj)

/-- A priority that is held has a last holder. -/
theorem exists_isLastHolder (h : priorityAt rs i = some p) : ∃ j, IsLastHolder rs p j := by
  induction rs generalizing i with
  | nil => cases h
  | cons r rs ih =>
    by_cases hlater : ∃ j, priorityAt rs j = some p
    · obtain ⟨j, hj⟩ := hlater
      obtain ⟨k, hk⟩ := ih hj
      exact ⟨k + 1, hk.cons r⟩
    · -- Nobody behind the head holds it, so the head does.
      cases i with
      | succ i => exact absurd ⟨i, h⟩ hlater
      | zero =>
        refine ⟨0, h, fun j hj heq ↦ hlater ?_⟩
        obtain ⟨j, rfl⟩ := Nat.exists_eq_succ_of_ne_zero (Nat.ne_zero_of_lt hj)
        exact ⟨j, heq⟩

/-! ### Reading a repair -/

namespace RepairOf

/-- A priority is held after the repair where it was held last before. -/
theorem priorityAt_eq_some_iff (h : RepairOf rs qs) :
    priorityAt qs i = some p ↔ IsLastHolder rs p i := by
  constructor
  · intro hp
    have hi : i < rs.length := h.length_eq ▸ lt_length_of_priorityAt hp
    have hr : rs[i]? = some rs[i] := List.getElem?_eq_getElem hi
    by_cases hlast : ∀ q, rs[i].priority = some q → IsLastHolder rs q i
    · rw [priorityAt_of_getElem? (h.kept hr hlast)] at hp
      exact hlast p hp
    · obtain ⟨q, hlast⟩ := Classical.not_forall.1 hlast
      obtain ⟨hq, hlast⟩ := Classical.not_imp.1 hlast
      rw [priorityAt_of_getElem? (h.taken hr hq hlast)] at hp
      cases hp
  · intro hlast
    obtain ⟨r, hr, hp⟩ := exists_of_priorityAt hlast.1
    have hkept : qs[i]? = some r := by
      refine h.kept hr fun q hq ↦ ?_
      rw [hp] at hq
      exact Option.some.inj hq ▸ hlast
    rw [priorityAt_of_getElem? hkept, hp]

/-- Each priority that was held is held by one position. -/
theorem existsUnique_priorityAt (h : RepairOf rs qs) (hp : ∃ i, priorityAt rs i = some p) :
    ∃! i, priorityAt qs i = some p := by
  obtain ⟨i, hi⟩ := hp
  obtain ⟨k, hk⟩ := exists_isLastHolder hi
  exact ⟨k, h.priorityAt_eq_some_iff.2 hk, fun j hj ↦ (h.priorityAt_eq_some_iff.1 hj).eq hk⟩

/-- A position that has the priority it had has the rule-set it had. -/
theorem getElem?_eq (h : RepairOf rs qs) (hi : priorityAt qs i = priorityAt rs i) :
    qs[i]? = rs[i]? := by
  cases hr : rs[i]? with
  | none => rwa [List.getElem?_eq_none_iff, h.length_eq, ← List.getElem?_eq_none_iff]
  | some r =>
    refine h.kept hr fun p hp ↦ ?_
    rw [priorityAt_of_getElem? hr, hp] at hi
    exact h.priorityAt_eq_some_iff.1 hi

/-- A repaired list is its own repair. -/
theorem eq_self (h : RepairOf rs qs) {qs' : List Ruleset} (h' : RepairOf qs qs') : qs' = qs := by
  refine List.ext_getElem? fun i ↦ h'.getElem?_eq ?_
  cases hp : priorityAt qs i with
  | some p =>
    refine h'.priorityAt_eq_some_iff.2 ⟨hp, fun j hj hq ↦ ?_⟩
    have heq := (h.priorityAt_eq_some_iff.1 hp).eq (h.priorityAt_eq_some_iff.1 hq)
    exact Nat.ne_of_lt hj heq
  | none =>
    cases hq : priorityAt qs' i with
    | none => rfl
    | some q => exact absurd (h'.priorityAt_eq_some_iff.1 hq).1 (by rw [hp]; simp)

end RepairOf

/-! ### Repairing by looking ahead -/

/-- Whether a rule-set's priority occurs in a list. -/
def isHeldIn (r : Ruleset) (rs : List Ruleset) : Bool :=
  r.priority.isSome && rs.any (·.priority == r.priority)

theorem getElem?_dedupe (rs : List Ruleset) (i : Nat) :
    (dedupe rs)[i]? = rs[i]?.map fun r ↦
      if isHeldIn r (rs.drop (i + 1)) then { r with priority := none } else r := by
  induction rs generalizing i with
  | nil => rfl
  | cons r rs ih =>
    cases i with
    | zero => rfl
    | succ i => exact ih i

theorem isHeldIn_drop_iff (hr : rs[i]? = some r) (hp : r.priority = some p) :
    isHeldIn r (rs.drop (i + 1)) = true ↔ ¬ IsLastHolder rs p i := by
  have hlater : isHeldIn r (rs.drop (i + 1)) = true ↔ ∃ j, i < j ∧ priorityAt rs j = some p := by
    simp only [isHeldIn, hp, Option.isSome_some, Bool.true_and, List.any_eq_true, beq_iff_eq,
      List.mem_iff_getElem?, List.getElem?_drop]
    constructor
    · rintro ⟨s, ⟨j, hs⟩, hq⟩
      exact ⟨i + 1 + j, by omega, (priorityAt_of_getElem? hs).trans hq⟩
    · rintro ⟨j, hj, hq⟩
      obtain ⟨s, hs, hq⟩ := exists_of_priorityAt hq
      refine ⟨s, ⟨j - (i + 1), ?_⟩, hq⟩
      rwa [Nat.add_sub_cancel' hj]
  rw [hlater, IsLastHolder, priorityAt_of_getElem? hr, hp]
  simp

theorem repairOf_dedupe (rs : List Ruleset) : RepairOf rs (dedupe rs) where
  length_eq := by
    induction rs with
    | nil => rfl
    | cons r rs ih => rw [dedupe, List.length_cons, List.length_cons, ih]
  kept {i r} h hlast := by
    have hfree : ¬ isHeldIn r (rs.drop (i + 1)) = true := by
      intro hheld
      obtain ⟨p, hp⟩ := Option.isSome_iff_exists.1 (Bool.and_eq_true_iff.1 hheld).1
      exact (isHeldIn_drop_iff h hp).1 hheld (hlast p hp)
    rw [getElem?_dedupe, h, Option.map_some, if_neg hfree]
  taken {i r p} h hp hlast := by
    rw [getElem?_dedupe, h, Option.map_some, if_pos ((isHeldIn_drop_iff h hp).2 hlast)]

/-- Repairing twice is repairing once. -/
theorem dedupe_dedupe (rs : List Ruleset) : dedupe (dedupe rs) = dedupe rs :=
  (repairOf_dedupe rs).eq_self (repairOf_dedupe (dedupe rs))

/-! ### Repairing in place -/

/-- The list with the priority taken from the position that is on record, if there is one. -/
def takeFrom (holder : Option Nat) (rs : List Ruleset) : List Ruleset :=
  match holder with
  | some i => rs.modify i fun r ↦ { r with priority := none }
  | none => rs

/-- A pass over a list under way. -/
structure Pass where
  /-- The rule-sets as they are by now. -/
  rulesets : List Ruleset
  /-- The position at which each priority was seen last. -/
  holder : OrderedMap Int64 Nat

/-- Looks at one position. A priority that was seen before is taken from the position that held it,
and this position is written down as the one that holds it. -/
def Pass.visit (s : Pass) (i : Nat) : Pass :=
  match priorityAt s.rulesets i with
  | none => s
  | some p => ⟨takeFrom (s.holder.get? p) s.rulesets, s.holder.insert p i⟩

/-- The repair in one pass from the front. -/
def dedupeInPlace (rs : List Ruleset) : List Ruleset :=
  ((List.range rs.length).foldl Pass.visit ⟨rs, ∅⟩).rulesets

/-- A rule-set without the given priority. -/
def release (p : Option Int64) (r : Ruleset) : Ruleset :=
  if r.priority = p then { r with priority := none } else r

theorem release_eq_self {p : Option Int64} (h : r.priority = p → r.priority = none) :
    release p r = r := by
  rw [release]
  split
  · next heq => rw [← h heq]
  · rfl

theorem dedupe_cons (r : Ruleset) (rs : List Ruleset) :
    dedupe (r :: rs) = (if isHeldIn r rs then { r with priority := none } else r) :: dedupe rs :=
  rfl

/-- One more rule-set at the end takes its priority from whoever has it by then. -/
theorem dedupe_append_singleton (rs : List Ruleset) (r : Ruleset) :
    dedupe (rs ++ [r]) = (dedupe rs).map (release r.priority) ++ [r] := by
  induction rs with
  | nil => simp [dedupe]
  | cons s rs ih =>
    have hheld : isHeldIn s (rs ++ [r]) =
        (isHeldIn s rs || (s.priority.isSome && r.priority == s.priority)) := by
      simp [isHeldIn, Bool.and_or_distrib_left]
    rw [List.cons_append, dedupe_cons, dedupe_cons, ih, List.map_cons, List.cons_append, hheld]
    congr 1
    cases isHeldIn s rs with
    | true => exact (release_eq_self fun _ ↦ rfl).symm
    | false =>
      cases hs : s.priority with
      | none => exact (release_eq_self fun _ ↦ hs).symm
      | some p =>
        by_cases heq : some p = r.priority
        · simp [release, hs, ← heq]
        · simp [release, hs, heq, Ne.symm heq]

theorem priorityAt_append_length (rs : List Ruleset) (r : Ruleset) (qs : List Ruleset) :
    priorityAt (rs ++ r :: qs) rs.length = r.priority :=
  priorityAt_of_getElem? (by simp)

theorem priorityAt_append_of_ne (h : i ≠ rs.length) (r : Ruleset) :
    priorityAt (rs ++ [r]) i = priorityAt rs i := by
  rw [priorityAt, priorityAt, List.getElem?_append]
  split
  · rfl
  · next hge =>
    have hgt : rs.length < i := Nat.lt_of_le_of_ne (Nat.not_lt.1 hge) (Ne.symm h)
    rw [List.getElem?_eq_none (by rw [List.length_singleton]; omega),
      List.getElem?_eq_none (Nat.le_of_lt hgt)]

/-- Who holds a priority last once a rule-set has been added at the end. -/
theorem isLastHolder_append_singleton (rs : List Ruleset) (r : Ruleset) (p : Int64) (i : Nat) :
    IsLastHolder (rs ++ [r]) p i ↔
      if r.priority = some p then i = rs.length else IsLastHolder rs p i := by
  have hend : priorityAt (rs ++ [r]) rs.length = r.priority := priorityAt_append_length rs r []
  split
  · next hp =>
    have hlast : IsLastHolder (rs ++ [r]) p rs.length := by
      refine ⟨hend.trans hp, fun j hj hq ↦ ?_⟩
      have hlt := lt_length_of_priorityAt hq
      rw [List.length_append, List.length_singleton] at hlt
      omega
    exact ⟨fun h ↦ h.eq hlast, fun h ↦ h ▸ hlast⟩
  · next hp =>
    have hsame (j : Nat) : priorityAt (rs ++ [r]) j = some p ↔ priorityAt rs j = some p := by
      by_cases hj : j = rs.length
      · refine iff_of_false (fun hq ↦ hp (by rw [← hend, ← hj, hq])) fun hq ↦ ?_
        exact Nat.lt_irrefl _ (hj ▸ lt_length_of_priorityAt hq)
      · rw [priorityAt_append_of_ne hj]
    simp only [IsLastHolder, hsame, Ne]

/-- A priority whose holder is on record is taken from everyone who has it. -/
theorem takeFrom_eq_map_release {holder : Option Nat}
    (h : ∀ i, holder = some i ↔ priorityAt rs i = some p) :
    takeFrom holder rs = rs.map (release (some p)) := by
  refine List.ext_getElem? fun i ↦ ?_
  rw [List.getElem?_map]
  cases holder with
  | none =>
    cases hr : rs[i]? with
    | none => exact hr
    | some r =>
      have hne : r.priority ≠ some p := by
        rw [← priorityAt_of_getElem? hr]
        exact fun hp ↦ nomatch (h i).2 hp
      rw [takeFrom, hr, Option.map_some, release, if_neg hne]
  | some holder =>
    rw [takeFrom, List.getElem?_modify]
    cases hr : rs[i]? with
    | none => rfl
    | some r =>
      have hiff := h i
      rw [priorityAt_of_getElem? hr, Option.some.injEq] at hiff
      simp only [Option.map_eq_map, Option.map_some, release, hiff]

theorem takeFrom_append {holder : Option Nat} (h : ∀ i, holder = some i → i < rs.length)
    (qs : List Ruleset) : takeFrom holder (rs ++ qs) = takeFrom holder rs ++ qs := by
  cases holder with
  | none => rfl
  | some i =>
    have hi : i < rs.length := h i rfl
    refine List.ext_getElem? fun j ↦ ?_
    simp only [takeFrom, List.getElem?_modify, List.getElem?_append, List.length_modify]
    grind

namespace Pass

/-- What holds of a pass that has looked at the front of a list and not at the rest. -/
structure Reached (front rest : List Ruleset) (s : Pass) : Prop where
  /-- The front is repaired, the rest is as it was. -/
  rulesets : s.rulesets = dedupe front ++ rest
  /-- The record holds the last holders of the front. -/
  holder (p : Int64) (i : Nat) : s.holder.get? p = some i ↔ IsLastHolder front p i

variable {front rest : List Ruleset} {s : Pass}

/-- One more position. -/
theorem Reached.visit (h : Reached front (r :: rest) s) :
    Reached (front ++ [r]) rest (s.visit front.length) := by
  have hrepair := repairOf_dedupe front
  have hhere : priorityAt s.rulesets front.length = r.priority := by
    rw [h.rulesets, ← hrepair.length_eq, priorityAt_append_length]
  rw [Pass.visit, hhere]
  cases hp : r.priority with
  | none =>
    have hrelease : (dedupe front).map (release none) = dedupe front :=
      List.map_id'' (fun _ ↦ release_eq_self id) _
    refine ⟨?_, fun q i ↦ ?_⟩
    · rw [dedupe_append_singleton, hp, hrelease, List.append_assoc, List.singleton_append]
      exact h.rulesets
    · rw [isLastHolder_append_singleton, hp, if_neg nofun]
      exact h.holder q i
  | some p =>
    have hrecord (i : Nat) : s.holder.get? p = some i ↔ priorityAt (dedupe front) i = some p :=
      (h.holder p i).trans hrepair.priorityAt_eq_some_iff.symm
    refine ⟨?_, fun q i ↦ ?_⟩
    · show takeFrom (s.holder.get? p) s.rulesets = _
      rw [h.rulesets, takeFrom_append fun i hi ↦ lt_length_of_priorityAt ((hrecord i).1 hi),
        takeFrom_eq_map_release hrecord, dedupe_append_singleton, hp, List.append_assoc,
        List.singleton_append]
    · show (s.holder.insert p front.length).get? q = some i ↔ _
      rw [OrderedMap.get?_insert, isLastHolder_append_singleton, hp]
      by_cases hq : q = p
      · subst hq
        rw [if_pos Std.ReflCmp.compare_self, if_pos rfl, Option.some.injEq, eq_comm]
      · have hne : some p ≠ some q := fun heq ↦ hq (Option.some.inj heq).symm
        rw [if_neg fun heq ↦ hq (Std.LawfulEqCmp.eq_of_compare heq), if_neg hne]
        exact h.holder q i

/-- The rest of a pass. -/
theorem Reached.foldl_visit (h : Reached front rest s) :
    Reached (front ++ rest) [] ((List.range' front.length rest.length).foldl Pass.visit s) := by
  induction rest generalizing front s with
  | nil => simpa using h
  | cons r rest ih =>
    have hrest := ih h.visit
    rw [List.length_append, List.length_singleton, List.append_assoc,
      List.singleton_append] at hrest
    exact hrest

end Pass

/-- The pass makes the same repair. -/
theorem dedupeInPlace_eq_dedupe (rs : List Ruleset) : dedupeInPlace rs = dedupe rs := by
  have hstart : Pass.Reached [] rs ⟨rs, ∅⟩ :=
    ⟨rfl, fun _ _ ↦ ⟨nofun, fun h ↦ nomatch h.1⟩⟩
  have hend := hstart.foldl_visit.rulesets
  rw [List.nil_append, List.append_nil] at hend
  rw [dedupeInPlace, List.range_eq_range']
  exact hend

/-! ### Repairing and scheduling -/

/-- Positions with their rule-sets compare as the rule-sets do. -/
def mayPrecedeAt (a b : Ruleset × Nat) : Bool := mayPrecede a.1 b.1

/-- The positions of a list in the order in which their rule-sets are looked at. -/
def positions (rs : List Ruleset) : List Nat := (stableSort mayPrecedeAt rs.zipIdx).map (·.2)

/-- The rule-sets at the scheduled positions are the scheduled rule-sets. -/
theorem filterMap_positions (rs : List Ruleset) :
    (positions rs).filterMap (rs[·]?) = order rs := by
  have hsort : stableSort mayPrecede (rs.zipIdx.map (·.1)) =
      (stableSort mayPrecedeAt rs.zipIdx).map (·.1) := map_stableSort (fun _ _ ↦ rfl) _
  rw [List.zipIdx_map_fst] at hsort
  rw [order_eq_stableSort, positions, List.filterMap_map, hsort, ← List.filterMap_eq_map]
  refine List.filterMap_congr fun e he ↦ ?_
  exact List.mem_zipIdx_iff_getElem?.1 ((stableSort_perm _ _).mem_iff.1 he)

theorem positions_perm (rs : List Ruleset) : (positions rs).Perm (List.range rs.length) := by
  have hperm := (stableSort_perm mayPrecedeAt rs.zipIdx).map (·.2)
  rwa [List.zipIdx_map_snd, ← List.range_eq_range'] at hperm

/-- Where two lists agree, they list the same rule-sets with their positions. -/
theorem filter_zipIdx_congr (keep : Nat → Bool) (k : Nat) (hlength : rs.length = qs.length)
    (h : ∀ i, keep (i + k) = true → rs[i]? = qs[i]?) :
    (rs.zipIdx k).filter (fun e ↦ keep e.2) = (qs.zipIdx k).filter fun e ↦ keep e.2 := by
  induction rs generalizing qs k with
  | nil => rw [List.length_eq_zero_iff.1 hlength.symm]
  | cons r rs ih =>
    cases qs with
    | nil => cases hlength
    | cons q qs =>
      have htail := ih (k + 1) (Nat.succ.inj hlength) fun i hi ↦
        h (i + 1) (by rwa [Nat.add_assoc, Nat.add_comm 1 k])
      rw [List.zipIdx_cons, List.zipIdx_cons, List.filter_cons, List.filter_cons, htail]
      by_cases hk : keep k = true
      · have hhead : r = q := Option.some.inj (h 0 (by rwa [Nat.zero_add]))
        rw [hhead]
      · rw [if_neg hk, if_neg hk]

theorem filter_positions (keep : Nat → Bool) (rs : List Ruleset) :
    (positions rs).filter keep =
      (stableSort mayPrecedeAt (rs.zipIdx.filter fun e ↦ keep e.2)).map (·.2) := by
  have htrans (a b c : Ruleset × Nat) : mayPrecedeAt a b → mayPrecedeAt b c → mayPrecedeAt a c :=
    mayPrecede_trans a.1 b.1 c.1
  have htotal (a b : Ruleset × Nat) : mayPrecedeAt a b ∨ mayPrecedeAt b a :=
    mayPrecede_total a.1 b.1
  rw [stableSort_filter htrans htotal, positions, List.filter_map]
  rfl

/-- Positions that have the priority they had are scheduled in the order in which they were. -/
theorem RepairOf.filter_positions_eq (h : RepairOf rs qs) :
    (positions qs).filter (fun i ↦ priorityAt qs i == priorityAt rs i) =
      (positions rs).filter fun i ↦ priorityAt qs i == priorityAt rs i := by
  have hsame := filter_zipIdx_congr (fun i ↦ priorityAt qs i == priorityAt rs i) 0 h.length_eq
    fun i hi ↦ h.getElem?_eq (eq_of_beq hi)
  rw [filter_positions, filter_positions, hsame]

end Storefront.Schedule
