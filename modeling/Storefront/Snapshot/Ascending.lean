import Storefront.Snapshot.Basic
/-!
# Ascending snapshots

What holds of snapshots whose rule-sets are strictly ascending by index: putting a rule-set in keeps
them so, and looking an index up by halving finds what is there.

Both rest on where the halving ends (`exists_probe_eq`): in front of the place are smaller indices
only, and behind it larger ones. So a rule-set that is put in stands between the smaller and the
larger indices, instead of the one of its own index if there was one (`exists_putRuleset_eq`).

* `ascending_putRuleset`: the order is kept.
* `search_eq_find?`: halving finds what looking at every rule-set finds.
* `get?_put`: an index has the rule-set that was put there last.
-/

namespace Storefront.Snapshot

/-- Whether rule-sets are listed strictly ascending by index. -/
def Ascending (rs : List Ruleset) : Prop := rs.Pairwise fun r s ↦ r.index < s.index

/-! ### Where halving ends -/

/-- In an ascending list, what stands before a place has a smaller index than what stands there. -/
theorem index_lt_of_mem_take {rs : List Ruleset} (h : Ascending rs) {n : Nat} {r s : Ruleset}
    (hr : rs[n]? = some r) (hs : s ∈ rs.take n) : s.index < r.index := by
  obtain ⟨hn, rfl⟩ := List.getElem?_eq_some_iff.1 hr
  obtain ⟨k, hk, rfl⟩ := List.mem_take_iff_getElem.1 hs
  exact List.pairwise_iff_getElem.1 h k n _ hn (by omega)

/-- In an ascending list, what stands at a place has at most the index of what stands later. -/
theorem index_le_of_mem_drop {rs : List Ruleset} (h : Ascending rs) {m n : Nat} (hmn : m ≤ n)
    {r s : Ruleset} (hr : rs[m]? = some r) (hs : s ∈ rs.drop n) : r.index ≤ s.index := by
  obtain ⟨hm, rfl⟩ := List.getElem?_eq_some_iff.1 hr
  obtain ⟨k, hk, rfl⟩ := List.mem_drop_iff_getElem.1 hs
  rcases Nat.eq_or_lt_of_le (Nat.le_trans hmn (Nat.le_add_right n k)) with heq | hlt
  · simp [heq]
  · exact UInt64.le_of_lt (List.pairwise_iff_getElem.1 h m (n + k) hm _ hlt)

/-- An ascending list is cut where halving ends: smaller indices in front of the place, larger ones
behind it. -/
theorem exists_probe_eq {i : UInt64} {rs : List Ruleset} (h : Ascending rs) (hne : rs ≠ []) :
    ∃ front s back, rs = front ++ s :: back ∧ probe i rs = front.length ∧
      (∀ t ∈ front, t.index < i) ∧ ∀ t ∈ back, i < t.index := by
  fun_induction probe i rs with
  | case1 rs hlen =>
    have hlength : rs.length = 1 :=
      Nat.le_antisymm hlen (List.length_pos_iff.2 hne)
    obtain ⟨s, rfl⟩ := List.length_eq_one_iff.1 hlength
    exact ⟨[], s, [], rfl, rfl, List.forall_mem_nil _, List.forall_mem_nil _⟩
  | case2 rs hlen middle hmiddle hlt ih =>
    obtain ⟨front, s, back, htake, hplace, hfront, hback⟩ :=
      ih (h.sublist (List.take_sublist _ _)) (by simp [hne]; omega)
    refine ⟨front, s, back ++ rs.drop (rs.length - rs.length / 2), ?_, hplace, hfront, ?_⟩
    · rw [← List.cons_append, ← List.append_assoc, ← htake, List.take_append_drop]
    · intro t ht
      rcases List.mem_append.1 ht with ht | ht
      · exact hback t ht
      · exact UInt64.lt_of_lt_of_le hlt (index_le_of_mem_drop h (by omega) hmiddle ht)
  | case3 rs hlen middle hmiddle hnlt ih =>
    obtain ⟨front, s, back, hdrop, hplace, hfront, hback⟩ :=
      ih (h.sublist (List.drop_sublist _ _)) (by simp; omega)
    refine ⟨rs.take (rs.length / 2) ++ front, s, back, ?_, ?_, ?_, hback⟩
    · rw [List.append_assoc, ← hdrop, List.take_append_drop]
    · rw [hplace, List.length_append, List.length_take, Nat.min_eq_left (Nat.div_le_self _ _)]
    · intro t ht
      rcases List.mem_append.1 ht with ht | ht
      · exact UInt64.lt_of_lt_of_le (index_lt_of_mem_take h hmiddle ht) (UInt64.not_lt.1 hnlt)
      · exact hfront t ht
  | case4 rs hlen hnone =>
    have := List.getElem?_eq_none_iff.1 hnone
    omega

/-! ### Looking up -/

theorem search_nil (i : UInt64) : search i [] = none := rfl

/-- In an ascending list, halving finds what looking at every rule-set finds. -/
theorem search_eq_find? {i : UInt64} {rs : List Ruleset} (h : Ascending rs) :
    search i rs = rs.find? (·.index == i) := by
  by_cases hne : rs = []
  · rw [hne]
    rfl
  obtain ⟨front, s, back, heq, hplace, hfront, hback⟩ := exists_probe_eq (i := i) h hne
  have hfront' : front.find? (·.index == i) = none :=
    List.find?_eq_none.2 fun t ht ↦ by simpa using UInt64.ne_of_lt (hfront t ht)
  have hback' : back.find? (·.index == i) = none :=
    List.find?_eq_none.2 fun t ht ↦ by simpa using Ne.symm (UInt64.ne_of_lt (hback t ht))
  rw [search, hplace, heq, List.getElem?_append_right (Nat.le_refl _), Nat.sub_self,
    List.getElem?_cons_zero, List.find?_append, hfront', Option.none_or, List.find?_cons, hback',
    Option.filter_some]
  cases s.index == i <;> rfl

/-! ### Putting in -/

theorem insertIdx_append_length {α : Type} (front back : List α) (a : α) :
    (front ++ back).insertIdx front.length a = front ++ a :: back := by
  induction front with
  | nil => rfl
  | cons b front ih => rw [List.cons_append, List.length_cons, List.insertIdx_succ_cons, ih]; rfl

theorem putRuleset_nil (r : Ruleset) : putRuleset r [] = [r] := by
  simp [putRuleset]

/-- Putting a rule-set into an ascending list puts it behind the smaller and in front of the larger
indices. What else was there is the one of its own index that it replaces. -/
theorem exists_putRuleset_eq {rs : List Ruleset} (h : Ascending rs) (r : Ruleset) :
    ∃ front back, putRuleset r rs = front ++ r :: back ∧
      (∀ t ∈ front, t.index < r.index) ∧ (∀ t ∈ back, r.index < t.index) ∧
      (rs = front ++ back ∨ ∃ s, s.index = r.index ∧ rs = front ++ s :: back) := by
  by_cases hne : rs = []
  · subst hne
    exact ⟨[], [], putRuleset_nil r, List.forall_mem_nil _, List.forall_mem_nil _, .inl rfl⟩
  obtain ⟨front, s, back, heq, hplace, hfront, hback⟩ := exists_probe_eq (i := r.index) h hne
  have hfound : (front ++ s :: back)[front.length]? = some s := by simp
  rw [putRuleset, hplace, heq]
  simp only [hfound]
  split
  · next hindex =>
    exact ⟨front, back, by simp, hfront, hback, .inr ⟨s, hindex, rfl⟩⟩
  next hindex =>
  split
  · next hlt =>
    refine ⟨front ++ [s], back, ?_, ?_, hback, .inl (by simp)⟩
    · have hbehind := insertIdx_append_length (front ++ [s]) back r
      rwa [List.append_assoc, List.length_append] at hbehind
    · exact List.forall_mem_append.2 ⟨hfront, List.forall_mem_singleton.2 hlt⟩
  · next hnlt =>
    have hlt : r.index < s.index := UInt64.lt_of_le_of_ne (UInt64.not_lt.1 hnlt) (Ne.symm hindex)
    refine ⟨front, s :: back, ?_, hfront, List.forall_mem_cons.2 ⟨hlt, hback⟩, .inl rfl⟩
    exact insertIdx_append_length front (s :: back) r

/-- Putting a rule-set in keeps the list ascending. -/
theorem ascending_putRuleset {r : Ruleset} {rs : List Ruleset} (h : Ascending rs) :
    Ascending (putRuleset r rs) := by
  obtain ⟨front, back, hput, hfront, hback, hrs⟩ := exists_putRuleset_eq h r
  -- Without the rule-set the list is a part of the one that was ascending before.
  have hrest : Ascending (front ++ back) := by
    rcases hrs with rfl | ⟨s, -, rfl⟩
    · exact h
    · exact h.sublist ((List.sublist_cons_self s back).append_left front)
  obtain ⟨hascending, hascending', hcross⟩ := List.pairwise_append.1 hrest
  rw [hput]
  refine List.pairwise_append.2 ⟨hascending, List.pairwise_cons.2 ⟨hback, hascending'⟩, ?_⟩
  exact fun t ht ↦ List.forall_mem_cons.2 ⟨hfront t ht, hcross t ht⟩

/-- Looking through the list after putting a rule-set in: its index has it, and every other index
has what it had. -/
theorem find?_putRuleset {rs : List Ruleset} (h : Ascending rs) (r : Ruleset) (i : UInt64) :
    (putRuleset r rs).find? (·.index == i) =
      if r.index = i then some r else rs.find? (·.index == i) := by
  obtain ⟨front, back, hput, hfront, -, hrs⟩ := exists_putRuleset_eq h r
  rw [hput]
  split
  · next hi =>
    have hnone : front.find? (·.index == i) = none :=
      List.find?_eq_none.2 fun t ht ↦ by simpa [hi] using UInt64.ne_of_lt (hi ▸ hfront t ht)
    simp [List.find?_append, hnone, hi]
  · next hi =>
    rcases hrs with rfl | ⟨s, hs, rfl⟩
    · simp [List.find?_append, hi]
    · simp [List.find?_append, hi, hs]

/-- After putting a rule-set in its index has it, and every other index has what it had. -/
theorem get?_put {s : Snapshot} (h : Ascending s.rulesets) (r : Ruleset) (i : UInt64) :
    (s.put r).get? i = if r.index = i then some r else s.get? i := by
  rw [get?, get?, search_eq_find? h, put, search_eq_find? (ascending_putRuleset h),
    find?_putRuleset h]

/-- In a list that is not ascending the search may end in the wrong place, and a rule-set that is
there already is not replaced. -/
example (r s : Ruleset) (hr : r.index = 4) (hs : s.index = 1) :
    putRuleset r [r, s] = [r, s, r] := by
  simp [putRuleset, probe, hr, hs]

end Storefront.Snapshot
