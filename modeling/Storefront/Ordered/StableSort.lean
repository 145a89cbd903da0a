/-!
# Stable sorting

Insertion sort by a Boolean comparison. Elements that compare both ways keep the order in which they
stood.

* `stableSort_perm`: sorting rearranges.
* `pairwise_stableSort`: what comes out is sorted.
* `filter_stableSort`: elements that may all precede one another come out in their old order.
* `pairwise_stableSort_of_pairwise`: so do any two elements of which either may precede the other.
* `stableSort_eq_self`: what is sorted stays as it is.
* `stableSort_filter`: leaving elements out may come before or after.
* `filter_append_filter_not`: a list in two parts, of which the first passes a test.
* `map_stableSort`: a map that keeps the comparison may come before or after.
-/

namespace Storefront

variable {α : Type}

/-- A list with an element put before the first one that it may precede. -/
def insertBefore (le : α → α → Bool) (a : α) : List α → List α
  | [] => [a]
  | b :: bs => if le a b then a :: b :: bs else b :: insertBefore le a bs

/-- A list sorted, equals in their old order. -/
def stableSort (le : α → α → Bool) : List α → List α
  | [] => []
  | a :: as => insertBefore le a (stableSort le as)

theorem insertBefore_perm (le : α → α → Bool) (a : α) (bs : List α) :
    (insertBefore le a bs).Perm (a :: bs) := by
  induction bs with
  | nil => exact .refl _
  | cons b bs ih =>
    simp only [insertBefore]
    split
    · exact .refl _
    · exact (ih.cons b).trans (.swap a b bs)

/-- Sorting rearranges a list. -/
theorem stableSort_perm (le : α → α → Bool) (as : List α) : (stableSort le as).Perm as := by
  induction as with
  | nil => exact .refl _
  | cons a as ih => exact (insertBefore_perm le a _).trans (ih.cons a)

theorem mem_insertBefore {le : α → α → Bool} {a b : α} {bs : List α} :
    b ∈ insertBefore le a bs ↔ b = a ∨ b ∈ bs := by
  rw [(insertBefore_perm le a bs).mem_iff, List.mem_cons]

/-- Sorting by a total and transitive comparison gives a sorted list. -/
theorem pairwise_stableSort {le : α → α → Bool} (trans : ∀ a b c, le a b → le b c → le a c)
    (total : ∀ a b, le a b ∨ le b a) (as : List α) :
    (stableSort le as).Pairwise fun a b ↦ le a b := by
  induction as with
  | nil => exact .nil
  | cons a as ih =>
    rw [stableSort]
    generalize stableSort le as = bs at ih
    induction bs with
    | nil => simp [insertBefore]
    | cons b bs ihb =>
      obtain ⟨hhead, htail⟩ := List.pairwise_cons.1 ih
      simp only [insertBefore]
      split
      · next hab =>
        refine List.pairwise_cons.2 ⟨fun c hc ↦ ?_, ih⟩
        rcases List.mem_cons.1 hc with rfl | hc
        · exact hab
        · exact trans a b c hab (hhead c hc)
      · next hab =>
        refine List.pairwise_cons.2 ⟨fun c hc ↦ ?_, ihb htail⟩
        rcases mem_insertBefore.1 hc with rfl | hc
        · exact (total c b).resolve_left hab
        · exact hhead c hc

/-- What relates the elements of a list in their order relates, after sorting, any two of which the
later one might precede as well. -/
theorem pairwise_stableSort_of_pairwise {le : α → α → Bool} {R : α → α → Prop} {as : List α}
    (h : as.Pairwise R) : (stableSort le as).Pairwise fun a b ↦ le b a → R a b := by
  induction as with
  | nil => exact .nil
  | cons a as ih =>
    obtain ⟨hhead, htail⟩ := List.pairwise_cons.1 h
    have hsorted := ih htail
    have hall : ∀ b ∈ stableSort le as, R a b := fun b hb ↦
      hhead b ((stableSort_perm le as).mem_iff.1 hb)
    rw [stableSort]
    generalize stableSort le as = bs at hsorted hall
    induction bs with
    | nil => exact List.pairwise_singleton _ _
    | cons b bs ihb =>
      obtain ⟨hfirst, hrest⟩ := List.pairwise_cons.1 hsorted
      simp only [insertBefore]
      split
      · exact List.pairwise_cons.2 ⟨fun c hc _ ↦ hall c hc, hsorted⟩
      · next hab =>
        -- Whatever the new element is put behind must not follow it.
        refine List.pairwise_cons.2 ⟨fun c hc hcb ↦ ?_,
          ihb hrest fun c hc ↦ hall c (List.mem_cons_of_mem _ hc)⟩
        rcases mem_insertBefore.1 hc with rfl | hc
        · exact absurd hcb hab
        · exact hfirst c hc hcb

/-- Among elements that may all precede one another, sorting keeps the order. -/
theorem filter_stableSort {le : α → α → Bool} (p : α → Bool)
    (h : ∀ a b, p a → p b → le a b) (as : List α) :
    (stableSort le as).filter p = as.filter p := by
  induction as with
  | nil => rfl
  | cons a as ih =>
    rw [stableSort, List.filter_cons, ← ih]
    generalize stableSort le as = bs
    induction bs with
    | nil => simp [insertBefore, List.filter_cons]
    | cons b bs ihb =>
      simp only [insertBefore]
      split
      · rw [List.filter_cons]
      · next hab =>
        rw [List.filter_cons, ihb]
        cases hpa : p a <;> cases hpb : p b <;> simp [hpb]
        exact absurd (h a b hpa hpb) hab

/-- An element that may precede all others is put in front. -/
theorem insertBefore_of_forall {le : α → α → Bool} {a : α} {bs : List α} (h : ∀ b ∈ bs, le a b) :
    insertBefore le a bs = a :: bs := by
  cases bs with
  | nil => rfl
  | cons b bs => rw [insertBefore, if_pos (h b List.mem_cons_self)]

/-- Sorting leaves a sorted list as it is. -/
theorem stableSort_eq_self {le : α → α → Bool} {as : List α}
    (h : as.Pairwise fun a b ↦ le a b) : stableSort le as = as := by
  induction as with
  | nil => rfl
  | cons a as ih =>
    obtain ⟨hhead, htail⟩ := List.pairwise_cons.1 h
    rw [stableSort, ih htail, insertBefore_of_forall hhead]

/-- An element that is kept finds its place also among the kept elements of a sorted list. -/
theorem insertBefore_filter {le : α → α → Bool} (trans : ∀ a b c, le a b → le b c → le a c)
    {keep : α → Bool} {a : α} (ha : keep a) {bs : List α} (h : bs.Pairwise fun b c ↦ le b c) :
    insertBefore le a (bs.filter keep) = (insertBefore le a bs).filter keep := by
  induction bs with
  | nil => simp [insertBefore, ha]
  | cons b bs ih =>
    obtain ⟨hhead, htail⟩ := List.pairwise_cons.1 h
    by_cases hab : le a b
    · -- The element precedes the whole rest, so it stands in front of whatever is kept of it.
      have hall : ∀ c ∈ (b :: bs).filter keep, le a c := by
        intro c hc
        rcases List.mem_cons.1 (List.mem_filter.1 hc).1 with rfl | hc
        · exact hab
        · exact trans a b c hab (hhead c hc)
      rw [insertBefore_of_forall hall, insertBefore, if_pos hab, List.filter_cons_of_pos ha]
    · rw [insertBefore, if_neg hab]
      by_cases hb : keep b
      · rw [List.filter_cons_of_pos hb, List.filter_cons_of_pos hb, insertBefore, if_neg hab,
          ih htail]
      · rw [List.filter_cons_of_neg hb, List.filter_cons_of_neg hb, ih htail]

theorem filter_insertBefore_of_not {le : α → α → Bool} {keep : α → Bool} {a : α} (ha : ¬ keep a)
    (bs : List α) : (insertBefore le a bs).filter keep = bs.filter keep := by
  induction bs with
  | nil => simp [insertBefore, ha]
  | cons b bs ih =>
    rw [insertBefore]
    split
    · rw [List.filter_cons_of_neg ha]
    · rw [List.filter_cons, List.filter_cons, ih]

/-- Sorting what is kept of a list is keeping of what was sorted. -/
theorem stableSort_filter {le : α → α → Bool} (trans : ∀ a b c, le a b → le b c → le a c)
    (total : ∀ a b, le a b ∨ le b a) (keep : α → Bool) (as : List α) :
    stableSort le (as.filter keep) = (stableSort le as).filter keep := by
  induction as with
  | nil => rfl
  | cons a as ih =>
    rw [stableSort]
    by_cases ha : keep a
    · rw [List.filter_cons_of_pos ha, stableSort, ih,
        insertBefore_filter trans ha (pairwise_stableSort trans total as)]
    · rw [List.filter_cons_of_neg ha, ih, filter_insertBefore_of_not ha]

/-- A list in which what passes a test stands in front is what passes, followed by the rest. -/
theorem filter_append_filter_not {p : α → Bool} {as : List α}
    (h : as.Pairwise fun a b ↦ p b → p a) : as.filter p ++ as.filter (!p ·) = as := by
  induction as with
  | nil => rfl
  | cons a as ih =>
    obtain ⟨hhead, htail⟩ := List.pairwise_cons.1 h
    by_cases ha : p a
    · rw [List.filter_cons_of_pos ha, List.filter_cons_of_neg (by simp [ha]), List.cons_append,
        ih htail]
    · -- The first one does not pass, so none does.
      have hnone : ∀ b ∈ a :: as, ¬ p b := by
        intro b hb
        rcases List.mem_cons.1 hb with rfl | hb
        · exact ha
        · exact fun hpb ↦ ha (hhead b hb hpb)
      rw [List.filter_eq_nil_iff.2 hnone, List.nil_append, List.filter_eq_self]
      simpa using hnone

/-- Sorting what a map gives, if the map keeps the comparison, is mapping what was sorted. -/
theorem map_stableSort {β : Type} {le : α → α → Bool} {le' : β → β → Bool} {f : α → β}
    (h : ∀ a b, le' (f a) (f b) = le a b) (as : List α) :
    stableSort le' (as.map f) = (stableSort le as).map f := by
  have hinsert (a : α) (bs : List α) :
      insertBefore le' (f a) (bs.map f) = (insertBefore le a bs).map f := by
    induction bs with
    | nil => rfl
    | cons b bs ih =>
      rw [List.map_cons, insertBefore, insertBefore, h, ih]
      split <;> rfl
  induction as with
  | nil => rfl
  | cons a as ih => rw [List.map_cons, stableSort, stableSort, ih, hinsert]

end Storefront
