/-!
# Sets of ids

A finite set of sixty-four bit ids, listed strictly ascending. As with maps in key order, a set has
one representation, so equality of sets is equality of their members.
-/

namespace Storefront

/-- A finite set of ids. -/
structure IdSet where
  /-- The members. -/
  toList : List UInt64
  /-- Every member is below the members after it. -/
  ascending : toList.Pairwise (· < ·)
  deriving DecidableEq

namespace IdSet

/-- An ascending list with one id put in its place; an id that is there already is not repeated. -/
def insertId (i : UInt64) : List UInt64 → List UInt64
  | [] => [i]
  | j :: js => if i < j then i :: j :: js else if i = j then j :: js else j :: insertId i js

theorem mem_insertId {i k : UInt64} {js : List UInt64} : k ∈ insertId i js ↔ k = i ∨ k ∈ js := by
  induction js with
  | nil => simp [insertId]
  | cons j js ih =>
    simp only [insertId]
    split
    · simp
    · split
      · next h => subst h; simp
      · rw [List.mem_cons, ih, List.mem_cons, or_left_comm]

theorem pairwise_insertId {i : UInt64} {js : List UInt64} (h : js.Pairwise (· < ·)) :
    (insertId i js).Pairwise (· < ·) := by
  induction js with
  | nil => simp [insertId]
  | cons j js ih =>
    obtain ⟨hhead, htail⟩ := List.pairwise_cons.1 h
    simp only [insertId]
    split
    · next hlt =>
      refine List.pairwise_cons.2 ⟨fun k hk ↦ ?_, h⟩
      rcases List.mem_cons.1 hk with rfl | hk
      · exact hlt
      · exact UInt64.lt_trans hlt (hhead k hk)
    · next hnlt =>
      split
      · exact h
      · next hne =>
        refine List.pairwise_cons.2 ⟨fun k hk ↦ ?_, ih htail⟩
        rcases mem_insertId.1 hk with rfl | hk
        · exact UInt64.lt_of_le_of_ne (UInt64.not_lt.1 hnlt) (Ne.symm hne)
        · exact hhead k hk

/-- The set without members. -/
def empty : IdSet := ⟨[], .nil⟩

instance : EmptyCollection IdSet := ⟨empty⟩

instance : Inhabited IdSet := ⟨empty⟩

instance : Membership UInt64 IdSet := ⟨fun s i ↦ i ∈ s.toList⟩

instance (i : UInt64) (s : IdSet) : Decidable (i ∈ s) := inferInstanceAs (Decidable (i ∈ s.toList))

/-- The set with one more member. -/
def insert (s : IdSet) (i : UInt64) : IdSet := ⟨insertId i s.toList, pairwise_insertId s.ascending⟩

/-- The set with further members. -/
def insertMany (s : IdSet) (ids : List UInt64) : IdSet := ids.foldl insert s

/-- The set of the ids in a list. -/
def ofList (ids : List UInt64) : IdSet := empty.insertMany ids

/-- How many members a set has. -/
def size (s : IdSet) : Nat := s.toList.length

/-- Whether a set has no member. -/
def isEmpty (s : IdSet) : Bool := s.toList.isEmpty

/-! ### Membership -/

@[simp] theorem not_mem_empty (k : UInt64) : ¬ k ∈ (∅ : IdSet) := List.not_mem_nil

@[simp] theorem mem_insert {s : IdSet} {i k : UInt64} : k ∈ s.insert i ↔ k = i ∨ k ∈ s :=
  mem_insertId

@[simp] theorem mem_insertMany {s : IdSet} {ids : List UInt64} {k : UInt64} :
    k ∈ s.insertMany ids ↔ k ∈ ids ∨ k ∈ s := by
  induction ids generalizing s with
  | nil => simp [insertMany]
  | cons i ids ih =>
    have hstep : s.insertMany (i :: ids) = (s.insert i).insertMany ids := rfl
    rw [hstep, ih, mem_insert, List.mem_cons]
    exact ⟨fun h ↦ by rcases h with h | h | h <;> simp [h],
      fun h ↦ by rcases h with (h | h) | h <;> simp [h]⟩

@[simp] theorem mem_ofList {ids : List UInt64} {k : UInt64} : k ∈ ofList ids ↔ k ∈ ids := by
  have hempty : ¬ k ∈ empty := not_mem_empty k
  simp [ofList, hempty]

theorem isEmpty_iff {s : IdSet} : s.isEmpty = true ↔ ∀ k, ¬ k ∈ s := by
  rw [isEmpty, List.isEmpty_iff, List.eq_nil_iff_forall_not_mem]
  rfl

theorem nodup_toList (s : IdSet) : s.toList.Nodup :=
  s.ascending.imp UInt64.ne_of_lt

/-- Sets with the same members are equal. -/
theorem ext_mem {s t : IdSet} (h : ∀ k, k ∈ s ↔ k ∈ t) : s = t := by
  have hperm : s.toList.Perm t.toList :=
    (List.perm_ext_iff_of_nodup s.nodup_toList t.nodup_toList).2 h
  have hlist : s.toList = t.toList :=
    hperm.eq_of_pairwise
      (fun _ _ _ _ hij hji ↦ absurd (UInt64.lt_trans hij hji) (UInt64.lt_irrefl _))
      s.ascending t.ascending
  cases s
  cases t
  cases hlist
  rfl

end IdSet

end Storefront
