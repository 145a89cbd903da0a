/-!
# Maps in key order

A finite map as the list of its entries, strictly ascending by key. The order is part of the type,
so a map has one representation: two maps that hold the same values under the same keys are equal,
and listing a map never depends on how it was built.

The three operations are a look-up, an insertion that replaces, and a removal. `get?_insert` and
`get?_erase` say what each does to the look-ups, and by `ext_get?` the look-ups are all there is.
-/

namespace Storefront

/-- A finite map whose entries are listed strictly ascending by key. -/
structure OrderedMap (κ α : Type) [Ord κ] where
  /-- The entries. -/
  toList : List (κ × α)
  /-- Every key is below the keys after it. -/
  ascending : toList.Pairwise fun a b ↦ compare a.1 b.1 = .lt

namespace OrderedMap

variable {κ α : Type} [Ord κ]

/-! ### On lists of entries -/

/-- The value of the first entry with the given key. -/
def lookup (k : κ) : List (κ × α) → Option α
  | [] => none
  | (k', v) :: es => if compare k k' = .eq then some v else lookup k es

/-- The entries with one set: it replaces the entry of an equal key, or stands before the first
larger key. -/
def insertEntry (k : κ) (v : α) : List (κ × α) → List (κ × α)
  | [] => [(k, v)]
  | (k', v') :: es =>
    match compare k k' with
    | .lt => (k, v) :: (k', v') :: es
    | .eq => (k, v) :: es
    | .gt => (k', v') :: insertEntry k v es

/-- Every entry after an insertion is the new one or an old one. -/
theorem mem_of_mem_insertEntry {k : κ} {v : α} {e : κ × α} {es : List (κ × α)}
    (h : e ∈ insertEntry k v es) : e = (k, v) ∨ e ∈ es := by
  induction es with
  | nil => simpa [insertEntry] using h
  | cons d es ih =>
    obtain ⟨k', v'⟩ := d
    simp only [insertEntry] at h
    split at h
    · simpa using h
    · rcases List.mem_cons.1 h with h | h
      · exact .inl h
      · exact .inr (List.mem_cons_of_mem _ h)
    · rcases List.mem_cons.1 h with h | h
      · exact .inr (h ▸ List.mem_cons_self)
      · exact (ih h).imp id (List.mem_cons_of_mem _)

theorem pairwise_insertEntry [Std.TransOrd κ] [Std.LawfulEqOrd κ] {k : κ} {v : α}
    {es : List (κ × α)} (h : es.Pairwise fun a b ↦ compare a.1 b.1 = .lt) :
    (insertEntry k v es).Pairwise fun a b ↦ compare a.1 b.1 = .lt := by
  induction es with
  | nil => simp [insertEntry]
  | cons d es ih =>
    obtain ⟨k', v'⟩ := d
    obtain ⟨hhead, htail⟩ := List.pairwise_cons.1 h
    simp only [insertEntry]
    split
    · next hlt =>
      refine List.pairwise_cons.2 ⟨fun e he ↦ ?_, h⟩
      rcases List.mem_cons.1 he with rfl | he
      · exact hlt
      · exact Std.TransCmp.lt_trans hlt (hhead e he)
    · next heq =>
      cases Std.LawfulEqCmp.eq_of_compare heq
      exact List.pairwise_cons.2 ⟨hhead, htail⟩
    · next hgt =>
      refine List.pairwise_cons.2 ⟨fun e he ↦ ?_, ih htail⟩
      rcases mem_of_mem_insertEntry he with rfl | he
      · exact Std.OrientedCmp.lt_of_gt hgt
      · exact hhead e he

/-! ### On maps -/

/-- The map without entries. -/
def empty : OrderedMap κ α := ⟨[], .nil⟩

instance : EmptyCollection (OrderedMap κ α) := ⟨empty⟩

instance : Inhabited (OrderedMap κ α) := ⟨empty⟩

instance [DecidableEq κ] [DecidableEq α] : DecidableEq (OrderedMap κ α) := fun a b ↦
  decidable_of_iff (a.toList = b.toList) (by cases a; cases b; simp)

/-- The value under a key. -/
def get? (m : OrderedMap κ α) (k : κ) : Option α := lookup k m.toList

/-- The map with one value set. -/
def insert [Std.TransOrd κ] [Std.LawfulEqOrd κ] (m : OrderedMap κ α) (k : κ) (v : α) :
    OrderedMap κ α :=
  ⟨insertEntry k v m.toList, pairwise_insertEntry m.ascending⟩

/-- The map without a key. -/
def erase (m : OrderedMap κ α) (k : κ) : OrderedMap κ α :=
  ⟨m.toList.filter fun e ↦ compare k e.1 != .eq, m.ascending.filter _⟩

/-- The map that a list of settings leaves, a later one replacing an earlier one of equal key. -/
def ofList [Std.TransOrd κ] [Std.LawfulEqOrd κ] (settings : List (κ × α)) : OrderedMap κ α :=
  settings.foldl (fun m (k, v) ↦ m.insert k v) empty

/-- The keys, ascending. -/
def keys (m : OrderedMap κ α) : List κ := m.toList.map (·.1)

/-- The values, in the order of their keys. -/
def values (m : OrderedMap κ α) : List α := m.toList.map (·.2)

/-- How many keys have a value. -/
def size (m : OrderedMap κ α) : Nat := m.toList.length

/-! ### Looking up -/

theorem lookup_insertEntry [Std.TransOrd κ] [Std.LawfulEqOrd κ] (k j : κ) (v : α)
    (es : List (κ × α)) :
    lookup j (insertEntry k v es) = if compare j k = .eq then some v else lookup j es := by
  induction es with
  | nil => rfl
  | cons d es ih =>
    obtain ⟨k', v'⟩ := d
    simp only [insertEntry]
    split
    · rfl
    · next heq =>
      cases Std.LawfulEqCmp.eq_of_compare heq
      simp only [lookup]
      split <;> rfl
    · next hgt =>
      simp only [lookup, ih]
      split
      · next hj =>
        cases Std.LawfulEqCmp.eq_of_compare hj
        rw [if_neg (by rw [Std.OrientedCmp.lt_of_gt hgt]; decide)]
      · rfl

theorem lookup_filter [Std.TransOrd κ] [Std.LawfulEqOrd κ] (k j : κ) (es : List (κ × α)) :
    lookup j (es.filter fun e ↦ compare k e.1 != .eq) =
      if compare j k = .eq then none else lookup j es := by
  induction es with
  | nil => simp [lookup]
  | cons d es ih =>
    obtain ⟨k', v'⟩ := d
    rw [List.filter_cons]
    split
    · next hne =>
      simp only [lookup, ih]
      split
      · next hj =>
        cases Std.LawfulEqCmp.eq_of_compare hj
        rw [if_neg (by rw [Std.OrientedCmp.eq_comm]; simpa using hne)]
      · rfl
    · next heq =>
      have hk : compare k k' = .eq := by simpa using heq
      cases Std.LawfulEqCmp.eq_of_compare hk
      rw [ih, lookup]
      split <;> rfl

theorem lookup_eq_some_iff [Std.TransOrd κ] [Std.LawfulEqOrd κ] {k : κ} {v : α}
    {es : List (κ × α)} (h : es.Pairwise fun a b ↦ compare a.1 b.1 = .lt) :
    lookup k es = some v ↔ (k, v) ∈ es := by
  induction es with
  | nil => simp [lookup]
  | cons d es ih =>
    obtain ⟨k', v'⟩ := d
    obtain ⟨hhead, htail⟩ := List.pairwise_cons.1 h
    rw [lookup, List.mem_cons, Prod.mk.injEq]
    split
    · next heq =>
      cases Std.LawfulEqCmp.eq_of_compare heq
      refine ⟨fun hv ↦ .inl ⟨rfl, (Option.some.inj hv).symm⟩, ?_⟩
      rintro (⟨-, rfl⟩ | hmem)
      · rfl
      · exact absurd (hhead _ hmem) (by rw [heq]; decide)
    · next hne =>
      rw [ih htail]
      refine ⟨.inr, ?_⟩
      rintro (⟨rfl, -⟩ | hmem)
      · exact absurd Std.ReflCmp.compare_self hne
      · exact hmem

@[simp] theorem get?_empty (k : κ) : (∅ : OrderedMap κ α).get? k = none := rfl

section

variable [Std.TransOrd κ] [Std.LawfulEqOrd κ]

/-- After an insertion the key set has the new value, and every other key has what it had. -/
theorem get?_insert (m : OrderedMap κ α) (k j : κ) (v : α) :
    (m.insert k v).get? j = if compare j k = .eq then some v else m.get? j :=
  lookup_insertEntry k j v m.toList

theorem get?_insert_eq_or [DecidableEq κ] (m : OrderedMap κ α) (k j : κ) (v : α) :
    (m.insert k v).get? j = (if k = j then some v else none).or (m.get? j) := by
  rw [get?_insert]
  by_cases h : k = j
  · rw [if_pos h, h, if_pos Std.ReflCmp.compare_self]
    rfl
  · rw [if_neg h, if_neg fun heq ↦ h (Std.LawfulEqCmp.eq_of_compare heq).symm]
    rfl

/-- After a removal the key has no value, and every other key has what it had. -/
theorem get?_erase (m : OrderedMap κ α) (k j : κ) :
    (m.erase k).get? j = if compare j k = .eq then none else m.get? j :=
  lookup_filter k j m.toList

/-- The entries of a map are its keys with their values. -/
theorem get?_eq_some_iff {m : OrderedMap κ α} {k : κ} {v : α} :
    m.get? k = some v ↔ (k, v) ∈ m.toList :=
  lookup_eq_some_iff m.ascending

/-- The keys are those that have a value. -/
theorem mem_keys_iff {m : OrderedMap κ α} {k : κ} : k ∈ m.keys ↔ (m.get? k).isSome := by
  rw [keys, List.mem_map, Option.isSome_iff_exists]
  constructor
  · rintro ⟨⟨j, v⟩, hmem, rfl⟩
    exact ⟨v, get?_eq_some_iff.2 hmem⟩
  · rintro ⟨v, hv⟩
    exact ⟨(k, v), get?_eq_some_iff.1 hv, rfl⟩

theorem mem_values_iff {m : OrderedMap κ α} {v : α} : v ∈ m.values ↔ ∃ k, m.get? k = some v := by
  rw [values, List.mem_map]
  constructor
  · rintro ⟨⟨k, w⟩, hmem, rfl⟩
    exact ⟨k, get?_eq_some_iff.2 hmem⟩
  · rintro ⟨k, hv⟩
    exact ⟨(k, v), get?_eq_some_iff.1 hv, rfl⟩

/-- Maps that answer every look-up alike are equal. -/
theorem ext_get? {m n : OrderedMap κ α} (h : ∀ k, m.get? k = n.get? k) : m = n := by
  have distinct : ∀ {es : List (κ × α)},
      es.Pairwise (fun a b ↦ compare a.1 b.1 = .lt) → es.Nodup :=
    fun hes ↦ hes.imp fun hlt heq ↦ by simp [heq] at hlt
  have hperm : m.toList.Perm n.toList :=
    (List.perm_ext_iff_of_nodup (distinct m.ascending) (distinct n.ascending)).2 fun e ↦ by
      rw [← get?_eq_some_iff, ← get?_eq_some_iff, h]
  have asymm : ∀ a b : κ × α, a ∈ m.toList → b ∈ n.toList →
      compare a.1 b.1 = .lt → compare b.1 a.1 = .lt → a = b :=
    fun _ _ _ _ hab hba ↦ absurd hba (Std.OrientedCmp.not_lt_of_lt hab)
  have hlist : m.toList = n.toList := hperm.eq_of_pairwise asymm m.ascending n.ascending
  cases m
  cases n
  cases hlist
  rfl

/-- In a list of entries the ones before an entry are those with smaller keys. -/
theorem mem_front_iff {m : OrderedMap κ α} {front back : List (κ × α)} {e f : κ × α}
    (h : m.toList = front ++ e :: back) :
    f ∈ front ↔ f ∈ m.toList ∧ compare f.1 e.1 = .lt := by
  have hascending := m.ascending
  rw [h] at hascending ⊢
  obtain ⟨-, hback, hcross⟩ := List.pairwise_append.1 hascending
  constructor
  · intro hf
    exact ⟨List.mem_append_left _ hf, hcross f hf e List.mem_cons_self⟩
  · rintro ⟨hf, hlt⟩
    refine (List.mem_append.1 hf).resolve_right fun hf ↦ ?_
    rcases List.mem_cons.1 hf with rfl | hf
    · have hself : compare f.1 f.1 = .eq := Std.ReflCmp.compare_self
      rw [hself] at hlt
      cases hlt
    · exact Std.OrientedCmp.not_lt_of_lt hlt ((List.pairwise_cons.1 hback).1 f hf)

end

/-! ### Changing the values -/

section

variable {β : Type}

theorem map_insertEntry (g : α → β) (k : κ) (v : α) (es : List (κ × α)) :
    (insertEntry k v es).map (Prod.map id g) =
      insertEntry k (g v) (es.map (Prod.map id g)) := by
  induction es with
  | nil => rfl
  | cons e es ih =>
    obtain ⟨k', v'⟩ := e
    simp only [insertEntry, List.map_cons, Prod.map_apply, id_eq]
    split
    · rfl
    · rfl
    · rw [List.map_cons, ih, Prod.map_apply, id_eq]

/-- Settings whose values are changed leave the map with its values changed. -/
theorem map_toList_ofList [Std.TransOrd κ] [Std.LawfulEqOrd κ] (g : α → β)
    (settings : List (κ × α)) :
    (ofList settings).toList.map (Prod.map id g) =
      (ofList (settings.map (Prod.map id g))).toList := by
  have hfold : ∀ (m : OrderedMap κ α) (n : OrderedMap κ β),
      m.toList.map (Prod.map id g) = n.toList →
      (settings.foldl (fun m (k, v) ↦ m.insert k v) m).toList.map (Prod.map id g) =
        ((settings.map (Prod.map id g)).foldl (fun m (k, v) ↦ m.insert k v) n).toList := by
    induction settings with
    | nil => exact fun m n h ↦ h
    | cons e settings ih =>
      obtain ⟨k, v⟩ := e
      intro m n h
      refine ih (m.insert k v) (n.insert k (g v)) ?_
      show (insertEntry k v m.toList).map (Prod.map id g) = insertEntry k (g v) n.toList
      rw [map_insertEntry, h]
  exact hfold empty empty rfl

end

end OrderedMap

end Storefront
