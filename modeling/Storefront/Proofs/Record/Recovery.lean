import Storefront.Proofs.Document.Texts
import Storefront.Proofs.Record.Fields
/-!
# Values read back from their texts

What is written for a value becomes a text, and from the text a document is read again, in which the
numbers are what their numerals are read as. `Record.readBack?` is the value that this document
stands for. Most types come back as they are, because no number with a fraction is in them
(`Record.Exact`). A number comes back as what its numeral is read as, if that is a number
(`Record.readBack?_binary64`), and lists and options come back part by part.

`null` also stands for a missing value. So a value that is written as `null` would be taken for a
missing one, and `Record.readBack?_option` asks that none is.
-/

namespace Storefront

open Document

/-! ### Documents -/

section

variable {format : NumberFormat} {depth : Nat} {d e : Document}

namespace Document

theorem limited_of_lt (h : depth < maxNesting) (d : Document) : limited depth d = d := if_pos h

/-- The text of an array is read item by item, one level deeper. -/
theorem reread_list (h : depth < maxNesting) (ds : List Document) :
    (list ds).reread format depth = list (ds.map (·.reread format (depth + 1))) := by
  rw [reread, limited_of_lt h, rereadItems_eq_map]

/-- The text of an object is read member by member, one level deeper. Names are kept. -/
theorem reread_object (h : depth < maxNesting) (ms : List (String × Document)) :
    (object ms).reread format depth =
      object (ms.map fun m ↦ (m.1, m.2.reread format (depth + 1))) := by
  rw [reread, limited_of_lt h, rereadMembers_eq_map]

/-- An integer that fits sixty-four bits is read as it is. -/
theorem reread_integer {i : Int} (h : Numeral.IsWord i) :
    (integer i).reread format depth = integer i := by
  rw [reread, ofNumeral, Numeral.integer?_ofInt h]

/-- A number comes back as one, or its numeral stands for none. -/
theorem reread_real (negative : Bool) (m : Binary64.Magnitude) :
    (real (.finite negative m)).reread format depth =
      ((format.reread? (.finite negative m)).map real).getD unreadable := by
  rw [reread, ofNumeral, format.integer?_numeral, NumberFormat.reread?]
  dsimp only
  split <;> rfl

/-- No object is taken for a missing value, even where it stands too deep to be read. -/
theorem reread_object_ne_null (ms : List (String × Document)) :
    (object ms).reread format depth ≠ null := by
  rw [reread, limited]
  split <;> exact nofun

/-- Being too deep does not depend on the form. -/
theorem SameForm.limited (h : d.SameForm e) (depth : Nat) :
    (limited depth d).SameForm (limited depth e) := by
  rw [Document.limited, Document.limited]
  split
  · exact h
  · exact .refl _

/-- A change of the form of a document is one of the form of what is read. -/
theorem Restated.sameForm_reread (h : Restated d e) (depth : Nat) :
    (d.reread format depth).SameForm (e.reread format depth) := by
  induction h generalizing depth with
  | reorder hperm =>
    rw [reread, reread, rereadMembers_eq_map, rereadMembers_eq_map]
    exact (Restated.reorder (hperm.map _)).sameForm.limited depth
  | item front back _ ih =>
    rw [reread, reread, rereadItems_eq_map, rereadItems_eq_map]
    simp only [List.map_append, List.map_cons]
    refine SameForm.limited (sameForm_list_iff.2 ⟨_, rfl, ?_⟩) depth
    exact forall₂_change SameForm.refl (ih _) _ _
  | @member d e front back name _ ih =>
    rw [reread, reread, rereadMembers_eq_map, rereadMembers_eq_map]
    simp only [List.map_append, List.map_cons]
    have hmember : SameMember (name, d.reread format (depth + 1))
        (name, e.reread format (depth + 1)) := ⟨rfl, ih _⟩
    refine SameForm.limited (sameForm_object_iff.2 ⟨_, rfl, _, ?_, .refl _⟩) depth
    exact forall₂_change SameMember.refl hmember _ _

/-- What is read for documents of the same form is of the same form. -/
theorem SameForm.reread (h : d.SameForm e) (depth : Nat) :
    (d.reread format depth).SameForm (e.reread format depth) := by
  induction h with
  | refl => exact .refl _
  | tail _ hstep ih => exact ih.trans (hstep.sameForm_reread depth)

end Document

end

namespace Record

variable {α : Type} [Record α] {format : NumberFormat} {depth : Nat}

/-- What is read back for a value, inside `depth` arrays and objects. -/
def readBack? (format : NumberFormat) (depth : Nat) (a : α) : Option α :=
  read? ((write a).reread format depth)

/-! ### Scalars -/

/-- Types whose values come back as they are, wherever they stand. -/
class Exact (α : Type) [Record α] : Prop where
  /-- The text says what was written. -/
  reread_write (format : NumberFormat) (depth : Nat) (a : α) :
    (write a).reread format depth = write a
  /-- What was written stands for the value. -/
  read?_write (a : α) : read? (write a) = some a

attribute [simp] Exact.reread_write Exact.read?_write

/-- Wherever such a value stands, it comes back. -/
@[simp] theorem readBack?_eq_some [Exact α] (a : α) : readBack? format depth a = some a := by
  rw [readBack?, Exact.reread_write, Exact.read?_write]

instance : Exact Bool := ⟨fun _ _ _ ↦ rfl, fun _ ↦ rfl⟩

instance : Exact String := ⟨fun _ _ _ ↦ rfl, fun _ ↦ rfl⟩

/-- A word is an integer that fits sixty-four bits without a sign. -/
instance : Exact UInt64 where
  reread_write _ _ n := by
    have hlow : Int64.minValue.toInt ≤ (n.toNat : Int) :=
      Int.le_trans (by decide) (Int.natCast_nonneg _)
    exact reread_integer ⟨hlow, Int.ofNat_lt.2 n.toNat_lt⟩
  read?_write n := by
    have hn : (n.toNat : Int) < UInt64.size := Int.ofNat_lt.2 n.toNat_lt
    show (if 0 ≤ (n.toNat : Int) ∧ (n.toNat : Int) < UInt64.size then
      some (UInt64.ofNat (n.toNat : Int).toNat) else none) = some n
    rw [if_pos ⟨Int.natCast_nonneg _, hn⟩, Int.toNat_natCast, UInt64.ofNat_toNat]

/-- A signed word is an integer that fits sixty-four bits with its sign. -/
instance : Exact Int64 where
  reread_write _ _ n := by
    have hhigh : n.toInt < UInt64.size := Int.lt_of_le_of_lt n.toInt_le (by decide)
    exact reread_integer ⟨n.minValue_le_toInt, hhigh⟩
  read?_write n := by
    show (if Int64.minValue.toInt ≤ n.toInt ∧ n.toInt ≤ Int64.maxValue.toInt then
      some (Int64.ofInt n.toInt) else none) = some n
    rw [if_pos ⟨n.minValue_le_toInt, n.toInt_le⟩, Int64.ofInt_toInt]

/-- A finite number has a numeral. -/
theorem write_of_isFinite {x : Binary64} (h : x.isFinite = true) : write x = .real x := if_pos h

/-- Any other number has none and is written as if it were missing. -/
theorem write_of_not_isFinite {x : Binary64} (h : ¬x.isFinite = true) : write x = .null := if_neg h

/-- The text of a number says what is written for the number that its numeral is read as. If it is
read as none, the text is unreadable. -/
theorem reread_write_binary64 {x : Binary64} (h : x.isFinite = true) :
    (write x).reread format depth = ((format.reread? x).map write).getD .unreadable := by
  match x with
  | .finite negative m =>
    rw [write_of_isFinite h, reread_real]
    cases hy : format.reread? (.finite negative m) with
    | none => rfl
    | some y => exact (write_of_isFinite (NumberFormat.isFinite_of_reread? hy)).symm

/-- A number comes back as what its numeral is read as. -/
@[simp] theorem readBack?_binary64 (x : Binary64) :
    readBack? format depth x = format.reread? x := by
  match x with
  | .nan | .infinite _ => rfl
  | .finite negative m =>
    rw [readBack?, reread_write_binary64 rfl]
    cases hy : format.reread? (.finite negative m) with
    | none => rfl
    | some y =>
      show read? (write y) = some y
      rw [write_of_isFinite (NumberFormat.isFinite_of_reread? hy)]
      rfl

/-! ### Options and lists -/

/-- An option comes back as what its value comes back as, unless that is `null`. -/
theorem readBack?_option {o : Option α}
    (hnull : ∀ a ∈ o, (write a).reread format depth ≠ .null) :
    readBack? format depth o = o.mapM (readBack? format depth) := by
  cases o with
  | none => rfl
  | some a => exact read?_option_eq (hnull a rfl)

/-- An option that is never written as `null` comes back as it is. -/
theorem Exact.option [Exact α] (h : ∀ a : α, write a ≠ .null) : Exact (Option α) where
  reread_write format depth o := by
    cases o with
    | none => rfl
    | some a => exact Exact.reread_write format depth a
  read?_write o := by
    cases o with
    | none => rfl
    | some a =>
      show (read? (write a) : Option (Option α)) = _
      rw [read?_option_eq (h a), Exact.read?_write, Option.map_some]

/-- A list comes back item by item. -/
theorem readBack?_list (hdepth : depth < maxNesting) (as : List α) :
    readBack? format depth as = as.mapM (readBack? format (depth + 1)) := by
  show read? ((Document.list (as.map write)).reread format depth) = _
  rw [reread_list hdepth, List.map_map]
  exact List.mapM_map

/-- The text of a list says what was written, if the texts of its items do. -/
theorem reread_write_list [Exact α] (hdepth : depth < maxNesting) (as : List α) :
    (write as).reread format depth = write as := by
  show (Document.list (as.map write)).reread format depth = .list (as.map write)
  rw [reread_list hdepth, List.map_map]
  exact congrArg Document.list (List.map_congr_left fun a _ ↦ Exact.reread_write format _ a)

/-- What is written for a list stands for it, if what is written for its items does. -/
@[simp] theorem read?_write_list [Exact α] (as : List α) : read? (write as) = some as := by
  refine read?_list_eq_some_iff.2 ⟨_, rfl, ?_⟩
  rw [List.forall₂_map_left_iff, List.forall₂_same]
  exact fun a _ ↦ Exact.read?_write a

/-- A list of such values comes back wherever a list may stand. -/
theorem readBack?_list_eq_some [Exact α] (hdepth : depth < maxNesting) (as : List α) :
    readBack? format depth as = some as := by
  rw [readBack?, reread_write_list hdepth, read?_write_list]

/-! ### Fields -/

/-- A field is there if what is written into it is read as its value. -/
@[simp] theorem holds_asks_write [Steady α] {name : String} {a b : α} :
    (asks name b).holds (some (write a)) ↔ read? (write a) = some b :=
  Iff.rfl

/-- A field is there after rereading if its value is read back. -/
@[simp] theorem holds_asks_reread_write [Steady α] {name : String} {a b : α} :
    (asks name b).holds (some ((write a).reread format depth)) ↔
      readBack? format depth a = some b :=
  Iff.rfl

/-- What the members of an object are read back as are the fields of the record. -/
theorem hasFields_reread_iff {ms : List (String × Document)} {asked : List Asked}
    (hdepth : depth < maxNesting) (hnodup : (ms.map Prod.fst).Nodup)
    (hnames : asked.map (·.name) = ms.map Prod.fst) :
    HasFields ((Document.object ms).reread format depth) asked ↔
      List.Forall₂ (fun q m ↦ q.holds (some (m.2.reread format (depth + 1)))) asked ms := by
  have hfst : (ms.map fun m ↦ (m.1, m.2.reread format (depth + 1))).map Prod.fst =
      ms.map Prod.fst := by
    rw [List.map_map]
    rfl
  rw [reread_object hdepth, hasFields_object_iff (hfst ▸ hnodup) (hnames.trans hfst.symm),
    List.forall₂_map_right_iff]

/-! ### Readable and plain documents -/

/-- An array is readable if its items are. -/
theorem isReadable_list_iff {ds : List Document} :
    (Document.list ds).isReadable = true ↔ ∀ d ∈ ds, d.isReadable = true := by
  rw [isReadable, areReadable_eq_all, List.all_eq_true]

/-- An object is readable if its members are. -/
theorem isReadable_object_iff {ms : List (String × Document)} :
    (Document.object ms).isReadable = true ↔ ∀ m ∈ ms, m.2.isReadable = true := by
  rw [isReadable, haveReadableValues_eq_all, List.all_eq_true]

/-- Types whose values are written as readable documents. -/
class Readable (α : Type) [Record α] : Prop where
  /-- What is written is readable. -/
  isReadable_write (a : α) : (write a).isReadable = true

attribute [simp] Readable.isReadable_write

/-- A missing value is written as `null`, which is readable. -/
instance [Readable α] : Readable (Option α) where
  isReadable_write
    | none => rfl
    | some a => Readable.isReadable_write a

/-- A list is written item by item. -/
instance [Readable α] : Readable (List α) where
  isReadable_write _ := isReadable_list_iff.2 (List.forall_mem_map.2 fun a _ ↦
    Readable.isReadable_write a)

/-- A document that is readable and no object, as the fields of a tagged record are written. -/
structure IsPlain (d : Document) : Prop where
  /-- It is readable. -/
  isReadable : d.isReadable = true
  /-- It is no object. -/
  ne_object (ms : List (String × Document)) : d ≠ .object ms

/-- Inside a tagged record nothing plain is changed. -/
theorem IsPlain.emptyAsNull_eq {d : Document} (h : IsPlain d) : emptyAsNull d = d :=
  emptyAsNull_eq_self fun ⟨_, hd⟩ ↦ h.ne_object _ hd

/-- Types whose values are written as plain documents. -/
class Plain (α : Type) [Record α] : Prop where
  /-- What is written is plain. -/
  isPlain_write (a : α) : IsPlain (write a)

/-- What is plain is readable. -/
instance [Plain α] : Readable α := ⟨fun a ↦ (Plain.isPlain_write a).isReadable⟩

instance : Plain Bool := ⟨fun _ ↦ ⟨rfl, nofun⟩⟩

instance : Plain String := ⟨fun _ ↦ ⟨rfl, nofun⟩⟩

instance : Plain UInt64 := ⟨fun _ ↦ ⟨rfl, nofun⟩⟩

instance : Plain Int64 := ⟨fun _ ↦ ⟨rfl, nofun⟩⟩

/-- A number is written as one or as `null`. -/
instance : Plain Binary64 where
  isPlain_write x := by
    by_cases h : x.isFinite = true
    · rw [write_of_isFinite h]
      exact ⟨rfl, nofun⟩
    · rw [write_of_not_isFinite h]
      exact ⟨rfl, nofun⟩

/-- A missing value is written as `null`, which is plain. -/
instance [Plain α] : Plain (Option α) where
  isPlain_write
    | none => ⟨rfl, nofun⟩
    | some a => Plain.isPlain_write a

/-- An array is no object. -/
instance [Plain α] : Plain (List α) := ⟨fun _ ↦ ⟨Readable.isReadable_write _, nofun⟩⟩

/-- Nothing unreadable is a tagged record. -/
theorem tagged?_eq_none {tag : String} {d : Document} (h : d.isReadable = false) :
    tagged? tag d = none :=
  if_neg (by rw [h]; exact Bool.false_ne_true)

/-- An object whose first member is the tag, with other names and plain values behind it. -/
theorem tagged?_object {tag name : String} {ms : List (String × Document)}
    (hnames : tag ∉ ms.map Prod.fst) (hplain : ∀ m ∈ ms, IsPlain m.2) :
    tagged? tag (.object ((tag, .text name) :: ms)) = some (name, .object ms) := by
  have hreadable : (Document.object ((tag, .text name) :: ms)).isReadable = true :=
    isReadable_object_iff.2 (List.forall_mem_cons.2 ⟨rfl, fun m hm ↦ (hplain m hm).isReadable⟩)
  have hother : ∀ m ∈ ms, m.1 ≠ tag := fun m hm hname ↦
    hnames (hname ▸ List.mem_map_of_mem hm)
  have htag : ((tag, .text name) :: ms).filter (·.1 == tag) = [(tag, .text name)] := by
    rw [List.filter_cons, if_pos (beq_self_eq_true tag),
      List.filter_eq_nil_iff.2 fun m hm ↦ by simpa using hother m hm]
  have hrest : ((tag, .text name) :: ms).filter (·.1 != tag) = ms := by
    rw [List.filter_cons, if_neg (by simp), List.filter_eq_self.2]
    exact fun m hm ↦ bne_iff_ne.2 (hother m hm)
  have hnull : ms.map (fun m ↦ (m.1, emptyAsNull m.2)) = ms := by
    refine (List.map_congr_left fun m hm ↦ ?_).trans (List.map_id ms)
    rw [(hplain m hm).emptyAsNull_eq]
    rfl
  rw [tagged?, if_pos hreadable]
  simp only [htag, hrest, hnull]

end Record

end Storefront
