import Storefront.Proofs.Serialized.Pieces
/-!
# Serialized values read back

Writing a value and reading the text gives the value, with blanks behind the text or without, as
long as its arrays nest no deeper than the reader allows; a deeper one is refused for that reason
and no other (`decode_toText_append`).

Both halves are inductions over a value together with the entries of an array, for any room that is
left and any text that follows (`value_write`, `value_write_deep`). The second needs the first: on
the way to the first array that is too deep, every entry before it is read in full.

Counts and lengths are words, so the statements ask for a text shorter than `2 ^ 64` bytes; no
string of a machine is longer.
-/

namespace Storefront

namespace StoredValue

mutual

/-- How deep arrays nest in a value. A scalar does not nest; an array of scalars has depth one. -/
def nesting : StoredValue → Nat
  | array es => nestingOfEntries es + 1
  | _ => 0

/-- The depth of the deepest value among the entries of an array. -/
def nestingOfEntries : List (StoredKey × StoredValue) → Nat
  | [] => 0
  | (_, v) :: es => max v.nesting (nestingOfEntries es)

end

end StoredValue

namespace Serialized

open Text

/-! ### Sizes -/

theorem one_le_byteLength_writeKey (k : StoredKey) : 1 ≤ byteLength (writeKey k) := by
  cases k with
  | position n =>
    rw [writeKey, writeInt64, byteLength_append, byteLength_append]
    exact Nat.le_add_right_of_le (Nat.le_add_right_of_le (by decide))
  | name s =>
    rw [writeKey, writeText]
    simp only [byteLength_append]
    have htag : byteLength ['s', ':'] = 2 := rfl
    omega

theorem byteLength_writeEntries_cons (k : StoredKey) (v : StoredValue)
    (es : List (StoredKey × StoredValue)) :
    byteLength (writeEntries ((k, v) :: es)) =
      byteLength (writeKey k) + byteLength (write v) + byteLength (writeEntries es) := by
  rw [writeEntries, byteLength_append, byteLength_append]

theorem length_le_byteLength_writeEntries (es : List (StoredKey × StoredValue)) :
    es.length ≤ byteLength (writeEntries es) := by
  induction es with
  | nil => exact Nat.zero_le _
  | cons e es ih =>
    have hkey := one_le_byteLength_writeKey e.1
    rw [List.length_cons, byteLength_writeEntries_cons]
    omega

theorem byteLength_writeEntries_le (es : List (StoredKey × StoredValue)) :
    byteLength (writeEntries es) ≤ byteLength (write (.array es)) := by
  simp only [write, byteLength_append]
  omega

/-! ### One step of the reader -/

/-- The reader of what follows the tag and colon of an array, with room for that many arrays nested
in each other. -/
def arrayWithin : Nat → Reader StoredValue
  | 0 => fun s ↦ .error ⟨s, .nesting⟩
  | room + 1 => arrayBody (value room)

theorem value_eq_tagged (room : Nat) : value room = tagged (arrayWithin room) := by
  cases room with
  | zero => rfl
  | succ room => rfl

theorem tagged_write_of_nesting_eq_zero (body : Reader StoredValue) {v : StoredValue}
    (hv : v.nesting = 0) (hsize : byteLength (write v) < UInt64.size) (rest : List Char) :
    tagged body (write v ++ rest) = .ok (v, rest) := by
  match v with
  | .null => rfl
  | .bool false => rfl
  | .bool true => rfl
  | .int n =>
    rw [write, writeInt64_append]
    show (scalar integer _).map _ = _
    rw [scalar_integer]
    rfl
  | .float x =>
    have hwrite : write (.float x) ++ rest = 'd' :: ':' :: (floatText x ++ ';' :: rest) := by
      simp [write]
    rw [hwrite]
    show (scalar float _).map _ = _
    rw [scalar_cons (float_append x rest)]
    rfl
  | .text s =>
    rw [write] at hsize ⊢
    rw [writeText_append]
    show (scalar countedText _).map _ = _
    rw [scalar_countedText hsize]
    rfl
  | .array es => cases hv

theorem tagged_write_array (body : Reader StoredValue) (es : List (StoredKey × StoredValue))
    (rest : List Char) :
    tagged body (write (.array es) ++ rest) =
      body (digits es.length ++ ':' :: '{' :: (writeEntries es ++ '}' :: rest)) := by
  have hwrite : write (.array es) ++ rest =
      'a' :: ':' :: (digits es.length ++ ':' :: '{' :: (writeEntries es ++ '}' :: rest)) := by
    simp [write]
  rw [hwrite]
  rfl

section

variable {element : Reader StoredValue} {k : StoredKey} {v : StoredValue}
  {es : List (StoredKey × StoredValue)} {rest : List Char}

theorem entries_cons_of_ok (hk : byteLength (writeKey k) < UInt64.size)
    (h : element (write v ++ (writeEntries es ++ rest)) = .ok (v, writeEntries es ++ rest)) :
    entries element (es.length + 1) (writeEntries ((k, v) :: es) ++ rest) =
      (entries element es.length (writeEntries es ++ rest)).map
        fun (es, s) ↦ ((k, v) :: es, s) := by
  rw [writeEntries, List.append_assoc, List.append_assoc, entries, key_append hk, ok_bind]
  simp only [h, ok_bind]
  cases entries element es.length (writeEntries es ++ rest) with
  | error f => rfl
  | ok read => rfl

theorem entries_cons_of_error (hk : byteLength (writeKey k) < UInt64.size) {f : Failure}
    (h : element (write v ++ (writeEntries es ++ rest)) = .error f) :
    entries element (es.length + 1) (writeEntries ((k, v) :: es) ++ rest) = .error f := by
  rw [writeEntries, List.append_assoc, List.append_assoc, entries, key_append hk, ok_bind]
  simp only [h, error_bind]

/-- The body of an array is its entries and the closing brace. -/
theorem arrayBody_digits (hsize : es.length < UInt64.size) :
    arrayBody element (digits es.length ++ ':' :: '{' :: (writeEntries es ++ '}' :: rest)) =
      (do
        let (es, s) ← entries element es.length (writeEntries es ++ '}' :: rest)
        let s ← literal ['}'] s
        pure (.array es, s)) := by
  have hlength := length_append hsize (stopsAt_cons (c := ':') (by decide)
    ('{' :: (writeEntries es ++ '}' :: rest)))
  simp only [arrayBody, hlength, ok_bind, literal_two]

theorem arrayBody_of_ok (hsize : es.length < UInt64.size)
    (h : entries element es.length (writeEntries es ++ '}' :: rest) = .ok (es, '}' :: rest)) :
    arrayBody element (digits es.length ++ ':' :: '{' :: (writeEntries es ++ '}' :: rest)) =
      .ok (.array es, rest) := by
  simp only [arrayBody_digits hsize, h, ok_bind, literal_one]
  rfl

theorem arrayBody_of_error (hsize : es.length < UInt64.size) {f : Failure}
    (h : entries element es.length (writeEntries es ++ '}' :: rest) = .error f) :
    arrayBody element (digits es.length ++ ':' :: '{' :: (writeEntries es ++ '}' :: rest)) =
      .error f := by
  simp only [arrayBody_digits hsize, h, error_bind]

end

/-! ### Values with room for their arrays -/

mutual

/-- A value that nests no deeper than there is room is read off the front of any text. -/
theorem value_write (room : Nat) (v : StoredValue) (hsize : byteLength (write v) < UInt64.size)
    (hnesting : v.nesting ≤ room) (rest : List Char) :
    value room (write v ++ rest) = .ok (v, rest) := by
  match v, room with
  | .array es, room + 1 =>
    -- The count is a word because each entry takes at least one byte.
    have hentries := byteLength_writeEntries_le es
    have hlength := length_le_byteLength_writeEntries es
    rw [value_eq_tagged, tagged_write_array]
    refine arrayBody_of_ok (by omega) (entries_write room es (by omega) ?_ _)
    exact Nat.le_of_succ_le_succ hnesting
  | .null, _ | .bool _, _ | .int _, _ | .float _, _ | .text _, _ =>
    rw [value_eq_tagged]
    exact tagged_write_of_nesting_eq_zero _ rfl hsize rest

/-- The entries of an array are read in order, repeated keys included. -/
theorem entries_write (room : Nat) (es : List (StoredKey × StoredValue))
    (hsize : byteLength (writeEntries es) < UInt64.size)
    (hnesting : StoredValue.nestingOfEntries es ≤ room) (rest : List Char) :
    entries (value room) es.length (writeEntries es ++ rest) = .ok (es, rest) := by
  match es with
  | [] => rfl
  | (k, v) :: es =>
    rw [byteLength_writeEntries_cons] at hsize
    obtain ⟨hv, hes⟩ := Nat.max_le.1 hnesting
    rw [List.length_cons, entries_cons_of_ok (by omega) (value_write room v (by omega) hv _),
      entries_write room es (by omega) hes]
    rfl

end

/-! ### Values without room for their arrays -/

mutual

/-- A value that nests deeper than there is room is refused for its nesting. -/
theorem value_write_deep (room : Nat) (v : StoredValue)
    (hsize : byteLength (write v) < UInt64.size) (hnesting : room < v.nesting)
    (rest : List Char) : ∃ s, value room (write v ++ rest) = .error ⟨s, .nesting⟩ := by
  match v, room with
  | .array es, 0 =>
    rw [value_eq_tagged, tagged_write_array]
    exact ⟨_, rfl⟩
  | .array es, room + 1 =>
    have hentries := byteLength_writeEntries_le es
    have hlength := length_le_byteLength_writeEntries es
    obtain ⟨s, hs⟩ := entries_write_deep room es (by omega) (Nat.lt_of_succ_lt_succ hnesting)
      ('}' :: rest)
    rw [value_eq_tagged, tagged_write_array]
    exact ⟨s, arrayBody_of_error (by omega) hs⟩
  | .null, _ | .bool _, _ | .int _, _ | .float _, _ | .text _, _ => cases hnesting

/-- Entries before the one that nests too deep are read, and that one is refused. -/
theorem entries_write_deep (room : Nat) (es : List (StoredKey × StoredValue))
    (hsize : byteLength (writeEntries es) < UInt64.size)
    (hnesting : room < StoredValue.nestingOfEntries es) (rest : List Char) :
    ∃ s, entries (value room) es.length (writeEntries es ++ rest) = .error ⟨s, .nesting⟩ := by
  match es with
  | [] => cases hnesting
  | (k, v) :: es =>
    rw [byteLength_writeEntries_cons] at hsize
    rw [List.length_cons]
    by_cases hv : v.nesting ≤ room
    · -- This entry has room, so it is read, and a later one is refused.
      have hes : room < StoredValue.nestingOfEntries es :=
        (lt_max_iff.1 hnesting).resolve_left (Nat.not_lt.2 hv)
      obtain ⟨s, hs⟩ := entries_write_deep room es (by omega) hes rest
      rw [entries_cons_of_ok (by omega) (value_write room v (by omega) hv _), hs]
      exact ⟨s, rfl⟩
    · obtain ⟨s, hs⟩ := value_write_deep room v (by omega) (Nat.not_le.1 hv)
        (writeEntries es ++ rest)
      exact ⟨s, entries_cons_of_error (by omega) hs⟩

end

/-! ### Whole texts -/

/-- The text of a value does not end in a blank. -/
theorem exists_write_eq_append_singleton (v : StoredValue) :
    ∃ s c, write v = s ++ [c] ∧ isBlank c = false := by
  match v with
  | .null => exact ⟨['N'], ';', rfl, by decide⟩
  | .bool false => exact ⟨['b', ':', '0'], ';', rfl, by decide⟩
  | .bool true => exact ⟨['b', ':', '1'], ';', rfl, by decide⟩
  | .int n => exact ⟨_, ';', rfl, by decide⟩
  | .float x => exact ⟨_, ';', rfl, by decide⟩
  | .text s =>
    refine ⟨['s', ':'] ++ digits (byteLength s.toList) ++ [':', '"'] ++ s.toList ++ ['"'], ';',
      ?_, by decide⟩
    simp [write, writeText]
  | .array es => exact ⟨_, '}', rfl, by decide⟩

theorem trimEnd_toText_append (v : StoredValue) {w : String} (hw : w.toList.all isBlank = true) :
    trimEnd (toText v ++ w).toList = write v := by
  obtain ⟨s, c, hwrite, hc⟩ := exists_write_eq_append_singleton v
  rw [String.toList_append, toText, String.toList_ofList,
    trimEnd_append (List.all_eq_true.1 hw), hwrite, trimEnd_append_singleton hc]

/-- The text of a value, followed by blanks, decodes to the value if its arrays nest at most
thirty-two deep, and is refused for its nesting otherwise. A text in memory is always shorter than
the bound on its bytes. -/
theorem decode_toText_append (v : StoredValue) (w : String)
    (hsize : byteLength (toText v).toList < UInt64.size) (hw : w.toList.all isBlank = true) :
    (v.nesting ≤ 32 → decode (toText v ++ w) = .ok v) ∧
      (32 < v.nesting → ∃ e, decode (toText v ++ w) = .error e ∧
        e.cause.detail = "expected shallower array nesting") := by
  rw [toText, String.toList_ofList] at hsize
  rw [decode, trimEnd_toText_append v hw, decodeChars]
  constructor
  · intro hnesting
    have hread := value_write maxNesting v hsize hnesting []
    rw [List.append_nil] at hread
    rw [hread]
  · intro hnesting
    obtain ⟨s, hread⟩ := value_write_deep maxNesting v hsize hnesting []
    rw [List.append_nil] at hread
    rw [hread]
    exact ⟨_, rfl, rfl⟩

/-- A value with a text that looks like serialized ones, a key that occurs twice and numbers that
are not finite. -/
def awkwardValue : StoredValue :=
  .array [(.name "k", .text "é\";\x7ds:1:\"x\";"), (.name "k", .float .nan),
    (.position (-1), .array [(.position 0, .float (.infinite true)), (.name "", .bool false)])]

/-- Arrays in each other, as many as given, each the only entry of the one around it. -/
def nestedArrays : Nat → StoredValue
  | 0 => .null
  | n + 1 => .array [(.name "", nestedArrays n)]

theorem nesting_nestedArrays (n : Nat) : (nestedArrays n).nesting = n := by
  induction n with
  | zero => rfl
  | succ n ih =>
    simp only [nestedArrays, StoredValue.nesting, StoredValue.nestingOfEntries, ih, Nat.max_zero]

theorem byteLength_write_nestedArrays (n : Nat) :
    byteLength (write (nestedArrays n)) = 13 * n + 2 := by
  induction n with
  | zero => rfl
  | succ n ih =>
    have hopen : byteLength (['a', ':'] ++ digits 1 ++ [':', '{'] ++ writeKey (.name "")) = 12 := by
      decide +kernel
    simp only [byteLength_append] at hopen
    simp only [nestedArrays, write, writeEntries, List.length_singleton, byteLength_append, ih,
      byteLength_nil]
    have hclose : byteLength ['}'] = 1 := rfl
    omega

theorem decode_awkwardValue :
    decode (toText awkwardValue ++ " \u3000\n") = .ok awkwardValue ∧
      ∃ e, decode (toText (nestedArrays 33) ++ "\n") = .error e ∧
        e.cause.detail = "expected shallower array nesting" := by
  constructor
  · exact (decode_toText_append awkwardValue " \u3000\n" (by decide +kernel) (by decide)).1
      (by decide)
  · have hsize : byteLength (toText (nestedArrays 33)).toList < UInt64.size := by
      rw [toText, String.toList_ofList, byteLength_write_nestedArrays]
      decide
    have hnesting : 32 < (nestedArrays 33).nesting := by
      rw [nesting_nestedArrays]
      decide
    exact (decode_toText_append (nestedArrays 33) "\n" hsize (by decide)).2 hnesting

end Serialized

end Storefront
