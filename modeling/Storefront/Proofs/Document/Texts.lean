import Storefront.Document.Reader
import Storefront.Proofs.Document.Format
/-!
# Documents read back from their texts

The text of a document is read as the document, but for the numbers in it: of those the numerals are
read (`Document.reread`, `Document.parse?_chars`). Escapes give back the characters that they stand
for (`Document.string?_quoted`), so that strings are never changed.

Reading follows the text with a number of steps, of which twice the length of the text is enough.
The induction is over the document, with one statement for a value and one each for what stands
behind an item and behind a member.
-/

namespace Storefront.Document

open Text

/-! ### Strings -/

/-- What reading makes of a character as a string holds it. -/
def pieceOf (c : Char) : Piece :=
  if shortMark? c = none ∧ c.toNat < 0x20 then .unit c.toNat else .char c

/-- The two hexadecimal digits of a control character stand for it. -/
theorem hexUnit?_hexDigit {u : Nat} (h : u < 0x20) :
    hexUnit? '0' '0' (hexDigit (u / 16)) (hexDigit (u % 16)) = some u := by
  have hall : ∀ u < 0x20, hexUnit? '0' '0' (hexDigit (u / 16)) (hexDigit (u % 16)) = some u := by
    decide
  exact hall u h

/-- A character that needs no escape. -/
theorem pieces?_cons {c : Char} (hquote : c ≠ '"') (hslash : c ≠ '\\') (hlow : ¬ c.toNat < 0x20)
    (s : List Char) :
    pieces? (c :: s) = (pieces? s).map fun (ps, rest) ↦ (.char c :: ps, rest) := by
  rw [pieces?.eq_def]
  split
  · next heq => cases heq
  · next heq => exact absurd (List.cons.inj heq).1 hquote
  · next heq => exact absurd (List.cons.inj heq).1 hslash
  · next heq => exact absurd (List.cons.inj heq).1 hslash
  · next heq =>
    obtain ⟨rfl, rfl⟩ := List.cons.inj heq
    rw [if_neg (not_or.2 ⟨hlow, hslash⟩)]

/-- A short escape stands for the character that it was made for. -/
theorem shortEscape?_of_shortMark? {c mark : Char} (h : shortMark? c = some mark) :
    mark ≠ 'u' ∧ shortEscape? mark = some c := by
  unfold shortMark? at h
  split at h <;> cases h <;> exact ⟨by decide, rfl⟩

/-- A short escape is read as one character. -/
theorem pieces?_shortEscape {mark c : Char} (hmark : mark ≠ 'u') (hc : shortEscape? mark = some c)
    (s : List Char) :
    pieces? ('\\' :: mark :: s) = (pieces? s).map fun (ps, rest) ↦ (.char c :: ps, rest) := by
  rw [pieces?.eq_def]
  split
  · next heq => cases heq
  · next heq => cases (List.cons.inj heq).1
  · next heq => exact absurd (List.cons.inj (List.cons.inj heq).2).1 hmark
  · next heq =>
    obtain ⟨-, heq⟩ := List.cons.inj heq
    obtain ⟨rfl, rfl⟩ := List.cons.inj heq
    rw [hc]
    cases pieces? s <;> rfl
  · next hother heq =>
    obtain ⟨rfl, rfl⟩ := List.cons.inj heq
    exact (hother _ _ rfl rfl).elim

/-- Reading a character as a string holds it. -/
theorem pieces?_escape_append (c : Char) (s : List Char) :
    pieces? (escape c ++ s) = (pieces? s).map fun (ps, rest) ↦ (pieceOf c :: ps, rest) := by
  rw [escape, pieceOf]
  cases hmark : shortMark? c with
  | some mark =>
    obtain ⟨hne, hc⟩ := shortEscape?_of_shortMark? hmark
    exact pieces?_shortEscape hne hc s
  | none =>
    simp only [true_and]
    split
    · next hlow =>
      show (do
        let u ← hexUnit? '0' '0' (hexDigit (c.toNat / 16)) (hexDigit (c.toNat % 16))
        let (ps, rest) ← pieces? s
        pure (Piece.unit u :: ps, rest)) = _
      rw [hexUnit?_hexDigit hlow]
      cases pieces? s <;> rfl
    · next hlow =>
      refine pieces?_cons ?_ ?_ hlow s
      · rintro rfl
        cases hmark
      · rintro rfl
        cases hmark

/-- A control character is no half of a pair. -/
theorem joinPieces?_unit_cons {u : Nat} (hu : u < 0x20) (ps : List Piece) :
    joinPieces? (.unit u :: ps) = (joinPieces? ps).map (Char.ofNat u :: ·) := by
  have hhigh : isHighSurrogate u = false := by
    simp [isHighSurrogate]
    omega
  have hlow : isLowSurrogate u = false := by
    simp [isLowSurrogate]
    omega
  match ps with
  | [] => simp [joinPieces?, hhigh, hlow]
  | .char c :: ps => simp [joinPieces?, hhigh, hlow]
  | .unit v :: ps => simp [joinPieces?, hhigh, hlow]

/-- The pieces of a string stand for its characters. -/
theorem joinPieces?_map_pieceOf (s : List Char) : joinPieces? (s.map pieceOf) = some s := by
  induction s with
  | nil => rfl
  | cons c s ih =>
    rw [List.map_cons, pieceOf]
    split
    · next hlow => rw [joinPieces?_unit_cons hlow.2, ih, Option.map_some, Char.ofNat_toNat]
    · rw [joinPieces?, ih, Option.map_some]

/-- Reading ends at the closing quote, because no quote is left unescaped before it. -/
theorem pieces?_flatMap_escape (s rest : List Char) :
    pieces? (s.flatMap escape ++ '"' :: rest) = some (s.map pieceOf, rest) := by
  induction s with
  | nil => rfl
  | cons c s ih =>
    rw [List.flatMap_cons, List.append_assoc, pieces?_escape_append, ih, Option.map_some,
      List.map_cons]

theorem quoted_append (s : String) (rest : List Char) :
    quoted s ++ rest = '"' :: (s.toList.flatMap escape ++ '"' :: rest) := by
  rw [quoted, List.cons_append, List.cons_append, List.append_assoc, List.singleton_append]

/-- A string is read back behind its opening quote. -/
theorem string?_quoted (s : String) (rest : List Char) :
    string? (s.toList.flatMap escape ++ '"' :: rest) = some (some s, rest) := by
  rw [string?, pieces?_flatMap_escape, Option.map_some]
  simp only [joinPieces?_map_pieceOf, Option.map_some, String.ofList_toList]

/-! ### Values -/

section

variable (format : NumberFormat)

mutual

/-- What the text of a document is read as, inside `depth` arrays and objects. -/
def reread (depth : Nat) : Document → Document
  | null => null
  | bool b => bool b
  | integer n => ofNumeral (.ofInt n)
  | real (.finite negative m) => ofNumeral (format.numeral negative m)
  | real _ => null
  | text s => text s
  | list ds => limited depth (list (rereadItems (depth + 1) ds))
  | object ms => limited depth (object (rereadMembers (depth + 1) ms))
  | unreadable => unreadable

/-- What the texts of items are read as. -/
def rereadItems (depth : Nat) : List Document → List Document
  | [] => []
  | d :: ds => d.reread depth :: rereadItems depth ds

/-- What the texts of members are read as. -/
def rereadMembers (depth : Nat) : List (String × Document) → List (String × Document)
  | [] => []
  | (name, d) :: ms => (name, d.reread depth) :: rereadMembers depth ms

end

end

variable {format : NumberFormat} {depth steps : Nat} {s rest : List Char}

theorem skipGap_cons {c : Char} (h : isGap c = false) (s : List Char) :
    skipGap (c :: s) = c :: s := by
  rw [skipGap, List.dropWhile_cons_of_neg (by simp [h])]

/-- A numeral starts with none of the characters that start something else, end an array or are
gaps. -/
theorem exists_cons_of_read? {n : Numeral} (h : Numeral.read? s = some (n, rest)) :
    ∃ c t, s = c :: t ∧
      ∀ w ∈ ['n', 't', 'f', '"', '[', '{', ']', ' ', '\t', '\n', '\r'], c ≠ w := by
  obtain ⟨c, t, rfl, hc⟩ := Numeral.exists_cons_of_read? h
  refine ⟨c, t, rfl, fun w hw ↦ ?_⟩
  rintro rfl
  rcases hc with rfl | hdigit
  · exact absurd hw (by decide)
  · have hnone : ['n', 't', 'f', '"', '[', '{', ']', ' ', '\t', '\n', '\r'].all
        (fun w ↦ w.isDigit == false) = true := rfl
    have hfalse : c.isDigit = false := beq_iff_eq.1 (List.all_eq_true.1 hnone c hw)
    exact absurd hdigit (by rw [hfalse]; exact Bool.false_ne_true)

theorem isGap_eq_false {c : Char} (h : ∀ w ∈ [' ', '\t', '\n', '\r'], c ≠ w) :
    isGap c = false := by
  simpa [isGap, and_assoc] using h

/-- A numeral is read as a value. -/
theorem value?_of_read? {n : Numeral} (h : Numeral.read? s = some (n, rest)) :
    value? (steps + 1) depth s = some (ofNumeral n, rest) := by
  obtain ⟨c, t, rfl, hc⟩ := exists_cons_of_read? h
  have hgap : isGap c = false := isGap_eq_false fun w hw ↦ hc w (by simp at hw ⊢; tauto)
  rw [value?, skipGap_cons hgap]
  split
  all_goals try exact absurd (List.cons.inj ‹_›).1 (hc _ (by decide))
  rw [h, Option.map_some]

theorem value?_quote (s : List Char) :
    value? (steps + 1) depth ('"' :: s) =
      (string? s).map fun (t, rest) ↦ ((t.map text).getD unreadable, rest) :=
  rfl

/-- An array with items: they start right behind the bracket. -/
theorem value?_bracket {ds : List Document}
    (hs : ∃ c t, s = c :: t ∧ isGap c = false ∧ c ≠ ']')
    (hitems : items? steps (depth + 1) s = some (ds, rest)) :
    value? (steps + 1) depth ('[' :: s) = some (limited depth (list ds), rest) := by
  obtain ⟨c, t, rfl, hgap, hc⟩ := hs
  rw [value?, skipGap_cons rfl]
  simp only [skipGap_cons hgap]
  split
  · next heq => exact absurd (List.cons.inj heq).1 hc
  · rw [hitems]
    rfl

/-- An object with members: the name of the first one stands right behind the brace. -/
theorem value?_brace {name : String} {ms : List (String × Document)}
    (hmembers : members? steps (depth + 1) (quoted name ++ s) = some (some ms, rest)) :
    value? (steps + 1) depth ('{' :: (quoted name ++ s)) =
      some (limited depth (object ms), rest) := by
  have hopen : value? (steps + 1) depth ('{' :: (quoted name ++ s)) =
      (members? steps (depth + 1) (quoted name ++ s)).map fun p ↦
        (limited depth ((p.1.map object).getD unreadable), p.2) := rfl
  rw [hopen, hmembers]
  rfl

/-- The text of a document starts with a character that neither is a gap nor ends an array. -/
theorem exists_cons_chars (format : NumberFormat) {d : Document} (h : d.isReadable = true) :
    ∃ c t, d.chars format.text = c :: t ∧ isGap c = false ∧ c ≠ ']' := by
  have hnumeral {s : List Char} {p : Numeral × List Char} (hread : Numeral.read? s = some p) :
      ∃ c t, s = c :: t ∧ isGap c = false ∧ c ≠ ']' := by
    obtain ⟨c, t, rfl, hc⟩ := exists_cons_of_read? hread
    exact ⟨c, t, rfl, isGap_eq_false fun w hw ↦ hc w (by simp at hw ⊢; tauto), hc _ (by decide)⟩
  match d with
  | null | bool true | bool false | text _ | list [] | list (_ :: _) | object []
  | object ((_, _) :: _) | real .nan | real (.infinite _) => exact ⟨_, _, rfl, rfl, by decide⟩
  | integer i =>
    have hread := Numeral.read?_write (Numeral.isWellFormed_ofInt i) (stopsAt_nil _)
    rw [List.append_nil] at hread
    exact hnumeral hread
  | real (.finite negative m) =>
    have hread := format.read?_text negative m (stopsAt_nil _)
    rw [List.append_nil] at hread
    exact hnumeral hread
  | unreadable => cases h

theorem stopsAt_moreItems (ds : List Document) (rest : List Char) :
    StopsAt Numeral.continues (moreItems format.text ds ++ rest) := by
  cases ds with
  | nil => exact stopsAt_cons rfl _
  | cons d ds => exact stopsAt_cons rfl _

theorem stopsAt_moreMembers (ms : List (String × Document)) (rest : List Char) :
    StopsAt Numeral.continues (moreMembers format.text ms ++ rest) := by
  match ms with
  | [] => exact stopsAt_cons rfl _
  | (_, _) :: _ => exact stopsAt_cons rfl _

theorem afterWord?_singleton (c : Char) (s : List Char) : afterWord? [c] (c :: s) = some s := by
  simp [afterWord?]

/-- Reading items: the first of them, and then the closing bracket or a comma and the others. -/
theorem items?_of_value? {d : Document} {ds : List Document} {after : List Char}
    (hvalue : value? steps depth s = some (d, after))
    (hafter : after = ']' :: rest ∧ ds = [] ∨
      ∃ t, after = ',' :: t ∧ items? steps depth t = some (ds, rest)) :
    items? (steps + 1) depth s = some (d :: ds, rest) := by
  rw [items?, hvalue, Option.bind_eq_bind, Option.bind_some]
  rcases hafter with ⟨rfl, rfl⟩ | ⟨t, rfl, ht⟩
  · rfl
  · simp only [skipGap_cons (show isGap ',' = false from rfl), ht]
    rfl

/-- Reading members, likewise. -/
theorem members?_of_value? {name : String} {d : Document} {ms : List (String × Document)}
    {after : List Char} (hvalue : value? steps depth s = some (d, after))
    (hafter : after = '}' :: rest ∧ ms = [] ∨
      ∃ t, after = ',' :: t ∧ members? steps depth t = some (some ms, rest)) :
    members? (steps + 1) depth (quoted name ++ ':' :: s) = some (some ((name, d) :: ms), rest) := by
  rw [quoted_append, members?, skipGap_cons rfl]
  simp only [afterWord?_singleton, string?_quoted, skipGap_cons (show isGap ':' = false from rfl),
    hvalue, Option.bind_eq_bind, Option.bind_some]
  rcases hafter with ⟨rfl, rfl⟩ | ⟨t, rfl, ht⟩
  · rfl
  · simp only [skipGap_cons (show isGap ',' = false from rfl), ht]
    rfl

mutual

/-- **The text of a document is read as the document, with its numerals read.** -/
theorem value?_chars (d : Document) (h : d.isReadable = true) {steps depth : Nat}
    (hsteps : 2 * (d.chars format.text).length ≤ steps) {rest : List Char}
    (hrest : StopsAt Numeral.continues rest) :
    value? steps depth (d.chars format.text ++ rest) = some (d.reread format depth, rest) := by
  -- There is a character, so there is a step.
  obtain ⟨c, t, hcons, -⟩ := exists_cons_chars format h
  have hlength : (d.chars format.text).length = t.length + 1 := by rw [hcons, List.length_cons]
  obtain ⟨steps, rfl⟩ : ∃ k, steps = k + 1 := ⟨steps - 1, by omega⟩
  match d with
  | null | bool true | bool false | list [] | object [] | real .nan | real (.infinite _) => rfl
  | text t =>
    show value? (steps + 1) depth (quoted t ++ rest) = _
    rw [quoted_append, value?_quote, string?_quoted]
    rfl
  | integer i => exact value?_of_read? (Numeral.read?_write (Numeral.isWellFormed_ofInt i) hrest)
  | real (.finite negative m) => exact value?_of_read? (format.read?_text negative m hrest)
  | list (d :: ds) =>
    rw [chars, List.length_cons] at hsteps
    have hitems : items? steps (depth + 1) (d.chars format.text ++ moreItems format.text ds ++ rest)
        = some (rereadItems format (depth + 1) (d :: ds), rest) :=
      items?_chars (d :: ds) h rfl (by omega) rest
    refine value?_bracket ?_ hitems
    obtain ⟨c, t, hd, hstart⟩ := exists_cons_chars format (Bool.and_eq_true_iff.1 h).1
    exact ⟨c, _, by rw [hd]; rfl, hstart⟩
  | object ((name, d) :: ms) =>
    rw [chars, List.length_cons] at hsteps
    have hmembers : members? steps (depth + 1)
        (quoted name ++ ':' :: (d.chars format.text ++ moreMembers format.text ms) ++ rest) =
          some (some (rereadMembers format (depth + 1) ((name, d) :: ms)), rest) :=
      members?_chars ((name, d) :: ms) h rfl (by omega) rest
    rw [List.append_assoc] at hmembers
    show value? (steps + 1) depth ('{' :: (quoted name ++ _ ++ rest)) = _
    rw [List.append_assoc]
    exact value?_brace hmembers
  | unreadable => cases h

/-- The text of items behind the first comma. -/
theorem items?_chars (ds : List Document) (h : areReadable ds = true) {steps depth : Nat}
    {body : List Char} (hbody : moreItems format.text ds = ',' :: body)
    (hsteps : 2 * body.length + 1 ≤ steps) (rest : List Char) :
    items? steps depth (body ++ rest) = some (rereadItems format depth ds, rest) := by
  match ds with
  | [] => cases hbody
  | d :: ds =>
    obtain ⟨hd, hds⟩ := Bool.and_eq_true_iff.1 h
    obtain rfl := (List.cons.inj hbody).2
    obtain ⟨steps, rfl⟩ : ∃ k, steps = k + 1 := ⟨steps - 1, by omega⟩
    rw [List.length_append] at hsteps
    rw [List.append_assoc]
    refine items?_of_value? (value?_chars d hd (by omega) (stopsAt_moreItems ds rest)) ?_
    match ds with
    | [] => exact .inl ⟨rfl, rfl⟩
    | e :: es =>
      rw [moreItems, List.length_cons] at hsteps
      exact .inr ⟨_, rfl, items?_chars (e :: es) hds rfl (by omega) rest⟩

/-- The text of members behind the first comma. -/
theorem members?_chars (ms : List (String × Document)) (h : haveReadableValues ms = true)
    {steps depth : Nat} {body : List Char} (hbody : moreMembers format.text ms = ',' :: body)
    (hsteps : 2 * body.length + 1 ≤ steps) (rest : List Char) :
    members? steps depth (body ++ rest) = some (some (rereadMembers format depth ms), rest) := by
  match ms with
  | [] => cases hbody
  | (name, d) :: ms =>
    obtain ⟨hd, hms⟩ := Bool.and_eq_true_iff.1 h
    obtain rfl := (List.cons.inj hbody).2
    obtain ⟨steps, rfl⟩ : ∃ k, steps = k + 1 := ⟨steps - 1, by omega⟩
    rw [List.length_append, List.length_cons, List.length_append] at hsteps
    rw [List.append_assoc, List.cons_append, List.append_assoc]
    refine members?_of_value? (value?_chars d hd (by omega) (stopsAt_moreMembers ms rest)) ?_
    match ms with
    | [] => exact .inl ⟨rfl, rfl⟩
    | (name', e) :: es =>
      rw [moreMembers, List.length_cons] at hsteps
      exact .inr ⟨_, rfl, members?_chars ((name', e) :: es) hms rfl (by omega) rest⟩

end

/-- The text of a document alone is read. -/
theorem parse?_chars {d : Document} (h : d.isReadable = true) :
    parse? (String.ofList (d.chars format.text)) = some (d.reread format 0) := by
  have hvalue : value? (2 * (d.chars format.text).length + 2) 0 (d.chars format.text ++ []) =
      some (d.reread format 0, []) :=
    value?_chars d h (Nat.le_add_right _ 2) (stopsAt_nil _)
  rw [List.append_nil] at hvalue
  rw [parse?, String.toList_ofList]
  simp only [hvalue, Option.bind_eq_bind, Option.bind_some]
  rfl

/-- A readable document is read back from its text, if its numbers are. -/
theorem read?_toText {d : Document} (hreadable : d.isReadable = true)
    (hnumbers : d.reread .shortest 0 = d) : read? d.toText = some d := by
  have hparse : parse? (String.ofList (d.chars NumberFormat.shortest.text)) =
      some (d.reread .shortest 0) := parse?_chars hreadable
  rw [hnumbers] at hparse
  show (parse? (String.ofList (d.chars NumberFormat.shortest.text))).filter isReadable = some d
  rw [hparse]
  exact Option.filter_eq_some_iff.2 ⟨rfl, hreadable⟩

/-- Items are read one by one. -/
theorem rereadItems_eq_map (ds : List Document) :
    rereadItems format depth ds = ds.map (·.reread format depth) := by
  induction ds with
  | nil => rfl
  | cons d ds ih => rw [rereadItems, ih, List.map_cons]

/-- Members are read one by one and keep their names. -/
theorem rereadMembers_eq_map (ms : List (String × Document)) :
    rereadMembers format depth ms = ms.map fun m ↦ (m.1, m.2.reread format depth) := by
  induction ms with
  | nil => rfl
  | cons m ms ih => rw [rereadMembers, ih, List.map_cons]

end Storefront.Document
