import Storefront.Proofs.Serialized.Recognition
/-!
# Reading makes progress, whatever the counts say

The count in front of an array's entries is read from the text and may say anything up to
`2 ^ 64 - 1`. What bounds the work is the text: a key that is read makes it at least four bytes
shorter and a value at least two, also an empty text and an array without entries
(`shorterBy_of_key`, `shorterBy_of_value`). Both are read off the grammar.

To say how often entries are tried, the readers of arrays are written once more with a count of the
rounds they begin (`Counted`). Counting changes nothing about what is read
(`outcome_countedEntries`, `outcome_countedValue`), and no round is missed: each entry that is read
took one (`le_rounds_countedEntries`). The count pays for itself: a round that goes well takes six
bytes, and in one that does not reading ends. `Thrifty` says so of an outcome and adds up along a
sequence of steps (`Thrifty.bind`). The entry loop is thrifty if what reads the values is
(`thrifty_countedEntries`), and so values are, by induction on the room that is left for arrays
(`thrifty_countedValue`). This bounds all rounds of a text together, not only those of one array.
-/

namespace Storefront.Serialized

open Text

/-! ### Lengths of spellings -/

section

variable {s : List Char}

theorem PositiveNumeral.length_pos (h : PositiveNumeral s) : 0 < s.length := by
  obtain ⟨-, -, -⟩ := h
  exact Nat.succ_pos _

theorem SpellsCount.length_pos {n : Nat} (h : SpellsCount s n) : 0 < s.length := by
  cases h with
  | zero => exact Nat.one_pos
  | positive h _ => exact h.length_pos

theorem SpellsInteger.length_pos {n : Int64} (h : SpellsInteger s n) : 0 < s.length := by
  cases h with
  | zero => exact Nat.one_pos
  | positive h _ => exact h.length_pos
  | plus | minus => exact Nat.succ_pos _

theorem SpellsText.four_le_length {t : String} (h : SpellsText s t) : 4 ≤ s.length := by
  obtain ⟨hcount⟩ := h
  have hpos := hcount.length_pos
  simp only [List.length_append, List.length_cons, List.length_nil]
  omega

/-- The shortest key is `i:0;`. -/
theorem SpellsKey.four_le_length {k : StoredKey} (h : SpellsKey s k) : 4 ≤ s.length := by
  cases h with
  | position h =>
    have hpos := h.length_pos
    simp only [List.length_append, List.length_cons, List.length_nil]
    omega
  | name h =>
    have hfour := h.four_le_length
    simp only [List.length_append]
    omega

/-- The shortest value is `N;`. -/
theorem SpellsValue.two_le_length {depth : Nat} {v : StoredValue} (h : SpellsValue depth s v) :
    2 ≤ s.length := by
  cases h with
  | null => exact Nat.le_refl 2
  | bool | int | float | text | array | object =>
    simp only [List.length_append, List.length_cons, List.length_nil]
    omega

end

/-! ### Shorter rests -/

/-- A text is what is left of another one of which at least `n` bytes were taken. -/
structure ShorterBy (n : Nat) (rest s : List Char) : Prop where
  /-- It is the end of the other one. -/
  suffix : rest <:+ s
  /-- It has at least `n` bytes less. -/
  byteLength_add_le : byteLength rest + n ≤ byteLength s

theorem shorterBy_append {n : Nat} {front : List Char} (h : n ≤ front.length) (rest : List Char) :
    ShorterBy n rest (front ++ rest) where
  suffix := List.suffix_append front rest
  byteLength_add_le := by
    have hbytes := length_le_byteLength front
    rw [byteLength_append]
    omega

/-- What a reader takes is at least as long as the shortest thing that it recognizes. -/
theorem Recognizes.shorterBy {α : Type} {reader : Reader α} {Spells : List Char → α → Prop}
    {Follows : List Char → Prop} (h : Recognizes reader Spells Follows) {n : Nat}
    (hlength : ∀ front a, Spells front a → n ≤ front.length) {s rest : List Char} {a : α}
    (hread : reader s = .ok (a, rest)) : ShorterBy n rest s := by
  obtain ⟨front, rfl, hfront⟩ := h.exists_of_ok hread
  exact shorterBy_append (hlength front a hfront) rest

theorem shorterBy_of_key {s rest : List Char} {k : StoredKey} (h : key s = .ok (k, rest)) :
    ShorterBy 4 rest s :=
  recognizes_key.shorterBy (fun _ _ ↦ SpellsKey.four_le_length) h

/-- What is left for arrays in a value that stands in `depth` of them is one of the rooms that the
grammar knows; from the limit on there is none. -/
theorem recognizes_value_within (depth : Nat) :
    Recognizes (value (maxNesting - depth)) (SpellsValue (min depth maxNesting)) Anything :=
  recognizes_value (by rw [maxNesting]; omega)

theorem shorterBy_of_value {depth : Nat} {s rest : List Char} {v : StoredValue}
    (h : value (maxNesting - depth) s = .ok (v, rest)) : ShorterBy 2 rest s :=
  (recognizes_value_within depth).shorterBy (fun _ _ ↦ SpellsValue.two_le_length) h

theorem shorterBy_of_length {s rest : List Char} {n : Nat} (h : length s = .ok (n, rest)) :
    ShorterBy 1 rest s :=
  recognizes_length.shorterBy (fun _ _ ↦ SpellsCount.length_pos) h

theorem shorterBy_of_literal {expected s rest : List Char} (h : literal expected s = .ok rest) :
    ShorterBy expected.length rest s := by
  rw [literal_eq_ok_iff.1 h]
  exact shorterBy_append (Nat.le_refl _) rest

theorem ShorterBy.trans {m n : Nat} {rest between s : List Char} (h : ShorterBy m between s)
    (h' : ShorterBy n rest between) : ShorterBy (m + n) rest s where
  suffix := h'.suffix.trans h.suffix
  byteLength_add_le := by
    have hfirst := h.byteLength_add_le
    have hsecond := h'.byteLength_add_le
    omega

/-- Entries that are read took six bytes each. -/
theorem shorterBy_of_entries {depth n : Nat} {s rest : List Char}
    {es : List (StoredKey × StoredValue)}
    (h : entries (value (maxNesting - depth)) n s = .ok (es, rest)) : ShorterBy (6 * n) rest s := by
  induction n generalizing s es with
  | zero =>
    obtain ⟨-, rfl⟩ := Prod.mk.inj (Except.ok.inj h)
    exact ⟨List.suffix_rfl, Nat.le_refl _⟩
  | succ n ih =>
    obtain ⟨⟨k, s₁⟩, hkey, h⟩ := bind_eq_ok_iff.1 h
    obtain ⟨⟨v, s₂⟩, hvalue, h⟩ := bind_eq_ok_iff.1 h
    obtain ⟨⟨es, s₃⟩, hentries, h⟩ := bind_eq_ok_iff.1 h
    obtain ⟨-, rfl⟩ := Prod.mk.inj (Except.ok.inj h)
    have hentry := (shorterBy_of_key hkey).trans (shorterBy_of_value hvalue)
    rw [Nat.mul_succ, Nat.add_comm]
    exact hentry.trans (ih hentries)

/-- An array is read only if its entries and its closing brace can stand behind its opening one. -/
theorem le_byteLength_of_arrayBody {depth n : Nat} {declared after rest : List Char}
    {v : StoredValue} (hcount : SpellsCount declared n)
    (h : arrayBody (value (maxNesting - depth)) (declared ++ ':' :: '{' :: after) =
      .ok (v, rest)) : 6 * n + 1 ≤ byteLength after := by
  have hlength := recognizes_length.ok_append hcount (':' :: '{' :: after)
    (stopsAt_cons (by decide) _)
  simp only [arrayBody, hlength, ok_bind, literal_two] at h
  obtain ⟨⟨es, s₁⟩, hentries, h⟩ := bind_eq_ok_iff.1 h
  obtain ⟨s₂, hclose, -⟩ := bind_eq_ok_iff.1 h
  have hbytes : byteLength s₁ + 6 * n ≤ byteLength after :=
    (shorterBy_of_entries hentries).byteLength_add_le
  have hbrace : byteLength s₂ + 1 ≤ byteLength s₁ :=
    (shorterBy_of_literal hclose).byteLength_add_le
  omega

/-! ### Counting rounds -/

/-- An outcome of reading, with the number of rounds that were begun to read an entry. -/
structure Counted (α : Type) where
  /-- How many rounds were begun. -/
  rounds : Nat
  /-- The outcome. -/
  outcome : Except Failure α

namespace Counted

variable {α β : Type}

/-- A step that begins no round. -/
def ofOutcome (outcome : Except Failure α) : Counted α := ⟨0, outcome⟩

/-- The beginning of a round. -/
def tick : Counted Unit := ⟨1, .ok ()⟩

/-- Two steps, the second of which is taken if the first one succeeds. -/
def bind (x : Counted α) (next : α → Counted β) : Counted β :=
  match x.outcome with
  | .ok a => ⟨x.rounds + (next a).rounds, (next a).outcome⟩
  | .error f => ⟨x.rounds, .error f⟩

instance : Monad Counted where
  pure a := ofOutcome (.ok a)
  bind := bind

theorem outcome_bind (x : Counted α) (next : α → Counted β) :
    (x >>= next).outcome = x.outcome >>= fun a ↦ (next a).outcome := by
  show (bind x next).outcome = _
  rw [bind]
  cases x.outcome with
  | ok a => rfl
  | error f => rfl

/-- Two steps that succeed begin the rounds of both. -/
theorem exists_of_outcome_bind {x : Counted α} {next : α → Counted β} {b : β}
    (h : (x >>= next).outcome = .ok b) :
    ∃ a, x.outcome = .ok a ∧ (next a).outcome = .ok b ∧
      (x >>= next).rounds = x.rounds + (next a).rounds := by
  obtain ⟨rounds, f | a⟩ := x
  · cases h
  · exact ⟨a, rfl, h, rfl⟩

end Counted

/-- A reader that counts the rounds it begins. -/
abbrev CountingReader (α : Type) := List Char → Counted (α × List Char)

/-- The given number of keys and values, each value read by `element`, with the rounds that are
begun here and by `element`. -/
def countedEntries (element : CountingReader StoredValue) :
    Nat → CountingReader (List (StoredKey × StoredValue))
  | 0, s => pure ([], s)
  | n + 1, s => do
    Counted.tick
    let (k, s) ← Counted.ofOutcome (key s)
    let (v, s) ← element s
    let (es, s) ← countedEntries element n s
    pure ((k, v) :: es, s)

/-- An array from its count on, with the rounds that are begun. -/
def countedArrayBody (element : CountingReader StoredValue) :
    CountingReader StoredValue := fun s ↦ do
  let (n, s) ← Counted.ofOutcome (length s)
  let s ← Counted.ofOutcome (literal [':', '{'] s)
  let (es, s) ← countedEntries element n s
  let s ← Counted.ofOutcome (literal ['}'] s)
  pure (.array es, s)

/-- Where the body of an array starts: behind its tag, or behind the class name of an object. -/
def bodyStart? : List Char → Option (List Char)
  | 'a' :: ':' :: s => some s
  | 'O' :: ':' :: s => (className s).toOption
  | _ => none

/-- A value, with the rounds that are begun by `body`. Elsewhere there are none. -/
def countedTagged (body : CountingReader StoredValue) : CountingReader StoredValue := fun s ↦
  match bodyStart? s with
  | some r => body r
  | none => .ofOutcome (value 0 s)

/-- A value in which arrays nest at most `room` deep, with the rounds that are begun for all of
them. -/
def countedValue : Nat → CountingReader StoredValue
  | 0 => countedTagged fun s ↦ .ofOutcome (.error ⟨s, .nesting⟩)
  | room + 1 => countedTagged (countedArrayBody (countedValue room))

section

variable {counting : CountingReader StoredValue} {reader : Reader StoredValue}

theorem outcome_countedEntries (h : ∀ s, (counting s).outcome = reader s) (n : Nat)
    (s : List Char) : (countedEntries counting n s).outcome = entries reader n s := by
  induction n generalizing s with
  | zero => rfl
  | succ n ih =>
    simp only [countedEntries, entries, Counted.outcome_bind, h, ih]
    rfl

/-- Each entry that is read took a round. -/
theorem le_rounds_countedEntries {n : Nat} {s : List Char}
    {read : List (StoredKey × StoredValue) × List Char}
    (h : (countedEntries counting n s).outcome = .ok read) :
    n ≤ (countedEntries counting n s).rounds := by
  induction n generalizing s read with
  | zero => exact Nat.zero_le _
  | succ n ih =>
    obtain ⟨_, -, h, htick⟩ := Counted.exists_of_outcome_bind h
    obtain ⟨_, -, h, hkey⟩ := Counted.exists_of_outcome_bind h
    obtain ⟨_, -, h, helement⟩ := Counted.exists_of_outcome_bind h
    obtain ⟨_, hentries, -, hrest⟩ := Counted.exists_of_outcome_bind h
    have hn := ih hentries
    have hone : Counted.tick.rounds = 1 := rfl
    rw [countedEntries, htick, hkey, helement, hrest]
    omega

theorem outcome_countedArrayBody (h : ∀ s, (counting s).outcome = reader s) (s : List Char) :
    (countedArrayBody counting s).outcome = arrayBody reader s := by
  simp only [countedArrayBody, arrayBody, Counted.outcome_bind, outcome_countedEntries h]
  rfl

/-- A text with the front of an array or object is read by reading what stands behind it. -/
theorem tagged_of_bodyStart? {s r : List Char} (h : bodyStart? s = some r)
    (body : Reader StoredValue) : tagged body s = body r := by
  unfold bodyStart? at h
  split at h
  · obtain rfl := Option.some.inj h
    rfl
  · next t =>
    show (className t >>= body) = body r
    cases hclass : className t with
    | error f => rw [hclass] at h; cases h
    | ok u =>
      rw [hclass] at h
      obtain rfl := Option.some.inj h
      rfl
  · cases h

/-- Any other text is read without reading an array. -/
theorem tagged_of_bodyStart?_eq_none {s : List Char} (h : bodyStart? s = none)
    (body other : Reader StoredValue) : tagged body s = tagged other s := by
  have hcolon {tag : Char} {t : List Char} (hstart : bodyStart? (tag :: t) = none)
      {read read' : List Char → Except Failure (StoredValue × List Char)}
      (hread : ∀ u, t = ':' :: u → read u = read' u) :
      (literal [':'] t >>= read) = (literal [':'] t >>= read') := by
    cases hliteral : literal [':'] t with
    | error f => rfl
    | ok u => exact hread u (literal_eq_ok_iff.1 hliteral)
  unfold tagged
  split
  · rfl
  · split
    · rfl
    · rfl
    · rfl
    · rfl
    · rfl
    · exact hcolon h fun u heq ↦ by rw [heq] at h; cases h
    · refine hcolon h fun u heq ↦ ?_
      rw [heq] at h
      have hclass : (className u).toOption = none := h
      cases hread : className u with
      | error f => rfl
      | ok r => rw [hread] at hclass; cases hclass
    · rfl

theorem shorterBy_of_bodyStart? {s r : List Char} (h : bodyStart? s = some r) :
    ShorterBy 2 r s := by
  unfold bodyStart? at h
  split at h
  · obtain rfl := Option.some.inj h
    have htag : 2 ≤ ['a', ':'].length := Nat.le_refl 2
    exact shorterBy_append htag _
  · next t =>
    cases hclass : className t with
    | error f => rw [hclass] at h; cases h
    | ok u =>
      rw [hclass] at h
      obtain rfl := Option.some.inj h
      obtain ⟨c, name, rfl, -⟩ := className_eq_ok_iff.1 hclass
      have hfold : 'O' :: ':' :: (c ++ ':' :: u) = ('O' :: ':' :: (c ++ [':'])) ++ u := by simp
      rw [hfold]
      exact shorterBy_append (Nat.le_add_left 2 _) u
  · cases h

theorem outcome_countedTagged (h : ∀ s, (counting s).outcome = reader s) (s : List Char) :
    (countedTagged counting s).outcome = tagged reader s := by
  rw [countedTagged]
  cases hstart : bodyStart? s with
  | none => exact tagged_of_bodyStart?_eq_none hstart _ _
  | some r => exact (h r).trans (tagged_of_bodyStart? hstart reader).symm

/-- Counting changes nothing about what is read. -/
theorem outcome_countedValue (room : Nat) (s : List Char) :
    (countedValue room s).outcome = value room s := by
  induction room generalizing s with
  | zero => exact outcome_countedTagged (fun _ ↦ rfl) s
  | succ room ih => exact outcome_countedTagged (outcome_countedArrayBody ih) s

end

/-! ### What rounds cost -/

/-- An outcome of reading `s` whose rounds are paid for at six bytes each: with success at least
`least` bytes were taken beyond that, without it at most `slack` bytes are missing. -/
def Thrifty {α : Type} (least slack : Nat) (s : List Char) (x : Counted (α × List Char)) : Prop :=
  match x.outcome with
  | .ok (_, rest) => byteLength rest + 6 * x.rounds + least ≤ byteLength s
  | .error _ => 6 * x.rounds ≤ byteLength s + slack

section

variable {α β : Type} {least slack : Nat} {s rest : List Char} {x : Counted (α × List Char)}

theorem Thrifty.mono (h : Thrifty least slack s x) {less more : Nat} (hleast : less ≤ least)
    (hslack : slack ≤ more) : Thrifty less more s x := by
  unfold Thrifty at h ⊢
  split at h
  · omega
  · omega

theorem Thrifty.six_mul_rounds_le (h : Thrifty least slack s x) :
    6 * x.rounds ≤ byteLength s + slack := by
  unfold Thrifty at h
  split at h
  · omega
  · exact h

/-- What was taken in front of a rest, beyond the rounds there, is there for the rest. -/
theorem Thrifty.of_rest {n rounds : Nat} (h : Thrifty least (slack + n) rest x)
    (hrest : byteLength rest + 6 * rounds + n ≤ byteLength s) :
    Thrifty (n + least) slack s ⟨rounds + x.rounds, x.outcome⟩ := by
  unfold Thrifty at h ⊢
  dsimp only
  split at h
  · omega
  · omega

/-- A step that begins no round is paid for by what it takes. -/
theorem thrifty_ofOutcome {outcome : Except Failure (α × List Char)}
    (h : ∀ a rest, outcome = .ok (a, rest) → ShorterBy least rest s) (slack : Nat) :
    Thrifty least slack s (.ofOutcome outcome) := by
  cases outcome with
  | ok read => exact (h read.1 read.2 rfl).byteLength_add_le
  | error f => exact Nat.zero_le _

/-- Two steps. -/
theorem Thrifty.bind {n : Nat} (h : Thrifty n slack s x)
    {next : α × List Char → Counted (β × List Char)}
    (hnext : ∀ a rest, Thrifty least (slack + n) rest (next (a, rest))) :
    Thrifty (n + least) slack s (x >>= next) := by
  obtain ⟨rounds, f | ⟨a, rest⟩⟩ := x
  · exact h
  · exact (hnext a rest).of_rest h

/-- A literal in front. -/
theorem thrifty_literal_bind {expected : List Char} {next : List Char → Counted (β × List Char)}
    (hnext : ∀ rest, Thrifty least (slack + expected.length) rest (next rest)) :
    Thrifty (expected.length + least) slack s
      (Counted.ofOutcome (literal expected s) >>= next) := by
  cases hread : literal expected s with
  | error f => exact Nat.zero_le _
  | ok rest => exact (hnext rest).of_rest (shorterBy_of_literal hread).byteLength_add_le

/-- The beginning of a round in front. -/
theorem Thrifty.tick_bind (h : Thrifty (least + 6) slack s x) :
    Thrifty least (slack + 6) s (Counted.tick >>= fun _ ↦ x) := by
  show Thrifty least (slack + 6) s ⟨1 + x.rounds, x.outcome⟩
  unfold Thrifty at h ⊢
  dsimp only
  split at h
  · omega
  · omega

theorem thrifty_pure (a : α) (slack : Nat) (s : List Char) :
    Thrifty 0 slack s (pure (a, s) : Counted (α × List Char)) :=
  Nat.le_refl _

end

section

variable {element body : CountingReader StoredValue}

/-- A key takes four bytes and a value two, so a round that goes well is paid for. At most one does
not. -/
theorem thrifty_countedEntries (h : ∀ s, Thrifty 2 4 s (element s)) (n : Nat) (s : List Char) :
    Thrifty 0 6 s (countedEntries element n s) := by
  induction n generalizing s with
  | zero => exact thrifty_pure _ _ _
  | succ n ih =>
    have hround : Thrifty (4 + (2 + (0 + 0))) 0 s (do
        let (k, s) ← Counted.ofOutcome (key s)
        let (v, s) ← element s
        let (es, s) ← countedEntries element n s
        pure ((k, v) :: es, s)) := by
      refine (thrifty_ofOutcome (fun _ _ ↦ shorterBy_of_key) 0).bind fun k rest ↦ ?_
      refine (h rest).bind fun v rest ↦ ?_
      exact (ih rest).bind fun es rest ↦ thrifty_pure _ _ rest
    exact hround.tick_bind

theorem thrifty_countedArrayBody (h : ∀ s, Thrifty 2 4 s (element s)) (s : List Char) :
    Thrifty 4 3 s (countedArrayBody element s) := by
  show Thrifty (1 + (2 + (0 + (1 + 0)))) 3 s (countedArrayBody element s)
  refine (thrifty_ofOutcome (fun _ _ ↦ shorterBy_of_length) 3).bind fun n rest ↦ ?_
  refine thrifty_literal_bind fun rest ↦ ?_
  refine (thrifty_countedEntries h n rest).bind fun es rest ↦ ?_
  exact thrifty_literal_bind fun rest ↦ thrifty_pure _ _ rest

theorem thrifty_countedTagged (h : ∀ s, Thrifty 0 3 s (body s)) (s : List Char) :
    Thrifty 2 1 s (countedTagged body s) := by
  rw [countedTagged]
  cases hstart : bodyStart? s with
  | none =>
    have hscalar (v : StoredValue) (rest : List Char) (hread : value 0 s = .ok (v, rest)) :
        ShorterBy 2 rest s := by
      rw [← Nat.sub_self maxNesting] at hread
      exact shorterBy_of_value hread
    exact thrifty_ofOutcome hscalar 1
  | some r =>
    have hbody : Thrifty (2 + 0) 1 s ⟨0 + (body r).rounds, (body r).outcome⟩ :=
      (h r).of_rest (shorterBy_of_bodyStart? hstart).byteLength_add_le
    rwa [Nat.zero_add] at hbody

/-- A value pays for all rounds that are begun for its arrays, but for a byte where it fails. -/
theorem thrifty_countedValue (room : Nat) (s : List Char) :
    Thrifty 2 1 s (countedValue room s) := by
  induction room generalizing s with
  | zero =>
    refine thrifty_countedTagged (fun s ↦ ?_) s
    exact Nat.zero_le _
  | succ room ih =>
    refine thrifty_countedTagged (fun s ↦ ?_) s
    have helement (s : List Char) := (ih s).mono (Nat.le_refl 2) (Nat.le_add_right 1 3)
    exact (thrifty_countedArrayBody helement s).mono (Nat.zero_le 4) (Nat.le_refl 3)

end

/-! ### What a text allows -/

/-- **Reading makes progress, whatever the counts say.** For every text and every number of arrays
around a value: a key that is read leaves an end of the text that is at least four bytes shorter,
and a value one that is at least two bytes shorter. So an array that is read has six bytes behind
its opening brace for each entry that it declares, and one for its closing brace. The loop over the
entries begins at most one round more than a sixth of the bytes in front of it, however many entries
are declared, and all loops within a value together begin at most a sixth of its bytes and one. -/
theorem shorterBy_and_rounds_le (depth : Nat) (s : List Char) :
    (∀ k rest, key s = .ok (k, rest) → rest <:+ s ∧ byteLength rest + 4 ≤ byteLength s) ∧
    (∀ v rest, value (maxNesting - depth) s = .ok (v, rest) →
      rest <:+ s ∧ byteLength rest + 2 ≤ byteLength s) ∧
    (∀ declared n after v rest, s = declared ++ ':' :: '{' :: after → SpellsCount declared n →
      arrayBody (value (maxNesting - depth)) s = .ok (v, rest) → 6 * n + 1 ≤ byteLength after) ∧
    (∀ n, let loop := countedEntries (fun s ↦ .ofOutcome (value (maxNesting - depth) s)) n s
      loop.outcome = entries (value (maxNesting - depth)) n s ∧
        loop.rounds ≤ byteLength s / 6 + 1) ∧
    let run := countedValue (maxNesting - depth) s
    run.outcome = value (maxNesting - depth) s ∧ run.rounds ≤ (byteLength s + 1) / 6 := by
  refine ⟨fun k rest h ↦ ?_, fun v rest h ↦ ?_, ?_, fun n ↦ ⟨?_, ?_⟩, ?_, ?_⟩
  · exact ⟨(shorterBy_of_key h).suffix, (shorterBy_of_key h).byteLength_add_le⟩
  · exact ⟨(shorterBy_of_value h).suffix, (shorterBy_of_value h).byteLength_add_le⟩
  · rintro declared n after v rest rfl hcount h
    exact le_byteLength_of_arrayBody hcount h
  · exact outcome_countedEntries (fun _ ↦ rfl) n s
  · have helement (s : List Char) :
        Thrifty 2 4 s (.ofOutcome (value (maxNesting - depth) s)) :=
      thrifty_ofOutcome (fun _ _ ↦ shorterBy_of_value) 4
    have hrounds := (thrifty_countedEntries helement n s).six_mul_rounds_le
    omega
  · exact outcome_countedValue _ s
  · have hrounds := (thrifty_countedValue (maxNesting - depth) s).six_mul_rounds_le
    omega

/-- An entry and a closing brace. -/
def entryChars : List Char := ['i', ':', '0', ';', 'N', ';', '}']

/-- The greatest count that can be declared. -/
def hostileCount : List Char := "18446744073709551615".toList

/-- An array that declares the greatest count and has one entry is given up in the second round. One
that declares what it has is read, and takes no byte too few. -/
theorem shorterBy_and_rounds_le_hostileCount :
    (key entryChars = .ok (.position 0, ['N', ';', '}']) ∧
      byteLength ['N', ';', '}'] + 4 ≤ byteLength entryChars) ∧
    (value (maxNesting - 1) ['N', ';', '}'] = .ok (.null, ['}']) ∧
      byteLength ['}'] + 2 ≤ byteLength ['N', ';', '}']) ∧
    (arrayBody (value (maxNesting - 1)) (['1'] ++ ':' :: '{' :: entryChars) =
        .ok (.array [(.position 0, .null)], []) ∧
      6 * 1 + 1 ≤ byteLength entryChars) ∧
    (SpellsCount hostileCount 18446744073709551615 ∧
      (countedEntries (fun s ↦ .ofOutcome (value (maxNesting - 1) s)) 18446744073709551615
        entryChars).rounds ≤ 2) ∧
    (countedValue (maxNesting - 0)
      (['a', ':'] ++ hostileCount ++ ':' :: '{' :: entryChars)).rounds ≤ 5 := by
  obtain ⟨hkey, -, -, hloop, -⟩ := shorterBy_and_rounds_le 1 entryChars
  obtain ⟨-, hvalue, -⟩ := shorterBy_and_rounds_le 1 ['N', ';', '}']
  obtain ⟨-, -, harray, -⟩ := shorterBy_and_rounds_le 1 (['1'] ++ ':' :: '{' :: entryChars)
  obtain ⟨-, -, -, -, -, hrun⟩ :=
    shorterBy_and_rounds_le 0 (['a', ':'] ++ hostileCount ++ ':' :: '{' :: entryChars)
  have hone : SpellsCount ['1'] 1 := .positive (.digits rfl (by decide) (by simp)) (by decide)
  have hhostile : SpellsCount hostileCount 18446744073709551615 :=
    .positive (.digits rfl (by decide) (List.all_eq_true.1 (by decide))) (by decide)
  have hkeyRead : key entryChars = .ok (.position 0, ['N', ';', '}']) := rfl
  have hvalueRead : value (maxNesting - 1) ['N', ';', '}'] = .ok (.null, ['}']) := rfl
  have harrayRead : arrayBody (value (maxNesting - 1)) (['1'] ++ ':' :: '{' :: entryChars) =
      .ok (.array [(.position 0, .null)], []) := rfl
  exact ⟨⟨hkeyRead, (hkey _ _ hkeyRead).2⟩, ⟨hvalueRead, (hvalue _ _ hvalueRead).2⟩,
    ⟨harrayRead, harray _ _ _ _ _ rfl hone harrayRead⟩, ⟨hhostile, (hloop _).2⟩, hrun⟩

end Storefront.Serialized
