import Storefront.Binary64.Order
import Storefront.Serialized.Grammar
import Storefront.Proofs.Serialized.RoundTrip
/-!
# The reader recognizes the grammar

Decoding accepts exactly the texts that the grammar derives, with the values that it gives them
(`decode_eq_ok_iff`). Nothing else is accepted, no derivable text is refused, and an accepted value
nests at most thirty-two arrays.

A reader *recognizes* a set of spellings (`Recognizes`) if what it takes off the front of a text is
a spelling, and if it takes off every spelling that is followed by something that cannot be a part
of it. Both halves are kept together, one lemma for each piece of the grammar, and are carried over
to values by induction on the room that is left for arrays (`recognizes_value`).
-/

namespace Storefront.Serialized

open Text

/-! ### Readers taken apart -/

section

variable {α β : Type}

/-- Two steps succeed if the first one does and the second one does on what it gave. -/
theorem bind_eq_ok_iff {x : Except Failure α} {f : α → Except Failure β} {b : β} :
    (x >>= f) = .ok b ↔ ∃ a, x = .ok a ∧ f a = .ok b := by
  cases x with
  | error e =>
    rw [error_bind]
    exact ⟨nofun, fun ⟨_, h, _⟩ ↦ nomatch h⟩
  | ok a =>
    rw [ok_bind]
    exact ⟨fun h ↦ ⟨a, rfl, h⟩, fun ⟨_, h, hf⟩ ↦ Except.ok.inj h ▸ hf⟩

theorem map_eq_ok_iff {x : Except Failure α} {f : α → β} {b : β} :
    x.map f = .ok b ↔ ∃ a, x = .ok a ∧ f a = b := by
  cases x with
  | error e => exact ⟨nofun, fun ⟨_, h, _⟩ ↦ nomatch h⟩
  | ok a =>
    constructor
    · intro h
      exact ⟨a, rfl, Except.ok.inj h⟩
    · rintro ⟨_, h, rfl⟩
      rw [Except.ok.inj h]
      rfl

theorem literal_eq_ok_iff {expected s rest : List Char} :
    literal expected s = .ok rest ↔ s = expected ++ rest := by
  constructor
  · intro h
    rw [literal] at h
    split at h
    · next hstart =>
      obtain ⟨r, rfl⟩ := List.isPrefixOf_iff_prefix.1 hstart
      rw [List.drop_left] at h
      rw [Except.ok.inj h]
    · cases h
  · rintro rfl
    exact literal_append expected rest

/-- A reader takes spellings off the front of a text and nothing else. It takes off every spelling
in front of a text that `Follows` allows. -/
structure Recognizes (reader : Reader α) (Spells : List Char → α → Prop)
    (Follows : List Char → Prop) : Prop where
  /-- What is taken off is a spelling of what is read. -/
  exists_of_ok {s rest : List Char} {a : α} (h : reader s = .ok (a, rest)) :
    ∃ front, s = front ++ rest ∧ Spells front a
  /-- Every spelling is taken off. -/
  ok_append {front : List Char} {a : α} (h : Spells front a) (rest : List Char)
    (hrest : Follows rest) : reader (front ++ rest) = .ok (a, rest)

/-- What may follow a spelling that shows where it ends. -/
def Anything (_ : List Char) : Prop := True

/-- What stands between a colon and a semicolon is read if it is a spelling. -/
theorem Recognizes.map_scalar_eq_ok_iff {body : Reader α} {Spells : List Char → α → Prop}
    {Follows : List Char → Prop} (h : Recognizes body Spells Follows)
    (hfollows : ∀ rest, Follows (';' :: rest)) (f : α → β) {s rest : List Char} {b : β} :
    ((scalar body s).map fun (a, s) ↦ (f a, s)) = .ok (b, rest) ↔
      ∃ t a, s = ':' :: (t ++ ';' :: rest) ∧ f a = b ∧ Spells t a := by
  constructor
  · intro hread
    obtain ⟨⟨a, r⟩, hscalar, hpair⟩ := map_eq_ok_iff.1 hread
    obtain ⟨hb, rfl⟩ := Prod.mk.inj hpair
    obtain ⟨s₁, hcolon, hscalar⟩ := bind_eq_ok_iff.1 hscalar
    obtain ⟨⟨a', s₂⟩, hbody, hscalar⟩ := bind_eq_ok_iff.1 hscalar
    obtain ⟨s₃, hend, hscalar⟩ := bind_eq_ok_iff.1 hscalar
    obtain ⟨rfl, rfl⟩ := Prod.mk.inj (Except.ok.inj hscalar)
    obtain rfl := literal_eq_ok_iff.1 hcolon
    obtain rfl := literal_eq_ok_iff.1 hend
    obtain ⟨t, rfl, ht⟩ := h.exists_of_ok hbody
    exact ⟨t, a', rfl, hb, ht⟩
  · rintro ⟨t, a, rfl, rfl, ht⟩
    rw [scalar_cons (h.ok_append ht (';' :: rest) (hfollows rest))]
    rfl

end

/-! ### Numerals -/

/-- What `numeral?` takes off is `0`, or a positive numeral. -/
theorem exists_of_numeral? {s rest : List Char} {n : Nat} (h : numeral? s = some (n, rest)) :
    ∃ front, s = front ++ rest ∧
      (front = ['0'] ∧ n = 0 ∨ PositiveNumeral front ∧ n = digitsValue front) := by
  unfold numeral? at h
  split at h
  · next r =>
    obtain ⟨rfl, rfl⟩ := Prod.mk.inj (Option.some.inj h)
    exact ⟨['0'], rfl, .inl ⟨rfl, rfl⟩⟩
  · next c r hzero =>
    split at h
    · next hdigit =>
      obtain ⟨rfl, rfl⟩ := Prod.mk.inj (Option.some.inj h)
      refine ⟨_, List.takeWhile_append_dropWhile.symm, .inr ⟨?_, rfl⟩⟩
      rw [List.takeWhile_cons_of_pos hdigit]
      refine .digits hdigit hzero fun d hd ↦ ?_
      exact List.all_eq_true.1 List.all_takeWhile d hd
    · cases h
  · cases h

theorem PositiveNumeral.numeral?_append {s rest : List Char} (h : PositiveNumeral s)
    (hrest : StopsAt Char.isDigit rest) : numeral? (s ++ rest) = some (digitsValue s, rest) := by
  obtain ⟨hdigit, hzero, hds⟩ := h
  rename_i c ds
  have hall : ∀ d ∈ c :: ds, d.isDigit = true := List.forall_mem_cons.2 ⟨hdigit, hds⟩
  have htake := takeWhile_append_of_stopsAt hall hrest
  have hdrop := dropWhile_append_of_stopsAt hall hrest
  rw [List.cons_append] at htake hdrop ⊢
  unfold numeral?
  split
  · next heq => exact absurd (List.cons.inj heq).1 hzero
  · next heq =>
    obtain ⟨rfl, rfl⟩ := List.cons.inj heq
    rw [if_pos hdigit, htake, hdrop]
  · next heq => cases heq

theorem recognizes_length : Recognizes length SpellsCount (StopsAt Char.isDigit) where
  exists_of_ok := by
    intro s rest n h
    rw [length] at h
    split at h
    · next n r hnumeral =>
      split at h
      · next hfits =>
        obtain ⟨rfl, rfl⟩ := Prod.mk.inj (Except.ok.inj h)
        obtain ⟨front, rfl, hfront⟩ := exists_of_numeral? hnumeral
        refine ⟨front, rfl, ?_⟩
        rcases hfront with ⟨rfl, rfl⟩ | ⟨hpositive, rfl⟩
        · exact .zero
        · exact .positive hpositive hfits
      · cases h
    · cases h
  ok_append := by
    intro front n h rest hrest
    cases h with
    | zero => rfl
    | positive h hfits =>
      have hbound : digitsValue front < UInt64.size := hfits
      simp only [length, h.numeral?_append hrest, if_pos hbound]

/-! ### Integers -/

/-- An integer is read if the numeral behind its sign is, if a sign does not stand in front of zero,
and if the number fits a word. -/
theorem integer_eq_ok_iff {s body rest : List Char} {negative : Bool}
    (hsplit : splitSign s = (negative, body)) {x : Int64} :
    integer s = .ok (x, rest) ↔
      ∃ n, numeral? body = some (n, rest) ∧ (n = 0 → body = s) ∧
        -2 ^ 63 ≤ Binary64.signed negative n ∧ Binary64.signed negative n ≤ 2 ^ 63 - 1 ∧
        x = Int64.ofInt (Binary64.signed negative n) := by
  cases hnumeral : numeral? body with
  | none => simp [integer, hsplit, hnumeral]
  | some read =>
    obtain ⟨n, r⟩ := read
    have hread : integer s =
        if (n = 0 ∧ body ≠ s) ∨ Binary64.signed negative n < -2 ^ 63 ∨
            2 ^ 63 - 1 < Binary64.signed negative n then .error ⟨s, .unexpected⟩
        else .ok (Int64.ofInt (Binary64.signed negative n), r) := by
      simp only [integer, hsplit, hnumeral]
      rfl
    rw [hread]
    constructor
    · intro h
      split at h
      · cases h
      · next hgood =>
        rw [not_or, not_and, not_not, not_or, Int.not_lt, Int.not_lt] at hgood
        obtain ⟨rfl, rfl⟩ := Prod.mk.inj (Except.ok.inj h)
        exact ⟨n, rfl, hgood.1, hgood.2.1, hgood.2.2, rfl⟩
    · rintro ⟨_, heq, hsign, hlow, hhigh, rfl⟩
      obtain ⟨rfl, rfl⟩ := Prod.mk.inj (Option.some.inj heq)
      rw [if_neg]
      rintro (⟨hzero, hne⟩ | hbelow | habove)
      · exact hne (hsign hzero)
      · exact Int.not_lt.2 hlow hbelow
      · exact Int.not_lt.2 hhigh habove

/-- A text has a minus in front, or a plus, or nothing that is split off. -/
theorem splitSign_cases (s : List Char) :
    (∃ body, s = '-' :: body ∧ splitSign s = (true, body)) ∨
      (∃ body, s = '+' :: body ∧ splitSign s = (false, body)) ∨ splitSign s = (false, s) := by
  unfold splitSign
  split
  · exact .inl ⟨_, rfl, rfl⟩
  · exact .inr (.inl ⟨_, rfl, rfl⟩)
  · exact .inr (.inr rfl)

theorem PositiveNumeral.splitSign_append {s : List Char} (h : PositiveNumeral s)
    (rest : List Char) : splitSign (s ++ rest) = (false, s ++ rest) := by
  obtain ⟨hdigit, -, -⟩ := h
  exact splitSign_of_isDigit hdigit _

theorem PositiveNumeral.digitsValue_pos {s : List Char} (h : PositiveNumeral s) :
    0 < digitsValue s := by
  obtain ⟨hdigit, hzero, hds⟩ := h
  rename_i c ds
  have hc : 0 < digitValue c := by
    simp only [Char.isDigit, ge_iff_le, Bool.and_eq_true, decide_eq_true_eq,
      UInt32.le_iff_toNat_le] at hdigit
    have hlow : 48 ≤ c.toNat := hdigit.1
    have hne : c.toNat ≠ 48 := fun heq ↦ hzero (Char.toNat_inj.1 heq)
    show 0 < c.toNat - 48
    omega
  have hfirst : digitsValue [c] = digitValue c := by simp [digitsValue]
  rw [← List.singleton_append, digitsValue_append, hfirst]
  exact Nat.add_pos_left (Nat.mul_pos hc (Nat.pow_pos (by decide))) _

theorem spellsInteger_of_integer {s rest : List Char} {x : Int64}
    (h : integer s = .ok (x, rest)) : ∃ front, s = front ++ rest ∧ SpellsInteger front x := by
  rcases splitSign_cases s with ⟨body, rfl, hsplit⟩ | ⟨body, rfl, hsplit⟩ | hsplit
  · -- A zero would have to stand without the sign.
    obtain ⟨n, hnumeral, hsign, hlow, -, rfl⟩ := (integer_eq_ok_iff hsplit).1 h
    obtain ⟨front, rfl, ⟨-, rfl⟩ | ⟨hpositive, rfl⟩⟩ := exists_of_numeral? hnumeral
    · exact absurd (hsign rfl).symm (List.cons_ne_self _ _)
    · rw [Binary64.signed, if_pos rfl] at hlow
      exact ⟨'-' :: front, rfl, .minus hpositive (by omega)⟩
  · obtain ⟨n, hnumeral, hsign, -, hhigh, rfl⟩ := (integer_eq_ok_iff hsplit).1 h
    obtain ⟨front, rfl, ⟨-, rfl⟩ | ⟨hpositive, rfl⟩⟩ := exists_of_numeral? hnumeral
    · exact absurd (hsign rfl).symm (List.cons_ne_self _ _)
    · rw [Binary64.signed, if_neg Bool.false_ne_true] at hhigh
      exact ⟨'+' :: front, rfl, .plus hpositive (by omega)⟩
  · obtain ⟨n, hnumeral, -, -, hhigh, rfl⟩ := (integer_eq_ok_iff hsplit).1 h
    obtain ⟨front, rfl, ⟨rfl, rfl⟩ | ⟨hpositive, rfl⟩⟩ := exists_of_numeral? hnumeral
    · exact ⟨['0'], rfl, .zero⟩
    · rw [Binary64.signed, if_neg Bool.false_ne_true] at hhigh
      exact ⟨front, rfl, .positive hpositive (by omega)⟩

/-- A positive numeral behind a sign, or behind none, is read if the number fits. -/
theorem PositiveNumeral.integer_append {s t rest : List Char} {negative : Bool}
    (h : PositiveNumeral s) (hrest : StopsAt Char.isDigit rest)
    (hsplit : splitSign t = (negative, s ++ rest))
    (hlow : -2 ^ 63 ≤ Binary64.signed negative (digitsValue s))
    (hhigh : Binary64.signed negative (digitsValue s) ≤ 2 ^ 63 - 1) :
    integer t = .ok (Int64.ofInt (Binary64.signed negative (digitsValue s)), rest) :=
  (integer_eq_ok_iff hsplit).2 ⟨_, h.numeral?_append hrest,
    fun hzero ↦ absurd hzero (Nat.ne_of_gt h.digitsValue_pos), hlow, hhigh, rfl⟩

theorem recognizes_integer : Recognizes integer SpellsInteger (StopsAt Char.isDigit) where
  exists_of_ok := spellsInteger_of_integer
  ok_append := by
    intro front x h rest hrest
    have hplain (n : Nat) : Binary64.signed false n = n := rfl
    have hminus (n : Nat) : Binary64.signed true n = -(n : Int) := rfl
    cases h with
    | zero =>
      have hsplit : splitSign (['0'] ++ rest) = (false, ['0'] ++ rest) := rfl
      exact (integer_eq_ok_iff hsplit).2 ⟨0, rfl, fun _ ↦ rfl, by decide, by decide, rfl⟩
    | positive h hfits =>
      exact h.integer_append hrest (h.splitSign_append rest) (by rw [hplain]; omega)
        (by rw [hplain]; omega)
    | @plus s h hfits =>
      have hsplit : splitSign ('+' :: s ++ rest) = (false, s ++ rest) := rfl
      exact h.integer_append hrest hsplit (by rw [hplain]; omega) (by rw [hplain]; omega)
    | @minus s h hfits =>
      have hsplit : splitSign ('-' :: s ++ rest) = (true, s ++ rest) := rfl
      exact h.integer_append hrest hsplit (by rw [hminus]; omega) (by rw [hminus]; omega)

/-! ### Other scalars -/

theorem recognizes_boolean : Recognizes boolean SpellsTruth Anything where
  exists_of_ok := by
    intro s rest b h
    unfold boolean at h
    split at h
    · obtain ⟨rfl, rfl⟩ := Prod.mk.inj (Except.ok.inj h)
      exact ⟨['0'], rfl, .no⟩
    · obtain ⟨rfl, rfl⟩ := Prod.mk.inj (Except.ok.inj h)
      exact ⟨['1'], rfl, .yes⟩
    · cases h
  ok_append := by
    intro front b h rest _
    cases h with
    | no => rfl
    | yes => rfl

/-- A number goes on to its semicolon. -/
theorem recognizes_float : Recognizes float SpellsNumber (StopsAt (· ≠ ';')) where
  exists_of_ok := by
    intro s rest x h
    simp only [float, List.span_eq_takeWhile_dropWhile] at h
    split at h
    · cases h
    · next hne =>
      split at h
      · next y hread =>
        obtain ⟨rfl, rfl⟩ := Prod.mk.inj (Except.ok.inj h)
        refine ⟨_, List.takeWhile_append_dropWhile.symm, hne, fun hmem ↦ ?_, hread⟩
        have hstop := List.all_eq_true.1 List.all_takeWhile _ hmem
        exact of_decide_eq_true hstop rfl
      · cases h
  ok_append := by
    intro front x h rest hrest
    have hall : ∀ c ∈ front, decide (c ≠ ';') = true := fun c hc ↦
      decide_eq_true fun heq ↦ h.notMem_semicolon (heq ▸ hc)
    simp only [float, span_append_of_stopsAt hall hrest, if_neg h.ne_nil, h.read?_eq]

/-- A text is as long as it says, in bytes. -/
theorem recognizes_countedText : Recognizes countedText SpellsText Anything where
  exists_of_ok := by
    intro s rest t h
    obtain ⟨⟨n, s₁⟩, hlength, h⟩ := bind_eq_ok_iff.1 h
    obtain ⟨s₂, hopen, h⟩ := bind_eq_ok_iff.1 h
    split at h
    · cases h
    · next front s₃ hsplit =>
      obtain ⟨s₄, hclose, h⟩ := bind_eq_ok_iff.1 h
      obtain ⟨rfl, rfl⟩ := Prod.mk.inj (Except.ok.inj h)
      obtain ⟨num, rfl, hnum⟩ := recognizes_length.exists_of_ok hlength
      obtain rfl := literal_eq_ok_iff.1 hopen
      obtain rfl := literal_eq_ok_iff.1 hclose
      obtain ⟨rfl, rfl⟩ := eq_append_of_splitAtByte? hsplit
      refine ⟨num ++ [':', '"'] ++ (String.ofList front).toList ++ ['"'], by simp, .counted ?_⟩
      rwa [String.toList_ofList]
  ok_append := by
    rintro _ t ⟨h⟩ rest -
    rename_i n
    have hlength := recognizes_length.ok_append h (':' :: '"' :: (t.toList ++ '"' :: rest))
      (stopsAt_cons (by decide) _)
    have hfold : n ++ [':', '"'] ++ t.toList ++ ['"'] ++ rest =
        n ++ ':' :: '"' :: (t.toList ++ '"' :: rest) := by simp
    simp only [hfold, countedText, hlength, ok_bind, literal_two, splitAtByte?_append, literal_one,
      String.ofList_toList]
    rfl

/-! ### Keys and entries -/

theorem recognizes_key : Recognizes key SpellsKey Anything where
  exists_of_ok := by
    intro s rest k h
    unfold key at h
    split at h
    · cases h
    · next tag s =>
      split at h
      · next htag =>
        obtain ⟨t, n, rfl, rfl, ht⟩ :=
          (recognizes_integer.map_scalar_eq_ok_iff (stopsAt_cons (by decide)) _).1 h
        exact ⟨['i', ':'] ++ t ++ [';'], by simp [htag], .position ht⟩
      · split at h
        · next htag =>
          obtain ⟨t, u, rfl, rfl, ht⟩ :=
            (recognizes_countedText.map_scalar_eq_ok_iff (fun _ ↦ trivial) _).1 h
          exact ⟨['s', ':'] ++ t ++ [';'], by simp [htag], .name ht⟩
        · cases h
  ok_append := by
    intro front k h rest _
    cases h with
    | @position s n h =>
      exact (recognizes_integer.map_scalar_eq_ok_iff (stopsAt_cons (by decide)) _).2
        ⟨s, n, by simp, rfl, h⟩
    | @name s t h =>
      exact (recognizes_countedText.map_scalar_eq_ok_iff (fun _ ↦ trivial) _).2
        ⟨s, t, by simp, rfl, h⟩

section

variable {element : Reader StoredValue} {depth : Nat}

theorem recognizes_entries (h : Recognizes element (SpellsValue depth) Anything) (n : Nat) :
    Recognizes (entries element n) (fun s es ↦ es.length = n ∧ SpellsEntries depth s es)
      Anything := by
  induction n with
  | zero =>
    refine ⟨?_, ?_⟩
    · intro s rest es hread
      obtain ⟨rfl, rfl⟩ := Prod.mk.inj (Except.ok.inj hread)
      exact ⟨[], rfl, rfl, .nil⟩
    · rintro front es ⟨hlength, hes⟩ rest -
      cases hes with
      | nil => rfl
      | cons => cases hlength
  | succ n ih =>
    refine ⟨?_, ?_⟩
    · intro s rest es hread
      obtain ⟨⟨k, s₁⟩, hkey, hread⟩ := bind_eq_ok_iff.1 hread
      obtain ⟨⟨v, s₂⟩, hvalue, hread⟩ := bind_eq_ok_iff.1 hread
      obtain ⟨⟨es', s₃⟩, hentries, hread⟩ := bind_eq_ok_iff.1 hread
      obtain ⟨rfl, rfl⟩ := Prod.mk.inj (Except.ok.inj hread)
      obtain ⟨ks, rfl, hks⟩ := recognizes_key.exists_of_ok hkey
      obtain ⟨vs, rfl, hvs⟩ := h.exists_of_ok hvalue
      obtain ⟨front, rfl, hlength, hfront⟩ := ih.exists_of_ok hentries
      exact ⟨ks ++ vs ++ front, by simp, congrArg (· + 1) hlength, .cons hks hvs hfront⟩
    · rintro front es ⟨hlength, hes⟩ rest -
      cases hes with
      | nil => cases hlength
      | @cons _ ks vs s k v es hkey hvalue hes =>
        have htail := ih.ok_append ⟨Nat.succ.inj hlength, hes⟩ rest trivial
        rw [List.append_assoc, List.append_assoc, entries,
          recognizes_key.ok_append hkey _ trivial, ok_bind]
        simp only [h.ok_append hvalue _ trivial, ok_bind, htail]
        rfl

/-- The spellings of an array as a value, without its tag. -/
def SpellsArrayBody (depth : Nat) (s : List Char) (v : StoredValue) : Prop :=
  ∃ es, v = .array es ∧ SpellsArray depth s es

theorem recognizes_arrayBody (h : Recognizes element (SpellsValue (depth + 1)) Anything)
    (hdepth : depth < 32) : Recognizes (arrayBody element) (SpellsArrayBody depth) Anything where
  exists_of_ok := by
    intro s rest v hread
    obtain ⟨⟨n, s₁⟩, hlength, hread⟩ := bind_eq_ok_iff.1 hread
    obtain ⟨s₂, hopen, hread⟩ := bind_eq_ok_iff.1 hread
    obtain ⟨⟨es, s₃⟩, hentries, hread⟩ := bind_eq_ok_iff.1 hread
    obtain ⟨s₄, hclose, hread⟩ := bind_eq_ok_iff.1 hread
    obtain ⟨rfl, rfl⟩ := Prod.mk.inj (Except.ok.inj hread)
    obtain ⟨num, rfl, hnum⟩ := recognizes_length.exists_of_ok hlength
    obtain rfl := literal_eq_ok_iff.1 hopen
    obtain rfl := literal_eq_ok_iff.1 hclose
    obtain ⟨front, rfl, rfl, hfront⟩ := (recognizes_entries h n).exists_of_ok hentries
    exact ⟨num ++ [':', '{'] ++ front ++ ['}'], by simp, es, rfl, .counted hdepth hnum hfront⟩
  ok_append := by
    rintro _ _ ⟨es, rfl, ⟨-, hnum, hes⟩⟩ rest -
    rename_i num s
    have hlength := recognizes_length.ok_append hnum (':' :: '{' :: (s ++ '}' :: rest))
      (stopsAt_cons (by decide) _)
    have hentries := (recognizes_entries h es.length).ok_append ⟨rfl, hes⟩ ('}' :: rest) trivial
    have hfold : num ++ [':', '{'] ++ s ++ ['}'] ++ rest =
        num ++ ':' :: '{' :: (s ++ '}' :: rest) := by simp
    simp only [hfold, arrayBody, hlength, ok_bind, literal_two, hentries, literal_one]
    rfl

/-! ### Values -/

theorem className_eq_ok_iff {s rest : List Char} :
    className s = .ok rest ↔ ∃ c t, s = c ++ ':' :: rest ∧ SpellsText c t := by
  constructor
  · intro h
    obtain ⟨⟨t, s₁⟩, htext, hcolon⟩ := bind_eq_ok_iff.1 h
    obtain rfl := literal_eq_ok_iff.1 hcolon
    obtain ⟨c, rfl, hc⟩ := recognizes_countedText.exists_of_ok htext
    exact ⟨c, t, rfl, hc⟩
  · rintro ⟨c, t, rfl, hc⟩
    simp only [className, recognizes_countedText.ok_append hc (':' :: rest) trivial, ok_bind,
      literal_one]

theorem recognizes_tagged {body : Reader StoredValue}
    (h : Recognizes body (SpellsArrayBody depth) Anything) :
    Recognizes (tagged body) (SpellsValue depth) Anything where
  exists_of_ok := by
    intro s rest v hread
    unfold tagged at hread
    split at hread
    · cases hread
    · next tag s =>
      split at hread
      · obtain ⟨s₁, hend, hnull⟩ := bind_eq_ok_iff.1 hread
        obtain ⟨rfl, rfl⟩ := Prod.mk.inj (Except.ok.inj hnull)
        obtain rfl := literal_eq_ok_iff.1 hend
        exact ⟨['N', ';'], rfl, .null⟩
      · obtain ⟨t, b, rfl, rfl, ht⟩ :=
          (recognizes_boolean.map_scalar_eq_ok_iff (fun _ ↦ trivial) _).1 hread
        exact ⟨['b', ':'] ++ t ++ [';'], by simp, .bool ht⟩
      · obtain ⟨t, n, rfl, rfl, ht⟩ :=
          (recognizes_integer.map_scalar_eq_ok_iff (stopsAt_cons (by decide)) _).1 hread
        exact ⟨['i', ':'] ++ t ++ [';'], by simp, .int ht⟩
      · obtain ⟨t, x, rfl, rfl, ht⟩ :=
          (recognizes_float.map_scalar_eq_ok_iff (stopsAt_cons (by decide)) _).1 hread
        exact ⟨['d', ':'] ++ t ++ [';'], by simp, .float ht⟩
      · obtain ⟨t, u, rfl, rfl, ht⟩ :=
          (recognizes_countedText.map_scalar_eq_ok_iff (fun _ ↦ trivial) _).1 hread
        exact ⟨['s', ':'] ++ t ++ [';'], by simp, .text ht⟩
      · obtain ⟨s₁, hcolon, hbody⟩ := bind_eq_ok_iff.1 hread
        obtain rfl := literal_eq_ok_iff.1 hcolon
        obtain ⟨front, rfl, es, rfl, hes⟩ := h.exists_of_ok hbody
        exact ⟨['a', ':'] ++ front, rfl, .array hes⟩
      · obtain ⟨s₁, hcolon, hobject⟩ := bind_eq_ok_iff.1 hread
        obtain ⟨s₂, hclass, hbody⟩ := bind_eq_ok_iff.1 hobject
        obtain rfl := literal_eq_ok_iff.1 hcolon
        obtain ⟨c, t, rfl, hc⟩ := className_eq_ok_iff.1 hclass
        obtain ⟨front, rfl, es, rfl, hes⟩ := h.exists_of_ok hbody
        exact ⟨['O', ':'] ++ c ++ [':'] ++ front, by simp, .object hc hes⟩
      · cases hread
  ok_append := by
    intro front v hv rest _
    cases hv with
    | null => rfl
    | @bool _ s b hb =>
      exact (recognizes_boolean.map_scalar_eq_ok_iff (fun _ ↦ trivial) _).2
        ⟨s, b, by simp, rfl, hb⟩
    | @int _ s n hn =>
      exact (recognizes_integer.map_scalar_eq_ok_iff (stopsAt_cons (by decide)) _).2
        ⟨s, n, by simp, rfl, hn⟩
    | @float _ s x hx =>
      exact (recognizes_float.map_scalar_eq_ok_iff (stopsAt_cons (by decide)) _).2
        ⟨s, x, by simp, rfl, hx⟩
    | @text _ s t ht =>
      exact (recognizes_countedText.map_scalar_eq_ok_iff (fun _ ↦ trivial) _).2
        ⟨s, t, by simp, rfl, ht⟩
    | @array _ s es hes => exact h.ok_append ⟨es, rfl, hes⟩ rest trivial
    | @object _ c s t es hc hes =>
      have hclass : className (c ++ ':' :: (s ++ rest)) = .ok (s ++ rest) :=
        className_eq_ok_iff.2 ⟨c, t, rfl, hc⟩
      have hfold : ['O', ':'] ++ c ++ [':'] ++ s ++ rest =
          'O' :: ':' :: (c ++ ':' :: (s ++ rest)) := by simp
      rw [hfold]
      show (className (c ++ ':' :: (s ++ rest)) >>= body) = _
      rw [hclass]
      exact h.ok_append ⟨es, rfl, hes⟩ rest trivial

end

theorem recognizes_arrayWithin {depth room : Nat} (hdepth : depth + room = 32)
    (h : ∀ inner, room = inner + 1 →
      Recognizes (value inner) (SpellsValue (depth + 1)) Anything) :
    Recognizes (arrayWithin room) (SpellsArrayBody depth) Anything := by
  cases room with
  | zero =>
    -- Thirty-two arrays stand around this one already.
    refine ⟨nofun, ?_⟩
    rintro _ _ ⟨es, rfl, ⟨hlt, -, -⟩⟩ rest -
    omega
  | succ inner => exact recognizes_arrayBody (h inner rfl) (by omega)

/-- With room for all arrays that may still nest, the reader recognizes the values of that depth. -/
theorem recognizes_value {depth room : Nat} (hdepth : depth + room = 32) :
    Recognizes (value room) (SpellsValue depth) Anything := by
  induction room generalizing depth with
  | zero =>
    rw [value_eq_tagged]
    exact recognizes_tagged (recognizes_arrayWithin hdepth nofun)
  | succ room ih =>
    rw [value_eq_tagged]
    refine recognizes_tagged (recognizes_arrayWithin hdepth fun inner hinner ↦ ?_)
    obtain rfl := Nat.succ.inj hinner
    exact ih (by omega)

/-! ### Depth -/

mutual

/-- What a derivable value adds to the arrays it stands in stays within the limit. -/
theorem SpellsValue.nesting_le {depth : Nat} {s : List Char} {v : StoredValue}
    (h : SpellsValue depth s v) (hdepth : depth ≤ 32) : depth + v.nesting ≤ 32 := by
  match h with
  | .null | .bool _ | .int _ | .float _ | .text _ => exact hdepth
  | .array h => exact h.nesting_le
  | .object _ h => exact h.nesting_le

theorem SpellsArray.nesting_le {depth : Nat} {s : List Char}
    {es : List (StoredKey × StoredValue)} (h : SpellsArray depth s es) :
    depth + (StoredValue.array es).nesting ≤ 32 := by
  match h with
  | .counted hlt _ h =>
    have hentries := h.nesting_le hlt
    rw [StoredValue.nesting]
    omega

theorem SpellsEntries.nesting_le {depth : Nat} {s : List Char}
    {es : List (StoredKey × StoredValue)} (h : SpellsEntries depth s es) (hdepth : depth ≤ 32) :
    depth + StoredValue.nestingOfEntries es ≤ 32 := by
  match h with
  | .nil => exact hdepth
  | .cons _ hvalue h =>
    have hhead := hvalue.nesting_le hdepth
    have htail := h.nesting_le hdepth
    rw [StoredValue.nestingOfEntries]
    omega

end

/-! ### Whole texts -/

theorem recognizes_value_maxNesting :
    Recognizes (value maxNesting) (SpellsValue 0) Anything := recognizes_value rfl

section

variable {s : List Char} {v : StoredValue}

/-- A text that decodes is a spelling of its value. -/
theorem spellsValue_of_decodeChars (h : decodeChars s = .ok v) : SpellsValue 0 s v := by
  rw [decodeChars] at h
  split at h
  · next w hread =>
    obtain rfl := Except.ok.inj h
    obtain ⟨front, rfl, hspells⟩ := recognizes_value_maxNesting.exists_of_ok hread
    rwa [List.append_nil]
  · cases h
  · cases h

/-- A spelling of a value decodes to it. -/
theorem SpellsValue.decodeChars_eq (h : SpellsValue 0 s v) : decodeChars s = .ok v := by
  have hread := recognizes_value_maxNesting.ok_append h [] trivial
  rw [List.append_nil] at hread
  rw [decodeChars, hread]

end

/-- **Decoding accepts exactly the grammar.** A text decodes to a value if and only if the text
without the blanks at its end is a spelling of the value. Such a value nests at most thirty-two
arrays. -/
theorem decode_eq_ok_iff (input : String) (v : StoredValue) :
    (decode input = .ok v ↔ SpellsValue 0 (trimEnd input.toList) v) ∧
      (decode input = .ok v → v.nesting ≤ 32) := by
  have hreader : Recognizes (value maxNesting) (SpellsValue 0) Anything := recognizes_value rfl
  have hiff : decode input = .ok v ↔ SpellsValue 0 (trimEnd input.toList) v := by
    rw [decode, decodeChars]
    constructor
    · intro h
      split at h
      · next w hread =>
        obtain rfl := Except.ok.inj h
        obtain ⟨front, hfront, hspells⟩ := hreader.exists_of_ok hread
        rw [hfront, List.append_nil]
        exact hspells
      · cases h
      · cases h
    · intro h
      have hread := hreader.ok_append h [] trivial
      rw [List.append_nil] at hread
      rw [hread]
  refine ⟨hiff, fun h ↦ ?_⟩
  have hnesting := (hiff.1 h).nesting_le (Nat.zero_le 32)
  omega

/-- An object whose class name has a character of two bytes. Its property stands under an integer
that shows its sign, and is an array of one number. -/
def objectChars : List Char :=
  ['O', ':', '5', ':', '"', 'C', 'a', 'f', 'é', '"', ':', '1', ':', '{', 'i', ':', '+', '7', ';',
    'a', ':', '1', ':', '{', 's', ':', '2', ':', '"', 'é', '"', ';', 'd', ':', '5', '.', ';', '}',
    '}']

/-- What `objectChars` stands for. -/
def objectValue : StoredValue :=
  .array [(.position 7, .array [(.name "é", .float (.ofNat 5))])]

theorem spellsValue_objectChars : SpellsValue 0 objectChars objectValue := by
  have hone : SpellsCount ['1'] 1 := .positive (.digits rfl (by decide) (by simp)) (by decide)
  have hclass : SpellsText ['5', ':', '"', 'C', 'a', 'f', 'é', '"'] "Café" := by
    have hlength : SpellsCount ['5'] (byteLength "Café".toList) :=
      .positive (.digits rfl (by decide) (by simp)) (by decide)
    exact .counted hlength
  have hname : SpellsText ['2', ':', '"', 'é', '"'] "é" := by
    have hlength : SpellsCount ['2'] (byteLength "é".toList) :=
      .positive (.digits rfl (by decide) (by simp)) (by decide)
    exact .counted hlength
  have hseven : SpellsInteger ['+', '7'] 7 :=
    .plus (.digits rfl (by decide) (by simp)) (by decide)
  have hnumber : SpellsNumber ['5', '.'] (.ofNat 5) :=
    ⟨by decide, by decide, by decide +kernel⟩
  have hinner : SpellsEntries 2 _ _ := .cons (.name hname) (.float hnumber) .nil
  have houter : SpellsEntries 1 _ _ :=
    .cons (.position hseven) (.array (.counted (by decide) hone hinner)) .nil
  exact .object hclass (.counted (by decide) hone houter)

theorem decode_objectText :
    decode (String.ofList (objectChars ++ [' ', '\n'])) = .ok objectValue ∧
      objectValue.nesting ≤ 32 := by
  have htrim : trimEnd (String.ofList (objectChars ++ [' ', '\n'])).toList = objectChars := by
    rw [String.toList_ofList]
    decide
  have hdecode := (decode_eq_ok_iff (String.ofList (objectChars ++ [' ', '\n'])) objectValue).1.2
    (htrim ▸ spellsValue_objectChars)
  exact ⟨hdecode, (decode_eq_ok_iff _ objectValue).2 hdecode⟩

end Storefront.Serialized
