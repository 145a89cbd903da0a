import Storefront.Configuration.Basic
import Storefront.Proofs.Document.Texts
import Storefront.Proofs.Serialized.Outline
import Storefront.Proofs.Text.ByteOrder
/-!
# Two spellings of an option in a document

A document of options may give the value of an option as such or in the serialized form, as a text.
It makes no difference: however many of the values that are no texts are replaced by their
serialized form (`Respelled`), the document loads to the same snapshot or fails with the same error
(`Snapshot.ofOptionsJson_respelled`).

What a member contributes is its name and the value that it gives or fails to give
(`Respelled.map_valueOf_eq`). Ordering the members looks at the names alone, so it commutes with
taking the values, and the rest of the loading sees nothing else. A document fails only for a text
that looks serialized and is not, and of several ones for the one whose name has the least bytes
(`FailsFirst`).
-/

namespace Storefront

open Serialized Text

namespace OptionTable

/-! ### What a member contributes -/

/-- A member of a document and what may stand in its place: itself, or under the same name the
serialized form of its value, if this is no text and nests no deeper than can be read. A text in
memory is always shorter than the bound on its bytes. -/
inductive Respelled : String × Document → String × Document → Prop where
  /-- The member itself. -/
  | same (m : String × Document) : Respelled m m
  /-- The serialized form of its value. -/
  | serialized {option : String} {d : Document} (htext : ∀ s, d ≠ .text s)
      (hnesting : (StoredValue.ofDocument d).nesting ≤ 32)
      (hsize : byteLength (toText (.ofDocument d)).toList < UInt64.size) :
      Respelled (option, d) (option, .text (toText (.ofDocument d)))

theorem valueOf_eq_of_ne_text {d : Document} (h : ∀ s, d ≠ .text s) :
    valueOf d = .ok (.ofDocument d) := by
  cases d with
  | text s => exact absurd rfl (h s)
  | null | bool | integer | real | list | object | unreadable => rfl

/-- Both spellings of a member contribute the same. -/
theorem Respelled.map_valueOf_eq {m m' : String × Document} (h : Respelled m m') :
    Prod.map id valueOf m' = Prod.map id valueOf m := by
  cases h with
  | same => rfl
  | serialized htext hnesting hsize =>
    rw [toText, String.toList_ofList] at hsize
    rw [Prod.map_apply, Prod.map_apply, valueOf_eq_of_ne_text htext, valueOf,
      ofStoredText_toText hnesting hsize]
    rfl

/-- The values depend on nothing but what each member contributes. -/
theorem valuesOf_congr {ms ms' : List (String × Document)}
    (h : ms'.map (Prod.map id valueOf) = ms.map (Prod.map id valueOf)) :
    valuesOf ms' = valuesOf ms := by
  induction ms generalizing ms' with
  | nil => rw [List.map_eq_nil_iff.1 h]
  | cons m ms ih =>
    obtain ⟨m', ms', rfl, hm, hms⟩ := List.map_eq_cons_iff.1 h
    obtain ⟨option, d⟩ := m
    obtain ⟨option', d'⟩ := m'
    obtain ⟨hoption, hd⟩ := Prod.mk.inj hm
    obtain rfl : option' = option := hoption
    rw [valuesOf, valuesOf, hd, ih hms]

/-- Documents that differ in the spelling of members give the same table, or the same error. -/
theorem ofDocument_respelled {ms ms' : List (String × Document)}
    (h : List.Forall₂ Respelled ms ms') : ofDocument (.object ms') = ofDocument (.object ms) := by
  have hmembers : ms'.map (Prod.map id valueOf) = ms.map (Prod.map id valueOf) := by
    induction h with
    | nil => rfl
    | cons hm _ ih => rw [List.map_cons, List.map_cons, hm.map_valueOf_eq, ih]
  have hordered : valuesOf (OrderedMap.ofList ms').toList =
      valuesOf (OrderedMap.ofList ms).toList := by
    refine valuesOf_congr ?_
    rw [OrderedMap.map_toList_ofList, OrderedMap.map_toList_ofList, hmembers]
  rw [ofDocument, ofDocument, hordered]

/-! ### The member that fails -/

/-- A member fails if it is a text that looks serialized and is not. -/
theorem valueOf_eq_error_iff {d : Document} {x : StoreError} :
    valueOf d = .error x ↔ ∃ raw e, d = .text raw ∧ ofStoredText raw = .error e ∧ x = .decode e := by
  constructor
  · intro h
    cases d with
    | text raw =>
      rw [valueOf] at h
      cases hread : ofStoredText raw with
      | ok v => rw [hread] at h; cases h
      | error e =>
        rw [hread] at h
        exact ⟨raw, e, rfl, hread, (Except.error.inj h).symm⟩
    | null | bool | integer | real | list | object | unreadable => cases h
  · rintro ⟨raw, e, rfl, hread, rfl⟩
    rw [valueOf, hread]
    rfl

theorem valuesOf_cons_eq_error_iff {option : String} {d : Document}
    {ms : List (String × Document)} {x : StoreError} :
    valuesOf ((option, d) :: ms) = .error x ↔
      valueOf d = .error x ∨ (∃ v, valueOf d = .ok v) ∧ valuesOf ms = .error x := by
  rw [valuesOf]
  cases valueOf d with
  | error y => simp [bind, Except.bind]
  | ok v =>
    cases valuesOf ms with
    | error y => simp [bind, Except.bind]
    | ok rest => simp [bind, Except.bind, pure, Except.pure]

/-- The values fail with the error of the first member that does. -/
theorem valuesOf_eq_error_iff {ms : List (String × Document)} {x : StoreError} :
    valuesOf ms = .error x ↔ ∃ front option d back, ms = front ++ (option, d) :: back ∧
      (∀ m ∈ front, ∃ v, valueOf m.2 = .ok v) ∧ valueOf d = .error x := by
  induction ms with
  | nil => exact ⟨nofun, fun ⟨front, _, _, _, h, _⟩ ↦ by cases front <;> cases h⟩
  | cons m ms ih =>
    obtain ⟨option, d⟩ := m
    rw [valuesOf_cons_eq_error_iff, ih]
    constructor
    · rintro (hd | ⟨hd, front, option', d', back, rfl, hfront, hd'⟩)
      · exact ⟨[], option, d, ms, rfl, nofun, hd⟩
      · exact ⟨(option, d) :: front, option', d', back, rfl,
          List.forall_mem_cons.2 ⟨hd, hfront⟩, hd'⟩
    · rintro ⟨front, option', d', back, hsplit, hfront, hd'⟩
      cases front with
      | nil =>
        cases hsplit
        exact .inl hd'
      | cons m front =>
        cases hsplit
        obtain ⟨hd, hfront⟩ := List.forall_mem_cons.1 hfront
        exact .inr ⟨hd, front, option', d', back, rfl, hfront, hd'⟩

/-- The option that decides how a document fails: a text that looks serialized and is not, while
every text under a name with smaller bytes can be read. -/
structure FailsFirst (ms : List (String × Document)) (option : String) (e : DecodeError) :
    Prop where
  /-- The text is refused. -/
  exists_error : ∃ raw, (OrderedMap.ofList ms).get? option = some (.text raw) ∧
    ofStoredText raw = .error e
  /-- The texts before it are not. -/
  exists_ok {before raw : String} (hlt : utf8 before < utf8 option)
    (h : (OrderedMap.ofList ms).get? before = some (.text raw)) : ∃ v, ofStoredText raw = .ok v

/-- In the order of the names every member before the first failure gives a value. -/
theorem failsFirst_iff {ms : List (String × Document)} {option : String} {e : DecodeError} :
    FailsFirst ms option e ↔ ∃ front raw back,
      (OrderedMap.ofList ms).toList = front ++ (option, .text raw) :: back ∧
        (∀ m ∈ front, ∃ v, valueOf m.2 = .ok v) ∧ ofStoredText raw = .error e := by
  constructor
  · rintro ⟨⟨raw, hget, hread⟩, hbefore⟩
    obtain ⟨front, back, hsplit⟩ := List.append_of_mem (OrderedMap.get?_eq_some_iff.1 hget)
    refine ⟨front, raw, back, hsplit, ?_, hread⟩
    rintro ⟨before, d⟩ hm
    obtain ⟨hmem, hlt⟩ := (OrderedMap.mem_front_iff hsplit).1 hm
    cases hd : valueOf d with
    | ok v => exact ⟨v, rfl⟩
    | error y =>
      -- A member that fails is a text, and the texts before the first failure are read.
      obtain ⟨raw', f, rfl, hread', -⟩ := valueOf_eq_error_iff.1 hd
      obtain ⟨v, hv⟩ := hbefore (compare_eq_lt_iff.1 hlt) (OrderedMap.get?_eq_some_iff.2 hmem)
      rw [hread'] at hv
      cases hv
  · rintro ⟨front, raw, back, hsplit, hfront, hread⟩
    have hmem : (option, .text raw) ∈ (OrderedMap.ofList ms).toList :=
      hsplit ▸ List.mem_append_right _ List.mem_cons_self
    refine ⟨⟨raw, OrderedMap.get?_eq_some_iff.2 hmem, hread⟩, ?_⟩
    intro before raw' hlt hget
    obtain ⟨v, hv⟩ := hfront (before, .text raw') ((OrderedMap.mem_front_iff hsplit).2
      ⟨OrderedMap.get?_eq_some_iff.1 hget, compare_eq_lt_iff.2 hlt⟩)
    cases hread' : ofStoredText raw' with
    | ok w => exact ⟨w, rfl⟩
    | error f =>
      rw [valueOf_eq_error_iff.2 ⟨raw', f, rfl, hread', rfl⟩] at hv
      cases hv

/-- A document of options fails exactly if some member does, and then with the first error. -/
theorem ofDocument_eq_error_iff {ms : List (String × Document)} {x : StoreError} :
    ofDocument (.object ms) = .error x ↔ ∃ option e, FailsFirst ms option e ∧ x = .decode e := by
  have hvalues : ofDocument (.object ms) = .error x ↔
      valuesOf (OrderedMap.ofList ms).toList = .error x := by
    rw [ofDocument]
    cases valuesOf (OrderedMap.ofList ms).toList with
    | error y => rw [Except.map, Except.error.injEq, Except.error.injEq]
    | ok es => exact ⟨nofun, nofun⟩
  rw [hvalues, valuesOf_eq_error_iff]
  constructor
  · rintro ⟨front, option, d, back, hsplit, hfront, hd⟩
    obtain ⟨raw, e, rfl, hread, rfl⟩ := valueOf_eq_error_iff.1 hd
    exact ⟨option, e, failsFirst_iff.2 ⟨front, raw, back, hsplit, hfront, hread⟩, rfl⟩
  · rintro ⟨option, e, hfirst, rfl⟩
    obtain ⟨front, raw, back, hsplit, hfront, hread⟩ := failsFirst_iff.1 hfirst
    exact ⟨front, option, .text raw, back, hsplit, hfront,
      valueOf_eq_error_iff.2 ⟨raw, e, rfl, hread, rfl⟩⟩

end OptionTable

namespace Snapshot

open OptionTable

/-- **A value and its serialized form are the same option.** Writing members that are no texts in
the serialized form leaves what the document loads to as it is. Where it fails, it does so for the
first text in the order of the names that looks serialized and is not. -/
theorem ofOptionsJson_respelled {json json' : String} {ms ms' : List (String × Document)}
    (hjson : Document.read? json = some (.object ms))
    (hjson' : Document.read? json' = some (.object ms')) (h : List.Forall₂ Respelled ms ms') :
    ofOptionsJson json' = ofOptionsJson json ∧
      ∀ x, ofOptionsJson json = .error x ↔
        ∃ option e, FailsFirst ms option e ∧ x = .store (.decode e) := by
  have hread : ofJson json = ofDocument (.object ms) := by rw [ofJson, hjson]
  have hread' : ofJson json' = ofDocument (.object ms) := by
    rw [ofJson, hjson', ← ofDocument_respelled h]
  constructor
  · rw [ofOptionsJson, ofOptionsJson, hread, hread']
  · intro x
    rw [ofOptionsJson, hread]
    constructor
    · intro hfail
      cases htable : ofDocument (.object ms) with
      | ok t =>
        rw [htable] at hfail
        cases hfail
      | error y =>
        rw [htable] at hfail
        obtain ⟨option, e, hfirst, rfl⟩ := ofDocument_eq_error_iff.1 htable
        exact ⟨option, e, hfirst, (Except.error.inj hfail).symm⟩
    · rintro ⟨option, e, hfirst, rfl⟩
      rw [ofDocument_eq_error_iff.2 ⟨option, e, hfirst, rfl⟩]

/-- A document of three texts and one more member, given as it is written. Two of the texts look
serialized and are not. -/
def misspeltJson (member : String) : String :=
  "\x7b\"z\":\"i:x;\",\"m\":" ++ member ++ ",\"b\":\"s:;\",\"a\":\"N\"\x7d"

/-- The members of `misspeltJson`. -/
def misspeltMembers (d : Document) : List (String × Document) :=
  [("z", .text "i:x;"), ("m", d), ("b", .text "s:;"), ("a", .text "N")]

theorem failsFirst_misspeltMembers (d : Document) :
    FailsFirst (misspeltMembers d) "b" ⟨2, .unexpected⟩ where
  exists_error := ⟨"s:;", rfl, rfl⟩
  exists_ok := by
    intro before raw hlt h
    have hmem := OrderedMap.get?_eq_some_iff.1 h
    have hlist : (OrderedMap.ofList (misspeltMembers d)).toList =
        [("a", .text "N"), ("b", .text "s:;"), ("m", d), ("z", .text "i:x;")] := rfl
    rw [utf8_lt_iff] at hlt
    simp only [hlist, List.mem_cons, Prod.mk.injEq, List.not_mem_nil, or_false] at hmem
    rcases hmem with ⟨-, h⟩ | ⟨rfl, -⟩ | ⟨rfl, -⟩ | ⟨rfl, -⟩
    · obtain rfl := Document.text.inj h
      exact ⟨.text "N", rfl⟩
    · exact absurd hlt (by decide)
    · exact absurd hlt (by decide)
    · exact absurd hlt (by decide)

/-- The member that is no text is written as a text, and the document fails as before. -/
theorem ofOptionsJson_misspeltJson :
    let json := misspeltJson "\x7b\"07\":[true]\x7d"
    let json' := misspeltJson "\"a:1:\x7bi:7;a:1:\x7bi:0;b:1;\x7d\x7d\""
    ofOptionsJson json' = ofOptionsJson json ∧
      ofOptionsJson json = .error (.store (.decode ⟨2, .unexpected⟩)) := by
  intro json json'
  let d : Document := .object [("07", .list [.bool true])]
  let d' : Document := .text (Serialized.toText (.ofDocument d))
  have hwritten : (Document.object (misspeltMembers d)).toText = json := by decide +kernel
  have hwritten' : (Document.object (misspeltMembers d')).toText = json' := by decide +kernel
  have hjson : Document.read? json = some (.object (misspeltMembers d)) :=
    hwritten ▸ Document.read?_toText rfl rfl
  have hjson' : Document.read? json' = some (.object (misspeltMembers d')) :=
    hwritten' ▸ Document.read?_toText rfl rfl
  have hd : Respelled ("m", d) ("m", .text (Serialized.toText (.ofDocument d))) :=
    .serialized (by simp [d]) (by decide) (by decide +kernel)
  obtain ⟨hsame, hfail⟩ := ofOptionsJson_respelled hjson hjson'
    (.cons (.same _) (.cons hd (.cons (.same _) (.cons (.same _) .nil))))
  exact ⟨hsame, (hfail _).2 ⟨"b", _, failsFirst_misspeltMembers d, rfl⟩⟩

end Snapshot

end Storefront
