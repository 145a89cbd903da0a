import Storefront.Proofs.Record.SameForm
import Mathlib.Data.List.Nodup
/-!
# The fields of a record

A record is read by its fields, and what a document gives for a field is found by its name. So what
a record is read as can be said in one line: it is a list of names, each with the value that is
asked of it (`Record.HasFields`).

Two laws follow for every such list, once and for all. Documents of the same form give the same
fields (`Record.HasFields.of_sameForm`), and an object with the names of the list as its members
gives each field its own member (`Record.hasFields_object_iff`).

A type is `Record.Steady` if the form of a document decides what it is read as.
-/

namespace Storefront.Record

open Document

variable {α β : Type} {d e : Document} {ms ns : List (String × Document)}

/-! ### Names -/

/-- A case is named by a text, or by the only member of an object whose value is `null`. -/
theorem case?_eq_some_iff {cases : List (String × α)} {a : α} :
    case? cases d = some a ↔
      ∃ name, (d = .text name ∨ d = .object [(name, .null)]) ∧ cases.lookup name = some a := by
  constructor
  · intro h
    unfold case? at h
    split at h
    · exact ⟨_, .inl rfl, h⟩
    · exact ⟨_, .inr rfl, h⟩
    · cases h
  · rintro ⟨name, rfl | rfl, h⟩ <;> exact h

/-- Documents of the same form name the same case. -/
theorem case?_of_sameForm {cases : List (String × α)} {a : α} (h : d.SameForm e)
    (hd : case? cases d = some a) : case? cases e = some a := by
  obtain ⟨name, rfl | rfl, hlookup⟩ := case?_eq_some_iff.1 hd
  · rw [sameForm_text_iff.1 h, hd]
  · obtain ⟨ns, rfl, hns⟩ := sameForm_object_iff.1 h
    obtain ⟨⟨name', d⟩, rfl, hname, hnull⟩ := sameMembers_singleton_iff.1 hns
    obtain rfl : name = name' := hname
    obtain rfl : d = .null := sameForm_null_iff.1 hnull
    exact hd

/-! ### Members -/

/-- What a name is given has the same form in both. -/
theorem member?_of_sameMembers (h : SameMembers ms ns) {name : String} {f : Option Document}
    (hf : member? ms name = some f) :
    ∃ g, member? ns name = some g ∧ Option.Rel SameForm f g := by
  have hnamed := h.filter (· == name)
  unfold member? at hf
  split at hf
  · next hms =>
    cases hf
    rw [hms] at hnamed
    refine ⟨none, ?_, .none⟩
    rw [member?, sameMembers_nil_iff.1 hnamed]
  · next d hms =>
    cases hf
    rw [hms] at hnamed
    obtain ⟨⟨name', e⟩, hns, -, he⟩ := sameMembers_singleton_iff.1 hnamed
    refine ⟨some e, ?_, .some he⟩
    rw [member?, hns]
  · cases hf

/-- A partial function that maps a list maps it place by place. -/
theorem mapM_eq_some_iff {f : α → Option β} {as : List α} {bs : List β} :
    as.mapM f = some bs ↔ List.Forall₂ (fun a b ↦ f a = some b) as bs := by
  induction as generalizing bs with
  | nil => simp [eq_comm]
  | cons a as ih =>
    simp only [List.mapM_cons, Option.bind_eq_bind, Option.bind_eq_some_iff, ih,
      List.forall₂_cons_left_iff, Option.pure_def, Option.some.injEq]
    constructor
    · rintro ⟨b, hb, bs, hbs, rfl⟩
      exact ⟨b, bs, hb, hbs, rfl⟩
    · rintro ⟨b, bs, hb, hbs, rfl⟩
      exact ⟨b, hb, bs, hbs, rfl⟩

/-- Each name is given one answer. -/
theorem length_eq_of_fields? {names : List String} {fs : List (Option Document)}
    (h : fields? names d = some fs) : fs.length = names.length := by
  unfold fields? at h
  split at h
  · exact (mapM_eq_some_iff.1 h).length_eq.symm
  · split_ifs at h with hlength
    cases h
    rw [List.length_map, hlength]
  · cases h

/-- Documents of the same form give the same for every field. -/
theorem fields?_of_sameForm (h : d.SameForm e) {names : List String} {fs : List (Option Document)}
    (hfs : fields? names d = some fs) :
    ∃ gs, fields? names e = some gs ∧ List.Forall₂ (Option.Rel SameForm) fs gs := by
  unfold fields? at hfs
  split at hfs
  · obtain ⟨ns, rfl, hns⟩ := sameForm_object_iff.1 h
    have hmembers := mapM_eq_some_iff.1 hfs
    simp only [fields?, mapM_eq_some_iff]
    clear hfs
    induction hmembers with
    | nil => exact ⟨[], .nil, .nil⟩
    | cons hf _ ih =>
      obtain ⟨g, hg, hfg⟩ := member?_of_sameMembers hns hf
      obtain ⟨gs, hgs, hrest⟩ := ih
      exact ⟨g :: gs, .cons hg hgs, .cons hfg hrest⟩
  · obtain ⟨es, rfl, hes⟩ := sameForm_list_iff.1 h
    split at hfs
    · next hlength =>
      cases hfs
      refine ⟨es.map some, ?_, List.rel_map (fun _ _ hd ↦ .some hd) hes⟩
      rw [fields?, if_pos (hes.length_eq.symm.trans hlength)]
    · cases hfs
  · cases hfs

/-! ### Tags -/

/-- Any other document is left alone. -/
theorem emptyAsNull_eq_self (h : ¬∃ name, d = .object [(name, .object [])]) :
    emptyAsNull d = d := by
  unfold emptyAsNull
  split
  · exact absurd ⟨_, rfl⟩ h
  · rfl

/-- An object whose only member is the empty object is of no other form. -/
theorem eq_of_sameForm_lone {name : String}
    (h : (Document.object [(name, .object [])]).SameForm d) :
    d = .object [(name, .object [])] := by
  obtain ⟨ns, rfl, hns⟩ := sameForm_object_iff.1 h
  obtain ⟨⟨name', e⟩, rfl, hname, he⟩ := sameMembers_singleton_iff.1 hns
  obtain ⟨ls, rfl, hls⟩ := sameForm_object_iff.1 he
  obtain rfl := sameMembers_nil_iff.1 hls
  obtain rfl : name = name' := hname
  rfl

/-- Filling in `null` for nothing keeps forms the same. -/
theorem sameForm_emptyAsNull (h : d.SameForm e) : (emptyAsNull d).SameForm (emptyAsNull e) := by
  by_cases hd : ∃ name, d = .object [(name, .object [])]
  · obtain ⟨name, rfl⟩ := hd
    rw [eq_of_sameForm_lone h]
    exact .refl _
  · have he : ¬∃ name, e = .object [(name, .object [])] := by
      rintro ⟨name, rfl⟩
      exact hd ⟨name, eq_of_sameForm_lone h.symm⟩
    rwa [emptyAsNull_eq_self hd, emptyAsNull_eq_self he]

/-- Documents of the same form name the same case, and leave fields of the same form. -/
theorem tagged?_of_sameForm (h : d.SameForm e) {tag name : String} {rest : Document}
    (hd : tagged? tag d = some (name, rest)) :
    ∃ rest', tagged? tag e = some (name, rest') ∧ rest.SameForm rest' := by
  unfold tagged? at hd ⊢
  rw [h.isReadable_eq]
  split at hd
  · next hreadable =>
    rw [if_pos hreadable]
    split at hd
    · obtain ⟨ns, rfl, hns⟩ := sameForm_object_iff.1 h
      split at hd
      · next hms =>
        have htag := hns.filter (· == tag)
        rw [hms] at htag
        obtain ⟨⟨tag', e⟩, hfilter, -, he⟩ := sameMembers_singleton_iff.1 htag
        obtain rfl : e = .text _ := sameForm_text_iff.1 he
        cases hd
        refine ⟨.object ((ns.filter (·.1 != tag)).map fun m ↦ (m.1, emptyAsNull m.2)), ?_,
          sameForm_object_iff.2 ⟨_, rfl, (hns.filter (· != tag)).map sameForm_emptyAsNull⟩⟩
        simp only [hfilter]
      · cases hd
    · obtain ⟨_, rfl, hitems⟩ := sameForm_list_iff.1 h
      obtain ⟨e, es, he, hes, rfl⟩ := List.forall₂_cons_left_iff.1 hitems
      obtain rfl : e = .text _ := sameForm_text_iff.1 he
      cases hd
      refine ⟨_, rfl, sameForm_list_iff.2 ⟨_, rfl, ?_⟩⟩
      exact List.rel_map (fun _ _ hd ↦ sameForm_emptyAsNull hd) hes
    · cases hd
  · cases hd

/-! ### Steady reading -/

/-- What a document is read as does not depend on its form. -/
class Steady (α : Type) [Record α] : Prop where
  /-- A document of the same form is read as the same value. -/
  read?_of_sameForm {d e : Document} {a : α} (h : d.SameForm e) (hd : read? d = some a) :
    read? e = some a

variable [Record α]

/-- Documents of the same form are read alike, also where they are read as nothing. -/
theorem Steady.read?_eq [Steady α] (h : d.SameForm e) : (read? d : Option α) = read? e :=
  Option.ext fun _ ↦ ⟨read?_of_sameForm h, read?_of_sameForm h.symm⟩

theorem field?_of_rel [Steady α] {f g : Option Document} {a : α}
    (h : Option.Rel SameForm f g) (hf : field? f = some a) : field? g = some a := by
  cases h with
  | none => exact hf
  | some h => exact Steady.read?_of_sameForm h hf

instance : Steady Bool where
  read?_of_sameForm {d} _ _ h hd := by
    cases d with
    | bool b => rw [sameForm_bool_iff.1 h, hd]
    | _ => cases hd

instance : Steady String where
  read?_of_sameForm {d} _ _ h hd := by
    cases d with
    | text s => rw [sameForm_text_iff.1 h, hd]
    | _ => cases hd

instance : Steady UInt64 where
  read?_of_sameForm {d} _ _ h hd := by
    cases d with
    | integer n => rw [sameForm_integer_iff.1 h, hd]
    | _ => cases hd

instance : Steady Int64 where
  read?_of_sameForm {d} _ _ h hd := by
    cases d with
    | integer n => rw [sameForm_integer_iff.1 h, hd]
    | _ => cases hd

instance : Steady Binary64 where
  read?_of_sameForm {d} _ _ h hd := by
    cases d with
    | integer n => rw [sameForm_integer_iff.1 h, hd]
    | real x => rw [sameForm_real_iff.1 h, hd]
    | _ => cases hd

theorem read?_option_eq (hd : d ≠ .null) :
    (read? d : Option (Option α)) = (read? d).map some := by
  cases d with
  | null => exact absurd rfl hd
  | _ => rfl

instance [Steady α] : Steady (Option α) where
  read?_of_sameForm {d e o} h hd := by
    by_cases hnull : d = .null
    · subst hnull
      rw [sameForm_null_iff.1 h, hd]
    · rw [read?_option_eq hnull, Option.map_eq_some_iff] at hd
      obtain ⟨a, hd, rfl⟩ := hd
      have hnull' : e ≠ .null := fun he ↦ hnull (sameForm_null_iff.1 (he ▸ h.symm))
      rw [read?_option_eq hnull', Steady.read?_of_sameForm h hd, Option.map_some]

/-- A list is read item by item. -/
theorem read?_list_eq_some_iff {as : List α} :
    read? d = some as ↔ ∃ ds, d = .list ds ∧ List.Forall₂ (fun d a ↦ read? d = some a) ds as := by
  cases d with
  | list ds =>
    show ds.mapM read? = some as ↔ _
    simp [mapM_eq_some_iff]
  | _ => exact ⟨nofun, nofun⟩

instance [Steady α] : Steady (List α) where
  read?_of_sameForm {d e as} h hd := by
    obtain ⟨ds, rfl, hds⟩ := read?_list_eq_some_iff.1 hd
    obtain ⟨es, rfl, hes⟩ := sameForm_list_iff.1 h
    have hback : List.Forall₂ (flip SameForm) es ds := hes.flip
    exact read?_list_eq_some_iff.2
      ⟨es, rfl, forall₂_comp hback hds fun _ _ _ ↦ Steady.read?_of_sameForm⟩

/-! ### What is asked of a record -/

/-- A field by its name, with what is asked of it. -/
structure Asked where
  /-- The name. -/
  name : String
  /-- What is asked of that which a record gives for the field. -/
  holds : Option Document → Prop
  /-- The form does not matter. -/
  holds_of_rel {f g : Option Document} (h : Option.Rel SameForm f g) : holds f → holds g

/-- Of the field of that name it is asked that it is read as that value. -/
def asks [Steady α] (name : String) (a : α) : Asked where
  name := name
  holds f := field? f = some a
  holds_of_rel := field?_of_rel

/-- What a document gives for the fields is what is asked of them. -/
def HasFields (d : Document) (asked : List Asked) : Prop :=
  ∃ fs, fields? (asked.map (·.name)) d = some fs ∧ List.Forall₂ Asked.holds asked fs

variable {asked : List Asked}

/-- A record is read from its fields. -/
theorem bind_fields?_eq_some_iff {β : Type} {names : List String} {b : β}
    {body : List (Option Document) → Option β} (hnames : asked.map (·.name) = names)
    (hbody : ∀ fs, fs.length = asked.length →
      (body fs = some b ↔ List.Forall₂ Asked.holds asked fs)) :
    (fields? names d).bind body = some b ↔ HasFields d asked := by
  subst hnames
  refine Option.bind_eq_some_iff.trans (exists_congr fun fs ↦ and_congr_right fun hfs ↦ ?_)
  exact hbody fs ((length_eq_of_fields? hfs).trans (List.length_map _))

/-- Documents of the same form give the same fields. -/
theorem HasFields.of_sameForm (h : d.SameForm e) (hd : HasFields d asked) : HasFields e asked := by
  obtain ⟨fs, hfs, hasked⟩ := hd
  obtain ⟨gs, hgs, hrel⟩ := fields?_of_sameForm h hfs
  exact ⟨gs, hgs, forall₂_comp hasked hrel fun q _ _ hf hfg ↦ q.holds_of_rel hfg hf⟩

/-- What is read by its fields is read alike from every form. -/
theorem Steady.of_hasFields {asked : α → List Asked}
    (h : ∀ {d : Document} {a : α}, read? d = some a ↔ HasFields d (asked a)) : Steady α :=
  ⟨fun hde hd ↦ h.2 ((h.1 hd).of_sameForm hde)⟩

/-- Where all names differ, each member is found under its own. -/
theorem member?_of_mem (hnodup : (ms.map Prod.fst).Nodup) {m : String × Document} (hm : m ∈ ms) :
    member? ms m.1 = some (some m.2) := by
  have hlone : ms.filter (·.1 == m.1) = [m] := by
    obtain ⟨front, back, rfl⟩ := List.append_of_mem hm
    rw [List.map_append, List.map_cons, List.nodup_middle, List.nodup_cons,
      ← List.map_append] at hnodup
    have hother : ∀ n ∈ front ++ back, ¬(n.1 == m.1) := fun n hn hname ↦
      hnodup.1 (eq_of_beq hname ▸ List.mem_map_of_mem hn)
    have hfront : front.filter (·.1 == m.1) = [] :=
      List.filter_eq_nil_iff.2 fun n hn ↦ hother n (List.mem_append_left _ hn)
    have hback : back.filter (·.1 == m.1) = [] :=
      List.filter_eq_nil_iff.2 fun n hn ↦ hother n (List.mem_append_right _ hn)
    rw [List.filter_append, hfront, List.nil_append, List.filter_cons,
      if_pos (beq_self_eq_true m.1), hback]
  rw [member?, hlone]

/-- An object whose members have the names of the fields gives each field its member. -/
theorem hasFields_object_iff (hnodup : (ms.map Prod.fst).Nodup)
    (hnames : asked.map (·.name) = ms.map Prod.fst) :
    HasFields (.object ms) asked ↔ List.Forall₂ (fun q m ↦ q.holds (some m.2)) asked ms := by
  have hfields : fields? (asked.map (·.name)) (.object ms) = some (ms.map fun m ↦ some m.2) := by
    rw [hnames]
    show (ms.map Prod.fst).mapM (member? ms) = _
    rw [mapM_eq_some_iff, List.forall₂_map_left_iff, List.forall₂_map_right_iff,
      List.forall₂_same]
    exact fun m hm ↦ member?_of_mem hnodup hm
  constructor
  · rintro ⟨fs, hfs, hasked⟩
    obtain rfl := Option.some.inj (hfields.symm.trans hfs)
    exact List.forall₂_map_right_iff.1 hasked
  · exact fun hasked ↦ ⟨_, hfields, List.forall₂_map_right_iff.2 hasked⟩

end Storefront.Record
