import Storefront.Record.Basic
import Mathlib.Data.List.Perm.Basic
import Mathlib.Logic.Relation
/-!
# Documents of the same form

An object does not order its members. Two documents are of the same form if one becomes the other by
putting members of objects in another order, anywhere inside (`Document.Restated`,
`Document.SameForm`). It does not matter which of them comes first (`SameForm.symm`).

Where the steps lead is said once for each constructor: scalars stay what they are, an array keeps
its items in their order and each in its form (`sameForm_list_iff`), an object keeps its members,
each in its form, in any order (`sameForm_object_iff`).
-/

namespace Storefront.Document

/-- One change to a document that leaves what it says. -/
inductive Restated : Document → Document → Prop where
  /-- The members of an object are put in another order. -/
  | reorder {ms ns : List (String × Document)} (h : ms.Perm ns) :
      Restated (.object ms) (.object ns)
  /-- An item of an array is changed. -/
  | item {d e : Document} (front back : List Document) (h : Restated d e) :
      Restated (.list (front ++ d :: back)) (.list (front ++ e :: back))
  /-- The value of a member is changed. -/
  | member {d e : Document} (front back : List (String × Document)) (name : String)
      (h : Restated d e) :
      Restated (.object (front ++ (name, d) :: back)) (.object (front ++ (name, e) :: back))

/-- The same document but for the order of members. -/
def SameForm : Document → Document → Prop := Relation.ReflTransGen Restated

variable {d e f : Document}

/-- Every document is of its own form. -/
theorem SameForm.refl (d : Document) : d.SameForm d := Relation.ReflTransGen.refl

theorem Restated.sameForm (h : Restated d e) : d.SameForm e := Relation.ReflTransGen.single h

/-- Changes may follow one another. -/
theorem SameForm.trans (hde : d.SameForm e) (hef : e.SameForm f) : d.SameForm f :=
  Relation.ReflTransGen.trans hde hef

/-- A change can be taken back by one of the same kind. -/
theorem Restated.symm (h : Restated d e) : Restated e d := by
  induction h with
  | reorder h => exact .reorder h.symm
  | item front back _ ih => exact .item front back ih
  | member front back name _ ih => exact .member front back name ih

/-- So it does not matter which of the two documents comes first. -/
theorem SameForm.symm (h : d.SameForm e) : e.SameForm d := by
  induction h with
  | refl => exact .refl d
  | tail _ hstep ih => exact .head hstep.symm ih

/-! ### Scalars -/

theorem sameForm_null_iff : null.SameForm d ↔ d = null :=
  Relation.reflTransGen_iff_eq nofun

theorem sameForm_bool_iff {b : Bool} : (bool b).SameForm d ↔ d = bool b :=
  Relation.reflTransGen_iff_eq nofun

theorem sameForm_integer_iff {n : Int} : (integer n).SameForm d ↔ d = integer n :=
  Relation.reflTransGen_iff_eq nofun

theorem sameForm_text_iff {s : String} : (text s).SameForm d ↔ d = text s :=
  Relation.reflTransGen_iff_eq nofun

theorem sameForm_real_iff {x : Binary64} : (real x).SameForm d ↔ d = real x :=
  Relation.reflTransGen_iff_eq nofun

/-! ### Place by place -/

section

variable {α β γ : Type}

/-- Relations between lists compose place by place. -/
theorem forall₂_comp {R : α → β → Prop} {S : β → γ → Prop} {T : α → γ → Prop} {as : List α}
    {bs : List β} {cs : List γ} (hab : List.Forall₂ R as bs) (hbc : List.Forall₂ S bs cs)
    (hcomp : ∀ a b c, R a b → S b c → T a c) : List.Forall₂ T as cs := by
  induction hab generalizing cs with
  | nil =>
    obtain rfl := List.forall₂_nil_left_iff.1 hbc
    exact .nil
  | cons h _ ih =>
    obtain ⟨c, cs, h', hrest, rfl⟩ := List.forall₂_cons_left_iff.1 hbc
    exact .cons (hcomp _ _ _ h h') (ih hrest)

/-- A list changed at one place. -/
theorem forall₂_change {R : α → α → Prop} (hrefl : ∀ a, R a a) {a b : α} (h : R a b)
    (front back : List α) :
    List.Forall₂ R (front ++ a :: back) (front ++ b :: back) :=
  List.rel_append (List.forall₂_same.2 fun a _ ↦ hrefl a)
    (.cons h (List.forall₂_same.2 fun a _ ↦ hrefl a))

end

/-! ### Arrays -/

/-- The items of an array are changed one after the other. -/
theorem sameForm_list_append (front : List Document) {ds es : List Document}
    (h : List.Forall₂ SameForm ds es) : (list (front ++ ds)).SameForm (list (front ++ es)) := by
  induction h generalizing front with
  | nil => exact .refl _
  | @cons d e ds es hd _ ih =>
    have hfirst : (list (front ++ d :: ds)).SameForm (list (front ++ e :: ds)) :=
      Relation.ReflTransGen.lift (fun d ↦ list (front ++ d :: ds))
        (fun _ _ hstep ↦ .item front ds hstep) d e hd
    have hrest := ih (front ++ [e])
    rw [List.append_assoc, List.append_assoc] at hrest
    exact hfirst.trans hrest

/-- An array keeps its items, each in its form. -/
theorem sameForm_list_iff {ds : List Document} :
    (list ds).SameForm e ↔ ∃ es, e = list es ∧ List.Forall₂ SameForm ds es := by
  constructor
  · intro h
    induction h with
    | refl => exact ⟨ds, rfl, List.forall₂_same.2 fun d _ ↦ .refl d⟩
    | tail _ hstep ih =>
      obtain ⟨es, rfl, hes⟩ := ih
      cases hstep with
      | item front back hstep =>
        have hchange := forall₂_change SameForm.refl hstep.sameForm front back
        exact ⟨_, rfl, forall₂_comp hes hchange fun _ _ _ ↦ .trans⟩
  · rintro ⟨es, rfl, hes⟩
    exact sameForm_list_append [] hes

/-! ### Objects -/

/-- A member of the same name with a value of the same form. -/
def SameMember (m n : String × Document) : Prop := m.1 = n.1 ∧ m.2.SameForm n.2

/-- The same members, each in its form, in any order. -/
def SameMembers (ms ns : List (String × Document)) : Prop :=
  ∃ ls, List.Forall₂ SameMember ms ls ∧ ls.Perm ns

variable {m n l : String × Document} {ms ns ls : List (String × Document)}

theorem SameMember.refl (m : String × Document) : SameMember m m := ⟨rfl, .refl m.2⟩

theorem SameMember.trans (hlm : SameMember l m) (hmn : SameMember m n) : SameMember l n :=
  ⟨hlm.1.trans hmn.1, hlm.2.trans hmn.2⟩

/-- An object has its own members. -/
theorem SameMembers.refl (ms : List (String × Document)) : SameMembers ms ms :=
  ⟨ms, List.forall₂_same.2 fun m _ ↦ .refl m, .refl ms⟩

/-- An order between two changes may as well come after both. -/
theorem SameMembers.trans (hlm : SameMembers ls ms) (hmn : SameMembers ms ns) :
    SameMembers ls ns := by
  obtain ⟨ls', hls, hperm⟩ := hlm
  obtain ⟨ms', hms, hperm'⟩ := hmn
  obtain ⟨ns', hns, hperm''⟩ := List.perm_comp_forall₂ hperm hms
  exact ⟨ns', forall₂_comp hls hns fun _ _ _ ↦ .trans, hperm''.trans hperm'⟩

/-- The values of an object are changed one after the other. -/
theorem sameForm_object_append (front : List (String × Document))
    (h : List.Forall₂ SameMember ms ns) :
    (object (front ++ ms)).SameForm (object (front ++ ns)) := by
  induction h generalizing front with
  | nil => exact .refl _
  | @cons m n ms ns hm _ ih =>
    obtain ⟨name, d⟩ := m
    obtain ⟨name', e⟩ := n
    obtain ⟨hname, hde⟩ := hm
    obtain rfl : name = name' := hname
    have hfirst : (object (front ++ (name, d) :: ms)).SameForm
        (object (front ++ (name, e) :: ms)) :=
      Relation.ReflTransGen.lift (fun d ↦ object (front ++ (name, d) :: ms))
        (fun _ _ hstep ↦ .member front ms name hstep) d e hde
    have hrest := ih (front ++ [(name, e)])
    rw [List.append_assoc, List.append_assoc] at hrest
    exact hfirst.trans hrest

/-- An object keeps its members, each in its form. -/
theorem sameForm_object_iff :
    (object ms).SameForm e ↔ ∃ ns, e = object ns ∧ SameMembers ms ns := by
  constructor
  · intro h
    induction h with
    | refl => exact ⟨ms, rfl, .refl ms⟩
    | tail _ hstep ih =>
      obtain ⟨ls, rfl, hls⟩ := ih
      cases hstep with
      | reorder hperm =>
        exact ⟨_, rfl, hls.trans ⟨_, List.forall₂_same.2 fun m _ ↦ .refl m, hperm⟩⟩
      | @member d d' front back name hstep =>
        have hmember : SameMember (name, d) (name, d') := ⟨rfl, hstep.sameForm⟩
        exact ⟨_, rfl,
          hls.trans ⟨_, forall₂_change SameMember.refl hmember front back, .refl _⟩⟩
  · rintro ⟨ns, rfl, ls, hls, hperm⟩
    exact (sameForm_object_append [] hls).trans (Restated.reorder hperm).sameForm

/-- Only an object without members has the same members as the empty one. -/
theorem sameMembers_nil_iff : SameMembers [] ns ↔ ns = [] := by
  constructor
  · rintro ⟨ls, hls, hperm⟩
    obtain rfl := List.forall₂_nil_left_iff.1 hls
    exact hperm.nil_eq.symm
  · rintro rfl
    exact .refl []

/-- A lone member stays alone. -/
theorem sameMembers_singleton_iff : SameMembers [m] ns ↔ ∃ n, ns = [n] ∧ SameMember m n := by
  constructor
  · rintro ⟨ls, hls, hperm⟩
    obtain ⟨n, rest, hm, hrest, rfl⟩ := List.forall₂_cons_left_iff.1 hls
    obtain rfl := List.forall₂_nil_left_iff.1 hrest
    exact ⟨n, hperm.singleton_eq.symm, hm⟩
  · rintro ⟨n, rfl, hm⟩
    exact ⟨[n], .cons hm .nil, .refl _⟩

/-- Members are chosen by their names alike. -/
theorem SameMembers.filter (h : SameMembers ms ns) (p : String → Bool) :
    SameMembers (ms.filter fun m ↦ p m.1) (ns.filter fun n ↦ p n.1) := by
  obtain ⟨ls, hls, hperm⟩ := h
  refine ⟨_, List.rel_filter (fun m n hmn ↦ ?_) hls, hperm.filter _⟩
  show p m.1 = true ↔ p n.1 = true
  rw [hmn.1]

/-- Values are changed alike. -/
theorem SameMembers.map {g : Document → Document}
    (hg : ∀ {d e}, d.SameForm e → (g d).SameForm (g e)) (h : SameMembers ms ns) :
    SameMembers (ms.map fun m ↦ (m.1, g m.2)) (ns.map fun n ↦ (n.1, g n.2)) := by
  obtain ⟨ls, hls, hperm⟩ := h
  exact ⟨_, List.rel_map (fun _ _ hmn ↦ ⟨hmn.1, hg hmn.2⟩) hls, hperm.map _⟩

/-! ### Readability -/

theorem areReadable_eq_all (ds : List Document) : areReadable ds = ds.all isReadable := by
  induction ds with
  | nil => rfl
  | cons d ds ih => rw [areReadable, ih, List.all_cons]

theorem haveReadableValues_eq_all (ms : List (String × Document)) :
    haveReadableValues ms = ms.all fun m ↦ m.2.isReadable := by
  induction ms with
  | nil => rfl
  | cons m ms ih => rw [haveReadableValues, ih, List.all_cons]

theorem Restated.isReadable_eq (h : Restated d e) : e.isReadable = d.isReadable := by
  induction h with
  | reorder hperm =>
    rw [isReadable, isReadable, haveReadableValues_eq_all, haveReadableValues_eq_all,
      hperm.all_eq]
  | item front back _ ih =>
    simp only [isReadable, areReadable_eq_all, List.all_append, List.all_cons, ih]
  | member front back name _ ih =>
    simp only [isReadable, haveReadableValues_eq_all, List.all_append, List.all_cons, ih]

/-- A change of the form spoils nothing and mends nothing. -/
theorem SameForm.isReadable_eq (h : d.SameForm e) : e.isReadable = d.isReadable := by
  induction h with
  | refl => rfl
  | tail _ hstep ih => rw [hstep.isReadable_eq, ih]

end Storefront.Document
