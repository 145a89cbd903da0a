import Storefront.Proofs.Configuration.RoundTrip
/-!
# Purging a configuration

Purging an option table removes every option of the configuration and nothing else, whatever was
saved or switched before (`purge_applyAll`). What is left does not even tell that there was a
configuration: it loads as a switched off snapshot of the free tier without rule-sets.

A change to the configuration touches no option that purging would leave (`applyAll_onTable`), and
purging does not look at the options that it removes (`OptionTable.AgreeOutside.eraseAll_eq`). Both
rest on the one list of names that is purged, which holds the name of every field
(`Naming.mem_owned`): those that are read, those that are written, and those that others leave
behind.
-/

namespace Storefront

/-- The names of the options that belong to the configuration. -/
def Naming.owned (n : Naming) : List String := Field.all.map n.ofField

theorem Naming.mem_owned (n : Naming) (f : Field) : n.ofField f ∈ n.owned :=
  List.mem_map_of_mem (Field.mem_all f)

/-! ### Tables without some of their options -/

namespace OptionTable

/-- The table with options removed one after the other. -/
def eraseAll (t : OptionTable) (names : List String) : OptionTable :=
  names.foldl (fun t option ↦ t.erase option) t

theorem deleteAll_backend (names : List String) (t : OptionTable) :
    backend.deleteAll names t = (.ok (), t.eraseAll names) := by
  induction names generalizing t with
  | nil => rfl
  | cons option names ih => exact ih (t.erase option)

/-- What is removed has no value, and everything else has what it had. -/
theorem get?_eraseAll (t : OptionTable) (names : List String) (option : String) :
    (t.eraseAll names).get? option = if option ∈ names then none else t.get? option := by
  induction names generalizing t with
  | nil => rfl
  | cons first names ih =>
    show (eraseAll (t.erase first) names).get? option = _
    rw [ih, OrderedMap.get?_erase]
    by_cases hfirst : option = first
    · subst hfirst
      simp [Std.ReflCmp.compare_self]
    · have hne : compare option first ≠ .eq :=
        fun heq ↦ hfirst (Std.LawfulEqCmp.eq_of_compare heq)
      simp [hfirst, hne]

/-- Tables that hold the same under all names but the given ones. -/
def AgreeOutside (names : List String) (t t' : OptionTable) : Prop :=
  ∀ option ∉ names, t.get? option = t'.get? option

variable {names : List String} {t t' t'' : OptionTable}

theorem AgreeOutside.trans (h : AgreeOutside names t t') (h' : AgreeOutside names t' t'') :
    AgreeOutside names t t'' :=
  fun option hoption ↦ (h option hoption).trans (h' option hoption)

theorem agreeOutside_insert {option : String} (h : option ∈ names) (v : StoredValue) :
    AgreeOutside names t (t.insert option v) := by
  intro other hother
  have hne : other ≠ option := fun heq ↦ hother (heq.symm ▸ h)
  exact (get?_insert_of_ne t hne v).symm

theorem agreeOutside_setAll {options : List (String × StoredValue)}
    (h : ∀ option ∈ options.map (·.1), option ∈ names) :
    AgreeOutside names t (t.setAll options) :=
  fun other hother ↦ (get?_setAll_of_notMem (mt (h other) hother) t).symm

/-- Nothing is left of the difference once the names are removed. -/
theorem AgreeOutside.eraseAll_eq (h : AgreeOutside names t t') :
    t.eraseAll names = t'.eraseAll names := by
  refine OrderedMap.ext_get? fun option ↦ ?_
  rw [get?_eraseAll, get?_eraseAll]
  split
  · rfl
  · next hoption => exact h option hoption

end OptionTable

/-! ### Changes to a configuration -/

/-- A sheet without columns has no rule-set. -/
theorem Sheet.rulesets_eq_nil {s : Sheet} (h : ∀ f, s f = none) : s.rulesets = [] := by
  obtain rfl : s = fun _ ↦ none := funext h
  rfl

namespace Configuration

/-- A change that the settings form makes. -/
inductive Change where
  /-- Rule-sets are saved. -/
  | save (rs : List Ruleset)
  /-- The switch is set. -/
  | switch (enabled : Bool)

variable {σ : Type}

/-- Makes a change. -/
def apply (c : Configuration σ) : Change → σ → Except StoreError Unit × σ
  | .save rs, s =>
    match c.save rs s with
    | (.ok _, s) => (.ok (), s)
    | (.error e, s) => (.error e, s)
  | .switch enabled, s => c.setEnabled enabled s

/-- Makes changes one after the other, up to the first failure. -/
def applyAll (c : Configuration σ) : List Change → σ → Except StoreError Unit × σ
  | [], s => (.ok (), s)
  | change :: changes, s =>
    match c.apply change s with
    | (.ok (), s) => c.applyAll changes s
    | (.error e, s) => (.error e, s)

section

variable (naming : Naming)

theorem purge_onTable (t : OptionTable) :
    (onTable naming).purge t = (.ok (), t.eraseAll naming.owned) :=
  OptionTable.deleteAll_backend naming.owned t

/-- A change to a table succeeds and leaves every option as it is that is not of the
configuration. -/
theorem apply_onTable (change : Change) (t : OptionTable) :
    ∃ t', (onTable naming).apply change t = (.ok (), t') ∧
      OptionTable.AgreeOutside naming.owned t t' := by
  match change with
  | .save rs =>
    refine ⟨t.setAll ((onTable naming).columns rs), ?_, OptionTable.agreeOutside_setAll ?_⟩
    · rw [apply, save_onTable]
    · rw [map_fst_columns]
      intro option hoption
      obtain ⟨f, -, rfl⟩ := List.mem_map.1 hoption
      exact naming.mem_owned (.ruleset f)
  | .switch enabled =>
    exact ⟨t.insert (naming.ofField .rulesetToggle) (.ofToggle enabled), rfl,
      OptionTable.agreeOutside_insert (naming.mem_owned .rulesetToggle) _⟩

/-- So do any number of changes. -/
theorem applyAll_onTable (changes : List Change) (t : OptionTable) :
    ∃ t', (onTable naming).applyAll changes t = (.ok (), t') ∧
      OptionTable.AgreeOutside naming.owned t t' := by
  induction changes generalizing t with
  | nil => exact ⟨t, rfl, fun _ _ ↦ rfl⟩
  | cons change changes ih =>
    obtain ⟨t₁, happly, hagree⟩ := apply_onTable naming change t
    obtain ⟨t₂, hrest, hagree'⟩ := ih t₁
    refine ⟨t₂, ?_, hagree.trans hagree'⟩
    rw [applyAll, happly]
    exact hrest

/-- A table without any option of the configuration loads as the empty configuration. -/
theorem load_eraseAll (t : OptionTable) :
    (onTable naming).load (t.eraseAll naming.owned) =
      { enabled := false, tier := .free, rulesets := [] } := by
  have hfield (f : Field) : (onTable naming).field? f (t.eraseAll naming.owned) = none := by
    rw [field?_onTable, OptionTable.get?_eraseAll, if_pos (naming.mem_owned f)]
  have hsheet : ((onTable naming).sheet (t.eraseAll naming.owned)).rulesets = [] :=
    Sheet.rulesets_eq_nil fun f ↦ hfield (.ruleset f)
  simp [load, isEnabled, tier, hfield, hsheet]

end

/-- **Purging removes the configuration and nothing else.** Whatever a table holds, and whatever
rule-sets are saved into it and however the switch is set, in any order and number: all of this and
the purge after it succeed, and leave the table that purging leaves in the first place. No field of
the configuration has an option in it, every other option has the value that it had before the
changes, and it loads as a switched off snapshot of the free tier without rule-sets. -/
theorem purge_applyAll (naming : Naming) (t : OptionTable) (changes : List Change) :
    ∃ changed purged, (onTable naming).applyAll changes t = (.ok (), changed) ∧
      (onTable naming).purge changed = (.ok (), purged) ∧
      (onTable naming).purge t = (.ok (), purged) ∧
      (∀ f ∈ Field.all, purged.get? (naming.ofField f) = none) ∧
      (∀ option, (∀ f ∈ Field.all, option ≠ naming.ofField f) →
        purged.get? option = t.get? option) ∧
      (onTable naming).load purged = { enabled := false, tier := .free, rulesets := [] } := by
  obtain ⟨changed, happly, hagree⟩ := applyAll_onTable naming changes t
  refine ⟨changed, t.eraseAll naming.owned, happly, ?_, purge_onTable naming t, ?_, ?_,
    load_eraseAll naming t⟩
  · rw [purge_onTable, hagree.eraseAll_eq]
  · intro f _
    rw [OptionTable.get?_eraseAll, if_pos (naming.mem_owned f)]
  · intro option hoption
    rw [OptionTable.get?_eraseAll, if_neg]
    intro howned
    obtain ⟨f, hf, heq⟩ := List.mem_map.1 howned
    exact hoption f hf heq.symm

end Configuration

end Storefront
