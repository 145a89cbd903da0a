import Storefront.Proofs.Ordered.Latest
import Storefront.Proofs.Snapshot.Constructed
import Mathlib.Data.Finset.Card
import Mathlib.Data.List.Sort
/-!
# Snapshots as sorted maps

A snapshot that is made from the empty one by calls is a map from indices to rule-sets: under an
index stands what was put there last (`get?_edited`), and the rule-sets are listed ascending, so
what stands under every index determines the list (`Ascending.eq_of_search`). The main switch is no
part of the map. It stands where it was set last, so two ways to make the same map are two ways to
make the same snapshot only if they leave the switch alike (`isMapOf_edited`).

Every call works on an ascending list (`constructed_edited`), where putting a rule-set in changes
what stands under its own index and nothing else (`get?_put`).
-/

namespace Storefront.Snapshot

/-! ### Calls -/

/-- A call that makes one snapshot from another. -/
inductive Edit where
  /-- Puts a rule-set in. -/
  | put (r : Ruleset)
  /-- Sets the main switch. -/
  | switch (enabled : Bool)

/-- The rule-set that a call puts under an index. -/
def Edit.putAt? (i : UInt64) : Edit → Option Ruleset
  | put r => if r.index = i then some r else none
  | switch _ => none

/-- The index under which a call puts a rule-set. -/
def Edit.index? : Edit → Option UInt64
  | put r => some r.index
  | switch _ => none

/-- The position in which a call leaves the main switch. -/
def Edit.switch? : Edit → Option Bool
  | put _ => none
  | switch enabled => some enabled

/-- The snapshot after a call. -/
def edit (s : Snapshot) : Edit → Snapshot
  | .put r => s.put r
  | .switch enabled => { s with enabled }

/-- The snapshot that is made from the empty one by calls. -/
def edited (tier : Tier) (edits : List Edit) : Snapshot := edits.foldl edit (empty tier)

/-- The position in which calls leave the main switch: it is on unless it was set. -/
def switchAfter (edits : List Edit) : Bool := (latest? Edit.switch? edits).getD true

variable {tier : Tier} {edits : List Edit} {i : UInt64}

/-- However calls follow one another, each works on an ascending list. -/
theorem constructed_edited (tier : Tier) (edits : List Edit) : (edited tier edits).Constructed := by
  induction edits using List.reverseRecOn with
  | nil => exact .empty tier
  | append_singleton edits e ih =>
    rw [edited, List.foldl_append]
    match e with
    | .put r => exact .put r ih
    | .switch enabled => exact .switch enabled ih

/-- Under an index stands the rule-set that was put there last. -/
theorem get?_edited (tier : Tier) (edits : List Edit) (i : UInt64) :
    (edited tier edits).get? i = latest? (Edit.putAt? i) edits := by
  induction edits using List.reverseRecOn with
  | nil => exact search_nil i
  | append_singleton edits e ih =>
    rw [edited, List.foldl_append, latest?_append_singleton, ← ih]
    show ((edited tier edits).edit e).get? i = _
    match e with
    | .put r =>
      rw [edit, get?_put (constructed_edited tier edits).ascending, Edit.putAt?]
      split <;> rfl
    | .switch enabled => rfl

theorem enabled_edited (tier : Tier) (edits : List Edit) :
    (edited tier edits).enabled = switchAfter edits :=
  foldl_eq_getD_latest? Snapshot.enabled (fun _ e ↦ by cases e <;> rfl) (empty tier) edits

theorem tier_edited (tier : Tier) (edits : List Edit) : (edited tier edits).tier = tier := by
  induction edits using List.reverseRecOn with
  | nil => rfl
  | append_singleton edits e ih =>
    rw [edited, List.foldl_append]
    match e with
    | .put _ => exact ih
    | .switch _ => exact ih

/-! ### What determines an ascending list -/

theorem mem_iff_search {r : Ruleset} {rs : List Ruleset} (h : Ascending rs) :
    r ∈ rs ↔ search r.index rs = some r :=
  ⟨search_index_of_mem h, mem_of_search⟩

/-- Ascending lists with the same rule-sets under every index are equal. -/
theorem Ascending.eq_of_search {rs qs : List Ruleset} (hrs : Ascending rs) (hqs : Ascending qs)
    (h : ∀ i, search i rs = search i qs) : rs = qs := by
  have hirrefl : Std.Irrefl fun r s : Ruleset ↦ r.index < s.index := ⟨fun _ ↦ UInt64.lt_irrefl _⟩
  have hantisymm : Std.Antisymm fun r s : Ruleset ↦ r.index < s.index :=
    ⟨fun _ _ hlt hgt ↦ absurd hgt (UInt64.lt_asymm hlt)⟩
  refine List.Pairwise.eq_of_mem_iff hrs hqs fun r ↦ ?_
  rw [mem_iff_search hrs, mem_iff_search hqs, h]

theorem nodup_map_index {rs : List Ruleset} (h : Ascending rs) : (rs.map (·.index)).Nodup :=
  List.pairwise_map.2 (h.imp UInt64.ne_of_lt)

/-- The indices of a list are those under which something is found. -/
theorem mem_map_index_iff {rs : List Ruleset} (h : Ascending rs) :
    i ∈ rs.map (·.index) ↔ (search i rs).isSome := by
  rw [List.mem_map]
  constructor
  · rintro ⟨r, hr, rfl⟩
    rw [search_index_of_mem h hr]
    rfl
  · intro hsome
    obtain ⟨r, hr⟩ := Option.isSome_iff_exists.1 hsome
    exact ⟨r, mem_of_search hr, index_of_search hr⟩

/-! ### Maps -/

theorem Edit.isSome_putAt?_iff {e : Edit} : (e.putAt? i).isSome ↔ e.index? = some i := by
  match e with
  | .put r => simp [Edit.putAt?, Edit.index?]
  | .switch enabled => simp [Edit.putAt?, Edit.index?]

/-- The indices of a snapshot that is made by calls are those under which something was put. -/
theorem toFinset_map_index_edited (tier : Tier) (edits : List Edit) :
    ((edited tier edits).rulesets.map (·.index)).toFinset =
      (edits.filterMap Edit.index?).toFinset := by
  ext i
  have hget : search i (edited tier edits).rulesets = latest? (Edit.putAt? i) edits :=
    get?_edited tier edits i
  rw [List.mem_toFinset, mem_map_index_iff (constructed_edited tier edits).ascending, hget,
    isSome_latest?_iff, List.mem_toFinset, List.mem_filterMap]
  simp only [Edit.isSome_putAt?_iff]

/-- Calls that put the same rule-set last under every index make the same list. -/
theorem rulesets_edited_eq {edits' : List Edit}
    (h : ∀ i, latest? (Edit.putAt? i) edits' = latest? (Edit.putAt? i) edits) :
    (edited tier edits').rulesets = (edited tier edits).rulesets := by
  refine (constructed_edited tier edits').ascending.eq_of_search
    (constructed_edited tier edits).ascending fun i ↦ ?_
  show (edited tier edits').get? i = (edited tier edits).get? i
  rw [get?_edited, get?_edited, h]

theorem edited_eq_mk (tier : Tier) (edits : List Edit) :
    edited tier edits = ⟨switchAfter edits, tier, (edited tier edits).rulesets⟩ := by
  have hparts : edited tier edits =
      ⟨(edited tier edits).enabled, (edited tier edits).tier, (edited tier edits).rulesets⟩ := rfl
  rwa [enabled_edited, tier_edited] at hparts

/-- A snapshot is the map, sorted by index, that calls describe. -/
structure IsMapOf (s : Snapshot) (edits : List Edit) : Prop where
  /-- The rule-sets are listed strictly ascending by index. -/
  ascending : s.rulesets.Pairwise fun r t ↦ r.index < t.index
  /-- Under an index stands the rule-set that was put there last, and nothing if none was. -/
  get?_eq (i : UInt64) : s.get? i = latest? (Edit.putAt? i) edits
  /-- There are as many rule-sets as there are distinct indices under which one was put. -/
  length_eq : s.rulesets.length = (edits.filterMap Edit.index?).toFinset.card

/-- **A snapshot that is made by calls is the map that they describe.** Other calls that put the
same rule-set last under every index make the same list of rule-sets, and the same snapshot exactly
if they leave the main switch in the same position. -/
theorem isMapOf_edited (tier : Tier) (edits : List Edit) :
    (edited tier edits).IsMapOf edits ∧
      ∀ edits', (∀ i, latest? (Edit.putAt? i) edits' = latest? (Edit.putAt? i) edits) →
        (edited tier edits').rulesets = (edited tier edits).rulesets ∧
        (edited tier edits' = edited tier edits ↔ switchAfter edits' = switchAfter edits) := by
  have hascending := (constructed_edited tier edits).ascending
  refine ⟨⟨hascending, get?_edited tier edits, ?_⟩, fun edits' hsame ↦ ?_⟩
  · rw [← toFinset_map_index_edited tier edits,
      List.toFinset_card_of_nodup (nodup_map_index hascending), List.length_map]
  · have hrulesets : (edited tier edits').rulesets = (edited tier edits).rulesets :=
      rulesets_edited_eq hsame
    refine ⟨hrulesets, ?_⟩
    rw [edited_eq_mk tier edits', edited_eq_mk tier edits, hrulesets, Snapshot.mk.injEq]
    exact ⟨fun h ↦ h.1, fun h ↦ ⟨h, rfl, rfl⟩⟩

/-- Calls that put no rule-set in need not make equal snapshots: one may have moved the switch. -/
theorem edited_switch_ne :
    (∀ i, latest? (Edit.putAt? i) [.switch false] = latest? (Edit.putAt? i) []) ∧
      edited .paid [.switch false] ≠ edited .paid [] :=
  ⟨fun _ ↦ rfl, by decide⟩

/-- A rule-set of index four. -/
def firstDraft : Ruleset := { index := 4, condition := .unsupported "draft" true }

/-- Another rule-set of index four. -/
def finalDraft : Ruleset := { firstDraft with priority := some 9 }

/-- A rule-set of index zero. -/
def frontRuleset : Ruleset := { index := 0, condition := .unsupported "front" true }

/-- A rule-set that is replaced later leaves no trace, and neither does the order of the calls. -/
theorem edited_eq_of_replaced :
    (∀ i, latest? (Edit.putAt? i) [.put finalDraft, .switch false, .put frontRuleset] =
      latest? (Edit.putAt? i)
        [.put firstDraft, .put frontRuleset, .put finalDraft, .switch false]) ∧
      edited .free [.put finalDraft, .switch false, .put frontRuleset] =
        edited .free [.put firstDraft, .put frontRuleset, .put finalDraft, .switch false] := by
  have hsame (i : UInt64) :
      latest? (Edit.putAt? i) [.put finalDraft, .switch false, .put frontRuleset] =
        latest? (Edit.putAt? i)
          [.put firstDraft, .put frontRuleset, .put finalDraft, .switch false] := by
    by_cases hfour : (4 : UInt64) = i
    · subst hfour
      rfl
    · by_cases hzero : (0 : UInt64) = i
      · subst hzero
        rfl
      · simp [latest?, List.findSome?_cons, Edit.putAt?, finalDraft, firstDraft, frontRuleset,
          hfour, hzero]
  exact ⟨hsame, ((isMapOf_edited .free _).2 _ hsame).2.2 rfl⟩

end Storefront.Snapshot
