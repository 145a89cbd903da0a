import Mathlib.Data.List.Induction
/-!
# The latest setting

Something is built by a sequence of calls, and each call may set a part of it. What that part is in
the end was set by the latest call that set it at all; if none did, it is what it was in the
beginning.

* `foldl_eq_latest?`: a part that is missing in the beginning.
* `foldl_eq_getD_latest?`: a part that is always there.
-/

namespace Storefront

variable {σ α β : Type}

/-- What was set by the latest of the calls that set anything. -/
def latest? (sets : α → Option β) (calls : List α) : Option β := calls.reverse.findSome? sets

variable {sets : α → Option β} {calls : List α}

/-- One more call: what it sets, or else what was set before. -/
theorem latest?_append_singleton (sets : α → Option β) (calls : List α) (call : α) :
    latest? sets (calls ++ [call]) = (sets call).or (latest? sets calls) := by
  rw [latest?, List.reverse_append, List.findSome?_append, List.reverse_singleton,
    List.findSome?_singleton]
  rfl

/-- The latest setting was made by one of the calls. -/
theorem exists_of_latest? {b : β} (h : latest? sets calls = some b) :
    ∃ call ∈ calls, sets call = some b := by
  obtain ⟨call, hcall, hb⟩ := List.exists_of_findSome?_eq_some h
  exact ⟨call, List.mem_reverse.1 hcall, hb⟩

/-- There is a latest setting if any call made one. -/
theorem isSome_latest?_iff : (latest? sets calls).isSome ↔ ∃ call ∈ calls, (sets call).isSome := by
  rw [latest?, List.findSome?_isSome_iff]
  simp only [List.mem_reverse]

/-! ### Parts of what is built -/

variable {step : σ → α → σ}

/-- A part that is missing in the beginning: it is what was set latest. -/
theorem foldl_eq_latest? (part : σ → Option β)
    (h : ∀ s call, part (step s call) = (sets call).or (part s)) (s : σ) (hs : part s = none)
    (calls : List α) : part (calls.foldl step s) = latest? sets calls := by
  induction calls using List.reverseRecOn with
  | nil => exact hs
  | append_singleton calls call ih =>
    rw [List.foldl_append, List.foldl_cons, List.foldl_nil, h, ih, latest?_append_singleton]

/-- A part that is always there: it is what was set latest, or what it was in the beginning. -/
theorem foldl_eq_getD_latest? (part : σ → β)
    (h : ∀ s call, part (step s call) = (sets call).getD (part s)) (s : σ) (calls : List α) :
    part (calls.foldl step s) = (latest? sets calls).getD (part s) := by
  induction calls using List.reverseRecOn with
  | nil => rfl
  | append_singleton calls call ih =>
    rw [List.foldl_append, List.foldl_cons, List.foldl_nil, h, ih, latest?_append_singleton,
      Option.getD_or]

end Storefront
