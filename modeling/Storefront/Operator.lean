import Storefront.Binary64.Order
/-!
# Operators

A rule-set tests either a number against a bound, with one of six comparisons, or a selection
against a set of facts, with one of two membership operators. Each operator has the spelling under
which the options table stores it, and a short form for people.

* `Comparison.ofWire?_wire`, `Membership.ofWire?_roleWire`: every stored spelling is read back.
* `Membership.holds_excludes`: the two membership operators are opposites.
-/

namespace Storefront

/-! ### Comparisons -/

/-- How a number stands to a bound. -/
inductive Comparison where
  /-- Below the bound. -/
  | less
  /-- Above the bound. -/
  | greater
  /-- At most the bound. -/
  | lessOrEqual
  /-- At least the bound. -/
  | greaterOrEqual
  /-- The bound itself. -/
  | equal
  /-- Not the bound. -/
  | notEqual
  deriving DecidableEq, Repr

namespace Comparison

/-- Every comparison. -/
def all : List Comparison := [less, greater, lessOrEqual, greaterOrEqual, equal, notEqual]

/-- The stored spelling. -/
def wire : Comparison → String
  | less => "less_than"
  | greater => "greater_than"
  | lessOrEqual => "less_than_equal"
  | greaterOrEqual => "greater_than_equal"
  | equal => "equal"
  | notEqual => "not_equal_to"

/-- The comparison that is stored under a spelling. -/
def ofWire? (s : String) : Option Comparison := all.find? fun c ↦ c.wire == s

/-- The short form. -/
def symbol : Comparison → String
  | less => "<"
  | greater => ">"
  | lessOrEqual => "<="
  | greaterOrEqual => ">="
  | equal => "=="
  | notEqual => "!="

/-- Whether a comparison accepts the way two numbers compare. What compares in no way is unequal and
nothing else. -/
def accepts : Comparison → Option Ordering → Bool
  | less, o => o == some .lt
  | greater, o => o == some .gt
  | lessOrEqual, o => o == some .lt || o == some .eq
  | greaterOrEqual, o => o == some .gt || o == some .eq
  | equal, o => o == some .eq
  | notEqual, o => o != some .eq

/-- Whether `x` stands in the relation to `bound`. -/
def holds (c : Comparison) (x bound : Binary64) : Bool := c.accepts (x.compare? bound)

/-- Whether prices may be tested with a comparison. -/
def isForPrices : Comparison → Bool
  | less | greater | equal => true
  | lessOrEqual | greaterOrEqual | notEqual => false

@[simp] theorem ofWire?_wire (c : Comparison) : ofWire? c.wire = some c := by
  cases c <;> decide

/-- Every comparison but inequality fails on what is not a number. -/
theorem holds_nan (c : Comparison) (x : Binary64) : c.holds x .nan = (c == notEqual) := by
  cases x <;> cases c <;> rfl

end Comparison

/-! ### Membership -/

/-- How a selection stands to a set of facts. -/
inductive Membership where
  /-- Some selected item is among the facts. -/
  | includes
  /-- No selected item is among the facts. -/
  | excludes
  deriving DecidableEq, Repr

namespace Membership

/-- The membership operator that is stored under a spelling. Roles and cart contents have spellings
of their own, and both are read for either. -/
def ofWire? (s : String) : Option Membership :=
  if s = "is" ∨ s = "contains" then some includes
  else if s = "is_not" ∨ s = "not_contain" then some excludes
  else none

/-- The spelling stored with customer roles. -/
def roleWire : Membership → String
  | includes => "is"
  | excludes => "is_not"

/-- The spelling stored with cart contents. -/
def cartWire : Membership → String
  | includes => "contains"
  | excludes => "not_contain"

/-- The short form. -/
def symbol : Membership → String
  | includes => "in"
  | excludes => "not in"

/-- What the operator answers, given whether a selected item was found among the facts. -/
def verdict : Membership → Bool → Bool
  | includes, found => found
  | excludes, found => !found

/-- Whether a selected item is present, each asked for in turn until one is. -/
def findPresent {σ α : Type} (present : α → StateM σ Bool) : List α → StateM σ Bool
  | [] => pure false
  | a :: selected => do
    if ← present a then pure true else findPresent present selected

/-- Tests a selection, asking for one item after the other whether it is present. Neither operator
asks again after the first item that is. -/
def test {σ α : Type} (op : Membership) (selected : List α) (present : α → StateM σ Bool) :
    StateM σ Bool := do
  return op.verdict (← findPresent present selected)

/-- Whether a selection stands in the relation to the facts, for facts that do not depend on being
asked for. -/
def holds {α : Type} (op : Membership) (selected : List α) (present : α → Bool) : Bool :=
  op.verdict (selected.any present)

@[simp] theorem ofWire?_roleWire (op : Membership) : ofWire? op.roleWire = some op := by
  cases op <;> decide

@[simp] theorem ofWire?_cartWire (op : Membership) : ofWire? op.cartWire = some op := by
  cases op <;> decide

/-- The two operators are opposites on every selection. -/
theorem holds_excludes {α : Type} (selected : List α) (present : α → Bool) :
    excludes.holds selected present = !includes.holds selected present := rfl

/-- Asking for the items one after the other gives the same answer. -/
theorem findPresent_eq_any {σ α : Type} (selected : List α) (present : α → Bool) (s : σ) :
    (findPresent (fun a ↦ (pure (present a) : StateM σ Bool)) selected).run s =
      (selected.any present, s) := by
  induction selected with
  | nil => rfl
  | cons a selected ih =>
    cases h : present a with
    | true => simp [findPresent, h]; rfl
    | false => simpa [findPresent, h] using ih

end Membership

end Storefront
