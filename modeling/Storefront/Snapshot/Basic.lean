import Storefront.Schedule
/-!
# Snapshots

The rule-sets as they are configured at the time of a request, with the licensing tier and the main
switch. A snapshot that is built with `Snapshot.put` keeps its rule-sets strictly ascending by
index. The type does not ask for it, because a snapshot can also be given as a record, in any order;
looking an index up by halving is only sure to find it in an ascending list, and only there does
putting a rule-set in keep the order.
-/

namespace Storefront

/-- What the installation is licensed for. -/
inductive Tier where
  /-- Only the first rule-set is looked at, and only if it tests the active product count. What its
  priority and stop toggle are has no effect. -/
  | free
  /-- All rule-sets are looked at. -/
  | paid
  deriving DecidableEq, Repr

/-- The stored spelling. -/
def Tier.wire : Tier → String
  | free => "free"
  | paid => "paid"

/-- The name of a tier. -/
def Tier.toText : Tier → String
  | free => "Free"
  | paid => "Paid"

/-- The configured rule-sets. -/
structure Snapshot where
  /-- Whether rule-sets are looked at at all. -/
  enabled : Bool := true
  /-- The licensing tier. -/
  tier : Tier
  /-- The rule-sets. -/
  rulesets : List Ruleset := []
  deriving DecidableEq

namespace Snapshot

/-- The enabled snapshot without rule-sets. -/
def empty (tier : Tier) : Snapshot := { tier }

/-- The place in a list, ascending by index, at which looking an index up ends. Each step looks at
the middle and goes on with the half in which the index has to be. -/
def probe (i : UInt64) (rs : List Ruleset) : Nat :=
  if _h : rs.length ≤ 1 then 0
  else
    match rs[rs.length / 2]? with
    | some middle =>
      if i < middle.index then probe i (rs.take (rs.length - rs.length / 2))
      else rs.length / 2 + probe i (rs.drop (rs.length / 2))
    | none => 0
termination_by rs.length
decreasing_by
  · rw [List.length_take]; omega
  · rw [List.length_drop]; omega

/-- A list of rule-sets with one put in. Where the search for its index ends, it replaces a rule-set
of the same index and goes behind one of a smaller, in front of one of a larger index. -/
def putRuleset (r : Ruleset) (rs : List Ruleset) : List Ruleset :=
  let place := probe r.index rs
  match rs[place]? with
  | some s =>
    if s.index = r.index then rs.set place r
    else if s.index < r.index then rs.insertIdx (place + 1) r
    else rs.insertIdx place r
  | none => [r]

/-- The snapshot with one rule-set set. -/
def put (s : Snapshot) (r : Ruleset) : Snapshot := { s with rulesets := putRuleset r s.rulesets }

/-- The rule-set of an index in a list that is ascending by index. -/
def search (i : UInt64) (rs : List Ruleset) : Option Ruleset :=
  rs[probe i rs]?.filter (·.index == i)

/-- The rule-set of an index. -/
def get? (s : Snapshot) (i : UInt64) : Option Ruleset := search i s.rulesets

/-- The text of a snapshot: `Snapshot(Paid, 2 rulesets, disabled)`. -/
def toText (s : Snapshot) : String :=
  "Snapshot(" ++ s.tier.toText ++ ", " ++ Text.ofNat s.rulesets.length ++ " rulesets" ++
    (if s.enabled then "" else ", disabled") ++ ")"

end Snapshot

end Storefront
