import Storefront.Snapshot.Basic
import Storefront.Evaluation
import Storefront.Plan.Basic
/-!
# Reports

What happens to the rule-sets of a snapshot during a request, and the plan that comes of it.

In the paid tier rule-sets are looked at in scheduled order. One without a value to compare with is
passed over, even if its stop toggle is set. Any other one is tested, and if it matches, its effects
enter the plan; when its stop toggle is set nothing after it is looked at, whether it matched or
not.

In the free tier only the rule-set of the lowest index is looked at, and only if it tests the active
product count. A disabled snapshot looks at none.

The test is a parameter that may keep a state of its own, so that it can be watched or replaced.
-/

namespace Storefront

/-- The course of a run. -/
structure Trace where
  /-- The rule-sets that were tested, in order. -/
  evaluated : List Ruleset := []
  /-- Those among them that matched. -/
  matched : List Ruleset := []
  /-- The index of the rule-set whose stop toggle ended the run. -/
  haltedAt : Option UInt64 := none

/-- The course of a run in front of which one more rule-set was tested. -/
def Trace.precededBy (t : Trace) (r : Ruleset) (hit : Bool) : Trace :=
  { t with
    evaluated := r :: t.evaluated
    matched := if hit then r :: t.matched else t.matched }

/-- What a run found. -/
structure Report where
  /-- The indices of the scheduled rule-sets. -/
  order : List UInt64 := []
  /-- The indices of the rule-sets that were tested, in order. -/
  evaluated : List UInt64 := []
  /-- The indices of those that matched. -/
  matched : List UInt64 := []
  /-- The index of the rule-set whose stop toggle ended the run. -/
  haltedAt : Option UInt64 := none
  /-- What is hidden. -/
  plan : Plan := ∅
  deriving DecidableEq

/-- The text of a report. -/
def Report.toText (r : Report) : String :=
  "evaluated: " ++ Condition.bracketed (r.evaluated.map Text.ofUInt64) ++
    ", matched: " ++ Condition.bracketed (r.matched.map Text.ofUInt64) ++
    ", halted at: " ++ (r.haltedAt.map Text.ofUInt64).getD "none"

namespace Snapshot

/-- The indices of the rule-sets to look at, in order. -/
def schedule (s : Snapshot) : List UInt64 :=
  if s.enabled then
    match s.tier with
    | .free => (s.rulesets.head?.map (·.index)).toList
    | .paid => (Schedule.order s.rulesets).map (·.index)
  else []

variable {σ : Type}

/-- Looks at rule-sets as the paid tier does. -/
def visitAll (holds : Ruleset → StateM σ Bool) : List Ruleset → StateM σ Trace
  | [] => pure {}
  | r :: rs =>
    if r.condition.isBlank then visitAll holds rs
    else do
      let hit ← holds r
      let rest ← if r.stopsOthers then pure { haltedAt := some r.index } else visitAll holds rs
      pure (rest.precededBy r hit)

/-- Looks at the first rule-set as the free tier does. -/
def visitFirst (holds : Ruleset → StateM σ Bool) : List Ruleset → StateM σ Trace
  | [] => pure {}
  | r :: _ =>
    if r.condition.fact? = some (.numeric .activeProductCount) then do
      let hit ← holds r
      pure (({} : Trace).precededBy r hit)
    else pure {}

/-- The course of a run over the given rule-sets. -/
def visit (tier : Tier) (holds : Ruleset → StateM σ Bool) (rs : List Ruleset) : StateM σ Trace :=
  match tier with
  | .free => visitFirst holds rs
  | .paid => visitAll holds rs

/-- The report of a run in which `holds` says whether a rule-set matches. -/
def reportWith (s : Snapshot) (c : Catalog) (holds : Ruleset → StateM σ Bool) :
    StateM σ Report := do
  let trace ← visit s.tier holds (s.schedule.filterMap s.get?)
  pure
    { order := s.schedule
      evaluated := trace.evaluated.map (·.index)
      matched := trace.matched.map (·.index)
      haltedAt := trace.haltedAt
      plan := Plan.empty.absorbAll c trace.matched }

/-- The report of a run in which a rule-set matches when its condition holds for the request. -/
def report (s : Snapshot) (r : Request) (c : Catalog) : Report :=
  ((s.reportWith c fun ruleset ↦ pure (ruleset.condition.evaluate r c) :
    StateM Unit Report).run ()).1

/-- What a snapshot hides from a request. -/
def plan (s : Snapshot) (r : Request) (c : Catalog) : Plan := (s.report r c).plan

end Snapshot

end Storefront
