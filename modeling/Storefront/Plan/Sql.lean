import Storefront.Plan.Basic
/-!
# Price filters in SQL

The query layer keeps its `JOIN` and `WHERE` parts as text. Each price filter adds one sub-select to
the second part, in the order of the plan; the meta table is joined unless the first part mentions
one already. A plan without price filters changes nothing.
-/

namespace Storefront

/-- The text of the product query, before it is run. -/
structure PostsClauses where
  /-- The `JOIN` part. -/
  join : String := ""
  /-- The `WHERE` part. -/
  filter : String := ""
  deriving DecidableEq, Repr

/-- The SQL spelling of a comparison. -/
def Comparison.sql : Comparison → String
  | equal => "="
  | op => op.symbol

namespace Plan

/-- The join with the meta table that price filters need. -/
def metaJoin (tablePrefix : String) : String :=
  " LEFT JOIN " ++ tablePrefix ++ "postmeta ON " ++ tablePrefix ++ "posts.ID = " ++ tablePrefix ++
    "postmeta.post_id"

/-- Whether a `JOIN` part mentions a meta table. -/
def mentionsMeta (join : String) : Bool := join.contains "postmeta"

/-- The sub-select of a price filter. -/
def subselect (tablePrefix : String) (f : PriceFilter) : String :=
  " AND " ++ tablePrefix ++ "posts.ID NOT IN (SELECT post_id FROM " ++ tablePrefix ++
    "postmeta WHERE meta_key = '_price' AND meta_value " ++ f.op.sql ++ " " ++
    Text.ofInt64 f.bound ++ ")"

/-- The condition that keeps the joined rows to prices. -/
def priceGuard (tablePrefix : String) : String :=
  " AND " ++ tablePrefix ++ "postmeta.meta_key = '_price'"

/-- Adds the price filters to the text of the product query, on tables whose names start with
`tablePrefix`. -/
def applyPriceClauses (plan : Plan) (tablePrefix : String) (clauses : PostsClauses) :
    PostsClauses :=
  if plan.priceFilters.isEmpty then clauses
  else
    { join := if mentionsMeta clauses.join then clauses.join
        else clauses.join ++ metaJoin tablePrefix
      filter := clauses.filter ++
        String.join (plan.priceFilters.map (subselect tablePrefix)) ++ priceGuard tablePrefix }

end Plan

end Storefront
