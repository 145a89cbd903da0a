import Storefront.Plan.Sql
import Storefront.Proofs.Binary64.Exact
import Storefront.Proofs.Text.Numeral
/-!
# Price filters as text and as tests

A price filter is rendered twice: as a sub-select in the text of the product query, and as a test of
a price in memory. `PriceTest` is what a sub-select says, an operator and a numeral, and a price is
accepted by it if it stands in the relation of that name to the number that the numeral denotes. The
two renderings of a filter are one predicate (`accepts_test_iff`), whatever becomes of the
configured price on its way to a signed word and back to a number.

Within the signed words nothing is lost on that way but the fraction: the numeral is that of the
integer part, and the integer part is a number as it is, so a price is compared with exactly the
bound that the query names (`bound?_test_of_lt`).
-/

namespace Storefront

open Binary64 (towardZero)

/-! ### Tests in SQL -/

/-- What the comparison operators of SQL mean. -/
def SqlRelates (op : String) (x y : Extended) : Prop :=
  op = "<" ∧ x < y ∨ op = ">" ∧ y < x ∨ op = "=" ∧ x = y ∨ op = "<=" ∧ x ≤ y ∨ op = ">=" ∧ y ≤ x ∨
    op = "!=" ∧ x ≠ y

/-- A comparison is spelled as SQL spells it. -/
theorem Comparison.sqlRelates_sql_iff (op : Comparison) (x y : Extended) :
    SqlRelates op.sql x y ↔ op.Relates x y := by
  cases op <;> simp [SqlRelates, sql, symbol, Relates]

/-- What a sub-select tests prices for. -/
structure PriceTest where
  /-- The operator. -/
  op : String
  /-- The numeral that prices are compared with. -/
  number : String

namespace PriceTest

/-- The sub-select that leaves out the products whose price passes the test. -/
def text (tablePrefix : String) (t : PriceTest) : String :=
  " AND " ++ tablePrefix ++ "posts.ID NOT IN (SELECT post_id FROM " ++ tablePrefix ++
    "postmeta WHERE meta_key = '_price' AND meta_value " ++ t.op ++ " " ++ t.number ++ ")"

/-- The numeral as a binary64 number, exactly. -/
def bound? (t : PriceTest) : Option Extended :=
  (Text.readInt64? t.number).bind fun n ↦ (Binary64.ofInt n.toInt).extended?

/-- A price passes the test. -/
def Accepts (t : PriceTest) (price : Extended) : Prop :=
  ∃ bound, t.bound? = some bound ∧ SqlRelates t.op price bound

theorem accepts_iff {t : PriceTest} {price bound : Extended} (h : t.bound? = some bound) :
    t.Accepts price ↔ SqlRelates t.op price bound := by
  constructor
  · rintro ⟨_, hbound, hrelates⟩
    rwa [Option.some.inj (h.symm.trans hbound)]
  · exact fun hrelates ↦ ⟨bound, h, hrelates⟩

end PriceTest

namespace PriceFilter

variable {f : PriceFilter}

/-- The test that the sub-select of a filter makes. -/
def test (f : PriceFilter) : PriceTest := ⟨f.op.sql, Text.ofInt64 f.bound⟩

theorem bound?_test (f : PriceFilter) :
    f.test.bound? = (Binary64.ofInt f.bound.toInt).extended? := by
  rw [PriceTest.bound?, test, Text.readInt64?_ofInt64, Option.bind_some]

/-- The sub-select and the test in memory accept the same prices. -/
theorem accepts_test_iff {price : Binary64} {a : Extended} (ha : price.extended? = some a) :
    f.test.Accepts a ↔ f.excludes price = true := by
  obtain ⟨b, hb⟩ : ∃ b, (Binary64.ofInt f.bound.toInt).extended? = some b :=
    Binary64.exists_extended?_ofRatio _ _ _
  rw [excludes, Binary64.holds_iff_relates _ ha hb, PriceTest.accepts_iff (f.bound?_test.trans hb)]
  exact f.op.sqlRelates_sql_iff a b

section

variable {x : ℚ}

/-- The numeral of a sub-select is that of the integer part of the price. -/
theorem number_test_of_lt (hx : f.price.extended? = some (.ofRat x)) (hlt : |x| < 2 ^ 63) :
    f.test.number = String.ofList (Text.writeInt (towardZero x)) := by
  rw [test, Text.ofInt64, bound, Binary64.toInt_truncate hx hlt]

/-- What prices are compared with is exactly the integer part of the price. -/
theorem bound?_test_of_lt (hx : f.price.extended? = some (.ofRat x)) (hlt : |x| < 2 ^ 63) :
    f.test.bound? = some (.ofRat (towardZero x)) := by
  rw [bound?_test, bound, Binary64.toInt_truncate hx hlt, Binary64.extended?_ofInt_towardZero hx]

/-- A price is compared with the integer part without any rounding. -/
theorem excludes_iff_of_lt (hx : f.price.extended? = some (.ofRat x)) (hlt : |x| < 2 ^ 63)
    {price : Binary64} {a : Extended} (ha : price.extended? = some a) :
    f.excludes price = true ↔ f.op.Relates a (.ofRat (towardZero x)) := by
  rw [← accepts_test_iff ha, PriceTest.accepts_iff (bound?_test_of_lt hx hlt)]
  exact f.op.sqlRelates_sql_iff _ _

end

end PriceFilter

/-! ### The text of a plan -/

namespace Plan

variable {plan : Plan}

/-- The tests that the sub-selects of a plan make, in the order of the plan. -/
def priceTests (plan : Plan) : List PriceTest := plan.priceFilters.map PriceFilter.test

theorem applyPriceClauses_of_eq_nil (h : plan.priceFilters = []) (tablePrefix : String)
    (clauses : PostsClauses) : plan.applyPriceClauses tablePrefix clauses = clauses := by
  rw [applyPriceClauses, h]
  rfl

theorem filter_applyPriceClauses (h : plan.priceFilters ≠ []) (tablePrefix : String)
    (clauses : PostsClauses) :
    (plan.applyPriceClauses tablePrefix clauses).filter =
      clauses.filter ++ String.join (plan.priceTests.map (·.text tablePrefix)) ++
        (" AND " ++ tablePrefix ++ "postmeta.meta_key = '_price'") := by
  have hne : ¬ plan.priceFilters.isEmpty = true := fun hempty ↦ h (List.isEmpty_iff.1 hempty)
  rw [applyPriceClauses, if_neg hne, priceTests, List.map_map]
  rfl

/-- A plan hides a price if one of its sub-selects accepts it. -/
theorem hidesPrice_iff_exists_accepts (plan : Plan) {price : Binary64} {a : Extended}
    (ha : price.extended? = some a) :
    plan.hidesPrice price = true ↔ ∃ t ∈ plan.priceTests, t.Accepts a := by
  rw [hidesPrice, List.any_eq_true]
  constructor
  · rintro ⟨f, hf, h⟩
    exact ⟨f.test, List.mem_map_of_mem hf, (PriceFilter.accepts_test_iff ha).2 h⟩
  · rintro ⟨_, ht, h⟩
    obtain ⟨f, hf, rfl⟩ := List.mem_map.1 ht
    exact ⟨f, hf, (PriceFilter.accepts_test_iff ha).1 h⟩

/-- **The query and the test in memory hide the same prices.** A plan without price filters leaves
the text of the query alone. Otherwise one sub-select for each filter is added, in the order of the
plan, and after them the condition that keeps the rows to prices. A price is hidden in memory
exactly if some sub-select accepts it. Each sub-select has the operator of its filter and the
numeral of its bound, and for a configured price within the signed words the numeral is that of its
integer part, with which prices are compared exactly. -/
theorem hidesPrice_iff_applyPriceClauses (plan : Plan) (tablePrefix : String)
    (clauses : PostsClauses) :
    (plan.priceFilters = [] → plan.applyPriceClauses tablePrefix clauses = clauses) ∧
    (plan.priceFilters ≠ [] → (plan.applyPriceClauses tablePrefix clauses).filter =
      clauses.filter ++ String.join (plan.priceTests.map (·.text tablePrefix)) ++
        (" AND " ++ tablePrefix ++ "postmeta.meta_key = '_price'")) ∧
    (∀ price a, price.extended? = some a →
      (plan.hidesPrice price = true ↔ ∃ t ∈ plan.priceTests, t.Accepts a)) ∧
    ∀ f ∈ plan.priceFilters,
      ((∀ a b, SqlRelates f.test.op a b ↔ f.op.Relates a b) ∧
        f.test.number = Text.ofInt64 f.bound ∧ Text.readInt64? f.test.number = some f.bound) ∧
      ∀ x : ℚ, f.price.extended? = some (.ofRat x) → |x| < 2 ^ 63 →
        f.test.number = String.ofList (Text.writeInt (towardZero x)) ∧
        f.test.bound? = some (.ofRat (towardZero x)) ∧
        ∀ price a, price.extended? = some a →
          (f.excludes price = true ↔ f.op.Relates a (.ofRat (towardZero x))) :=
  ⟨fun h ↦ applyPriceClauses_of_eq_nil h tablePrefix clauses,
    fun h ↦ filter_applyPriceClauses h tablePrefix clauses,
    fun _ _ ↦ plan.hidesPrice_iff_exists_accepts,
    fun f _ ↦ ⟨⟨f.op.sqlRelates_sql_iff, rfl, Text.readInt64?_ofInt64 f.bound⟩,
      fun _ hx hlt ↦ ⟨PriceFilter.number_test_of_lt hx hlt, PriceFilter.bound?_test_of_lt hx hlt,
        fun _ _ ↦ PriceFilter.excludes_iff_of_lt hx hlt⟩⟩⟩

/-- Hides prices below minus ten and three quarters. -/
def fractionFilter : PriceFilter where
  ruleset := 0
  op := .less
  price := .ofDecimal ⟨true, 1075, -2⟩

/-- The negative fraction is cut off toward zero in the query, so that minus ten and a half is
hidden as well. -/
theorem hidesPrice_iff_applyPriceClauses_fractionFilter :
    let plan : Plan := { priceFilters := [fractionFilter] }
    (plan.applyPriceClauses "wp_" {}).filter =
      " AND wp_posts.ID NOT IN (SELECT post_id FROM wp_postmeta WHERE meta_key = '_price' AND " ++
        "meta_value < -10) AND wp_postmeta.meta_key = '_price'" ∧
    (∃ t ∈ plan.priceTests, t.Accepts (.ofRat (-21 / 2))) ∧
    (fractionFilter.price.extended? = some (.ofRat (-43 / 4)) ∧ |(-43 / 4 : ℚ)| < 2 ^ 63) ∧
    fractionFilter.test.bound? = some (.ofRat (-10)) := by
  intro plan
  obtain ⟨-, htext, hhides, hbounds⟩ := hidesPrice_iff_applyPriceClauses plan "wp_" {}
  have hprice : (Binary64.ofDecimal ⟨true, 105, -1⟩).extended? = some (.ofRat (-21 / 2)) := by
    decide +kernel
  have hx : fractionFilter.price.extended? = some (.ofRat (-43 / 4)) := by decide +kernel
  have hlt : |(-43 / 4 : ℚ)| < 2 ^ 63 := by norm_num
  have hbound := ((hbounds fractionFilter (List.mem_singleton_self _)).2 _ hx hlt).2.1
  have htoward : towardZero (-43 / 4) = -10 := by decide +kernel
  refine ⟨?_, (hhides _ _ hprice).1 (by decide +kernel), ⟨hx, hlt⟩, ?_⟩
  · rw [htext (List.cons_ne_nil _ _)]
    decide +kernel
  · rw [hbound, htoward]
    rfl

end Plan

end Storefront
