/-!
# Configuration fields

The names under which the configuration lies in the options table. Seventeen fields hold one array
each, with one entry per rule-set; the others hold the switch, the license and what the housekeeping
of the plugin leaves behind. The full name of an option is a common prefix and the name of its
field.
-/

namespace Storefront

/-- A field with one entry per rule-set. -/
inductive RulesetField where
  /-- The kind of the condition. -/
  | conditions
  /-- Its operator. -/
  | operator
  /-- The value it compares with. -/
  | conditionSubfield
  /-- The priority. -/
  | priority
  /-- The stop toggle. -/
  | ruleToggle
  /-- Hidden products by category. -/
  | productInCategory
  /-- Hidden products by id. -/
  | productIsProduct
  /-- Hidden products by variation. -/
  | productHasVariant
  /-- Hidden products by attribute term. -/
  | productHasSubattribute
  /-- The comparison of the price rule. -/
  | productPriceType
  /-- The price of the price rule. -/
  | productPrice
  /-- Hidden categories by id. -/
  | categoryIsCategory
  /-- Hidden categories by child. -/
  | categoryHasSubcategory
  /-- Hidden categories by product. -/
  | categoryProductIn
  /-- Hidden categories by variation. -/
  | categoryHasVariant
  /-- The comparison of the count rule. -/
  | categoryProductCountType
  /-- The bound of the count rule. -/
  | categoryProductCount
  deriving DecidableEq, Repr

namespace RulesetField

/-- The fields with one entry per rule-set, in the order in which they are written. -/
def all : List RulesetField :=
  [conditions, operator, conditionSubfield, priority, ruleToggle, productInCategory,
    productIsProduct, productHasVariant, productHasSubattribute, productPriceType, productPrice,
    categoryIsCategory, categoryHasSubcategory, categoryProductIn, categoryHasVariant,
    categoryProductCountType, categoryProductCount]

/-- The name of a field. -/
def name : RulesetField → String
  | conditions => "conditions"
  | operator => "operator"
  | conditionSubfield => "condition_subfield"
  | priority => "rule_set_priority"
  | ruleToggle => "rule_toggle"
  | productInCategory => "show_product_in_category"
  | productIsProduct => "show_product_is_product"
  | productHasVariant => "show_product_has_variant"
  | productHasSubattribute => "show_product_has_subattribute"
  | productPriceType => "show_product_price_type"
  | productPrice => "show_product_price"
  | categoryIsCategory => "show_category_is_category"
  | categoryHasSubcategory => "show_category_has_subcategory"
  | categoryProductIn => "show_category_product_in"
  | categoryHasVariant => "show_category_has_variant"
  | categoryProductCountType => "show_category_product_count_type"
  | categoryProductCount => "show_category_product_count"

theorem mem_all (f : RulesetField) : f ∈ all := by cases f <;> decide

end RulesetField

/-- A field of the configuration. -/
inductive Field where
  /-- The log of scheduled jobs. -/
  | cronLog
  /-- The license key. -/
  | licenseKey
  /-- The license password. -/
  | licensePassword
  /-- The licensed product. -/
  | licenseProduct
  /-- The addresses of the purchase. -/
  | purchaseEmails
  /-- The last answer of the license server. -/
  | licenseResponse
  /-- Notices for the administrator. -/
  | adminNotice
  /-- The license status of a network of sites. -/
  | networkStatus
  /-- The main switch. -/
  | rulesetToggle
  /-- The settings of the visual customizer. -/
  | visualCustomizer
  /-- A field with one entry per rule-set. -/
  | ruleset (field : RulesetField)
  deriving DecidableEq, Repr

namespace Field

/-- Every field, in the order in which they are deleted. -/
def all : List Field :=
  [cronLog, licenseKey, licensePassword, licenseProduct, purchaseEmails, licenseResponse,
    adminNotice, networkStatus, rulesetToggle, visualCustomizer] ++ RulesetField.all.map ruleset

/-- The name of a field. -/
def name : Field → String
  | cronLog => "cron_log"
  | licenseKey => "api_license_key"
  | licensePassword => "api_password"
  | licenseProduct => "api_product_id"
  | purchaseEmails => "api_purchase_emails"
  | licenseResponse => "api_get_response"
  | adminNotice => "zamartz_api_admin_notice_data"
  | networkStatus => "network_admin_api_status"
  | rulesetToggle => "ruleset_toggle"
  | visualCustomizer => "visual_customizer"
  | ruleset f => f.name

theorem mem_all (f : Field) : f ∈ all := by
  cases f with
  | ruleset f => exact List.mem_append_right _ (List.mem_map_of_mem (RulesetField.mem_all f))
  | _ => decide

end Field

/-- How the options of an installation are named. -/
structure Naming where
  /-- What every option name starts with. -/
  optionPrefix : String := "woo_shop_manager_"
  deriving DecidableEq, Repr

namespace Naming

/-- The full name of an option. -/
def optionName (n : Naming) (field : String) : String := n.optionPrefix ++ field

/-- The full name of a field's option. -/
def ofField (n : Naming) (f : Field) : String := n.optionName f.name

/-- The full name of a rule-set field's option. -/
def ofRulesetField (n : Naming) (f : RulesetField) : String := n.optionName f.name

end Naming

end Storefront
