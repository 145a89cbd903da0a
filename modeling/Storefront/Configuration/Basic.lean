import Storefront.Configuration.OptionStore
import Storefront.Configuration.Sheet
import Storefront.Configuration.Cell
/-!
# The configuration in an option store

Loading, saving and deleting the configuration. Every operation names the state of the store it
starts from and, where it may change it, gives the state it leaves behind; what a failed operation
has written before the failure is in that state.

Saving first orders the rule-sets by index and leaves every priority to its last holder, then writes
the seventeen rule-set fields one after the other. Each field is written whole, so that nothing of
an earlier configuration survives in it.
-/

namespace Storefront

/-- A configuration kept in an option store. -/
structure Configuration (σ : Type) where
  /-- The store. -/
  backend : OptionBackend σ
  /-- How its options are named. -/
  naming : Naming := {}

namespace Configuration

variable {σ : Type}

/-- The stored value of a field. -/
def field? (c : Configuration σ) (f : Field) (s : σ) : Option StoredValue :=
  c.backend.get? (c.naming.ofField f) s

/-! ### The switch and the license -/

/-- Whether rule-sets are looked at at all: the switch reads exactly `yes`. -/
def isEnabled (c : Configuration σ) (s : σ) : Bool :=
  (c.field? .rulesetToggle s).bind StoredValue.text? == some "yes"

/-- Sets the switch. -/
def setEnabled (c : Configuration σ) (enabled : Bool) (s : σ) : Except StoreError Unit × σ :=
  c.backend.update (c.naming.ofField .rulesetToggle) (.ofToggle enabled) s

/-- Whether a response of the license server says that the license is active. -/
def saysActivated (response : StoredValue) : Bool :=
  match response.field? "activated" with
  | some (.bool true) => true
  | _ => false

/-- The licensing tier. It is the paid one only if there is a license key and the stored response of
the license server says that it is active. -/
def tier (c : Configuration σ) (s : σ) : Tier :=
  let licensed := (c.field? .licenseKey s).any (!·.isBlank)
  let activated := (c.field? .licenseResponse s).any saysActivated
  if licensed && activated then .paid else .free

/-! ### Loading -/

/-- The rule-set fields of a state. -/
def sheet (c : Configuration σ) (s : σ) : Sheet := fun f ↦ c.field? (.ruleset f) s

/-- The snapshot that a state holds. -/
def load (c : Configuration σ) (s : σ) : Snapshot where
  enabled := c.isEnabled s
  tier := c.tier s
  rulesets := (c.sheet s).rulesets

/-! ### Saving -/

/-- Rule-sets as they are written: in the order of their indices, each priority held once. -/
def repaired (rs : List Ruleset) : List Ruleset := Schedule.dedupe (Schedule.byIndex rs)

/-- The options that saving writes, in order. -/
def columns (c : Configuration σ) (rs : List Ruleset) : List (String × StoredValue) :=
  RulesetField.all.map fun f ↦ (c.naming.ofField (.ruleset f), f.column (repaired rs))

/-- Writes rule-sets and gives them back as written. -/
def save (c : Configuration σ) (rs : List Ruleset) (s : σ) :
    Except StoreError (List Ruleset) × σ :=
  match c.backend.updateAll (c.columns rs) s with
  | (.ok (), s) => (.ok (repaired rs), s)
  | (.error e, s) => (.error e, s)

/-- Deletes every option of the configuration. -/
def purge (c : Configuration σ) (s : σ) : Except StoreError Unit × σ :=
  c.backend.deleteAll (Field.all.map c.naming.ofField) s

end Configuration

/-! ### Snapshots from texts -/

/-- Why no snapshot could be loaded. -/
inductive LoadError where
  /-- The options could not be read. -/
  | store (error : StoreError)
  /-- The file of options could not be read. -/
  | unreadableFile
  deriving DecidableEq, Repr

/-- The snapshot that a JSON text of options holds, under the default names. -/
def Snapshot.ofOptionsJson (json : String) : Except LoadError Snapshot :=
  match OptionTable.ofJson json with
  | .ok t => .ok (Configuration.load { backend := OptionTable.backend } t)
  | .error e => .error (.store e)

/-- The snapshot that a file of options holds, given its text if it could be read. -/
def Snapshot.ofOptionsFile : Option String → Except LoadError Snapshot
  | some json => ofOptionsJson json
  | none => .error .unreadableFile

end Storefront
