import Storefront.Document.Basic
import Storefront.Ordered.IdSet
import Storefront.Binary64.Order
/-!
# Records

The form in which values of the library travel as documents.

* A **record** is an object with one member per field. Members that no field asks for are ignored, a
  field given twice is an error, and so is a missing one unless its absence means something. The
  values of all fields in their order, as an array, are accepted as well.
* A **name** is a string; an object that has the name as its only member, with no value, stands for
  it.
* A **tagged record** has one member that names its case beside the fields of that case. As an array
  it starts with that name. It is read only if all of it is readable, ignored members included.

Nothing is converted: a string of digits is no number and a number without a fraction written with
one is no integer. Only an integer is accepted where a binary64 number is expected. A number that is
not finite has no written form and becomes `null`.
-/

namespace Storefront

/-- Values that travel as documents. -/
class Record (α : Type) where
  /-- The document of a value. -/
  write : α → Document
  /-- The value that a document stands for. -/
  read? : Document → Option α
  /-- What a missing field stands for, if it stands for anything. -/
  absent? : Option α := none

namespace Record

variable {α : Type}

/-! ### Scalars and lists -/

instance : Record Bool where
  write := .bool
  read?
    | .bool b => some b
    | _ => none

instance : Record String where
  write := .text
  read?
    | .text s => some s
    | _ => none

/-- A count is written as an integer and fits sixty-four bits when it is read. -/
instance : Record Nat where
  write n := .integer n
  read?
    | .integer n => if 0 ≤ n ∧ n < UInt64.size then some n.toNat else none
    | _ => none

instance : Record UInt64 where
  write n := .integer n.toNat
  read?
    | .integer n => if 0 ≤ n ∧ n < UInt64.size then some (UInt64.ofNat n.toNat) else none
    | _ => none

instance : Record Int64 where
  write n := .integer n.toInt
  read?
    | .integer n =>
      if Int64.minValue.toInt ≤ n ∧ n ≤ Int64.maxValue.toInt then some (Int64.ofInt n) else none
    | _ => none

instance : Record Binary64 where
  write x := if x.isFinite then .real x else .null
  read?
    | .real x => some x
    | .integer n => some (.ofInt n)
    | _ => none

/-- `null` and a missing field stand for no value. -/
instance [Record α] : Record (Option α) where
  write
    | some a => write a
    | none => .null
  read?
    | .null => some none
    | d => (read? d).map some
  absent? := some none

instance [Record α] : Record (List α) where
  write as := .list (as.map write)
  read?
    | .list ds => ds.mapM read?
    | _ => none

/-- A set is written ascending and read from any list of its members. -/
instance : Record IdSet where
  write s := write s.toList
  read? d := (read? d : Option (List UInt64)).map IdSet.ofList

/-- The members of an object whose values are all strings. -/
def textMembers? : List (String × Document) → Option (List (String × String))
  | [] => some []
  | (k, .text v) :: ms => (textMembers? ms).map ((k, v) :: ·)
  | _ => none

/-- Of members with equal names the last one counts. -/
instance : Record (OrderedMap String String) where
  write m := .object (m.toList.map fun (k, v) ↦ (k, .text v))
  read?
    | .object ms => (textMembers? ms).map (OrderedMap.ofList ·)
    | _ => none

/-! ### Names -/

/-- The case that a document names. -/
def case? (cases : List (String × α)) : Document → Option α
  | .text name => cases.lookup name
  | .object [(name, .null)] => cases.lookup name
  | _ => none

/-! ### Fields -/

/-- The member of a name: missing, or given once. -/
def member? (members : List (String × Document)) (name : String) : Option (Option Document) :=
  match members.filter (·.1 == name) with
  | [] => some none
  | [(_, d)] => some (some d)
  | _ => none

/-- What a record gives for its fields. -/
def fields? (names : List String) : Document → Option (List (Option Document))
  | .object members => names.mapM (member? members)
  | .list ds => if ds.length = names.length then some (ds.map some) else none
  | _ => none

/-- The value of a field. -/
def field? [Record α] : Option Document → Option α
  | some d => read? d
  | none => absent?

/-! ### Tagged records -/

/-- Inside a tagged record the only member of an object that stands for a name may be empty instead
of having no value. -/
def emptyAsNull : Document → Document
  | .object [(name, .object [])] => .object [(name, .null)]
  | d => d

/-- The case that a tagged record names, and the record of its fields. -/
def tagged? (tag : String) (d : Document) : Option (String × Document) :=
  if d.isReadable then
    match d with
    | .object members =>
      match members.filter (·.1 == tag) with
      | [(_, .text name)] =>
        let rest := members.filter (·.1 != tag)
        some (name, .object (rest.map fun (k, d) ↦ (k, emptyAsNull d)))
      | _ => none
    | .list (.text name :: ds) => some (name, .list (ds.map emptyAsNull))
    | _ => none
  else none

end Record

end Storefront
