import Storefront.Document.Reader
import Storefront.StoredValue.OfDocument
import Storefront.Serialized.Reader
/-!
# Option stores

Where options are kept. A store is described by what it does to a state: looking an option up leaves
the state alone, updating and deleting may fail and may change it. `OptionTable` is the store that
keeps its options itself and never fails.

A table can be read from a document. A member that is a text is examined for a serialized value;
texts deeper inside are taken as they are. The first member that fails, in the order of the names,
decides the error.
-/

namespace Storefront

/-! ### Errors -/

/-- Why an option store could not do what it was asked for. -/
inductive StoreError where
  /-- A stored text looks serialized and is not. -/
  | decode (error : Serialized.DecodeError)
  /-- An option could not be written. -/
  | write (option reason : String)
  /-- An option could not be deleted. -/
  | delete (option reason : String)
  /-- A document of options is not an object. -/
  | notAnObject
  /-- A text that should be a document is none. -/
  | malformed
  deriving DecidableEq, Repr

/-- The wording of an error, as far as it is this library's own. -/
def StoreError.message? : StoreError → Option String
  | decode e => some e.message
  | write option reason => some ("failed to write option `" ++ option ++ "`: " ++ reason)
  | delete option reason => some ("failed to delete option `" ++ option ++ "`: " ++ reason)
  | notAnObject => some "option fixture is not a JSON object"
  | malformed => none

/-! ### Backends -/

/-- A store of options over states of type `σ`. -/
structure OptionBackend (σ : Type) where
  /-- The value of an option. -/
  get? : String → σ → Option StoredValue
  /-- Sets an option. -/
  update : String → StoredValue → σ → Except StoreError Unit × σ
  /-- Deletes an option; it need not exist. -/
  delete : String → σ → Except StoreError Unit × σ

namespace OptionBackend

variable {σ : Type}

/-- Sets options one after the other, up to the first failure. -/
def updateAll (b : OptionBackend σ) : List (String × StoredValue) → σ → Except StoreError Unit × σ
  | [], s => (.ok (), s)
  | (option, v) :: rest, s =>
    match b.update option v s with
    | (.ok (), s) => b.updateAll rest s
    | (.error e, s) => (.error e, s)

/-- Deletes options one after the other, up to the first failure. -/
def deleteAll (b : OptionBackend σ) : List String → σ → Except StoreError Unit × σ
  | [], s => (.ok (), s)
  | option :: rest, s =>
    match b.delete option s with
    | (.ok (), s) => b.deleteAll rest s
    | (.error e, s) => (.error e, s)

/-- A store that refuses to update or delete certain options and is otherwise the given one. -/
def refusing (b : OptionBackend σ) (updates deletions : List String) : OptionBackend σ where
  get? := b.get?
  update option v s :=
    if option ∈ updates then (.error (.write option "refused"), s) else b.update option v s
  delete option s :=
    if option ∈ deletions then (.error (.delete option "refused"), s) else b.delete option s

end OptionBackend

/-! ### Tables -/

/-- Options by name. -/
abbrev OptionTable := OrderedMap String StoredValue

namespace OptionTable

/-- A table as a store. -/
def backend : OptionBackend OptionTable where
  get? option t := t.get? option
  update option v t := (.ok (), t.insert option v)
  delete option t := (.ok (), t.erase option)

/-- The value of a document's member. -/
def valueOf : Document → Except StoreError StoredValue
  | .text raw => (Serialized.ofStoredText raw).mapError .decode
  | d => .ok (.ofDocument d)

/-- The values of members in turn, up to the first failure. -/
def valuesOf : List (String × Document) → Except StoreError (List (String × StoredValue))
  | [] => .ok []
  | (option, d) :: ms => do
    let v ← valueOf d
    let rest ← valuesOf ms
    pure ((option, v) :: rest)

/-- The table that a readable document gives. -/
def ofDocument : Document → Except StoreError OptionTable
  | .object members =>
    (valuesOf (OrderedMap.ofList members).toList).map (OrderedMap.ofList ·)
  | _ => .error .notAnObject

/-- The table that a JSON text gives. -/
def ofJson (json : String) : Except StoreError OptionTable :=
  match Document.read? json with
  | some d => ofDocument d
  | none => .error .malformed

end OptionTable

end Storefront
