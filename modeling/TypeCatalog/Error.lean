import TypeCatalog.TypeHash
import TypeCatalog.Overload.Diagnostics

/-!
The failures of the catalog, each a cause with the wording of its message: queries and calls,
registrations, merges of images, and the check of the member indexes.
-/
namespace TypeCatalog

inductive ErrorKind where
  | notFound
  | invalidArgument
deriving DecidableEq

def ErrorKind.name : ErrorKind → String
  | .notFound => "NotFound"
  | .invalidArgument => "InvalidArgument"

inductive QueryError where
  | notFound (entity name : String)
  /-- The handle's row was replaced or removed. -/
  | staleHandle
  | arityMismatch (expected actual : Nat)
  | typeMismatch (expected actual : TypeHash)
  | argumentConversion (index : Nat)
  | noViableOverload (name : String) (diagnostics : OverloadDiagnostics)
  | readOnlyProperty (name : String)
  /-- An instance member was used without an object of the right type or access. -/
  | missingReceiver (name : String)
  | notConstructible
deriving DecidableEq, Inhabited

namespace QueryError

def message : QueryError → String
  | .notFound entity name => s!"{entity} not found: {name}"
  | .staleHandle => "stale handle"
  | .arityMismatch expected actual =>
    s!"arity mismatch: expected {expected} argument(s), got {actual}"
  | .typeMismatch expected actual =>
    "type mismatch: expected " ++ expected.text ++ ", got " ++ actual.text
  | .argumentConversion index => s!"argument {index} cannot be converted"
  | .noViableOverload name diagnostics =>
    s!"no viable overload for '{name}': " ++ diagnostics.text
  | .readOnlyProperty name => s!"property '{name}' is read-only"
  | .missingReceiver name => s!"'{name}' requires a receiver"
  | .notConstructible => "type is not constructible"

def kind : QueryError → ErrorKind
  | .notFound .. => .notFound
  | _ => .invalidArgument

def isStale : QueryError → Bool
  | .staleHandle => true
  | _ => false

def diagnostics? : QueryError → Option OverloadDiagnostics
  | .noViableOverload _ diagnostics => some diagnostics
  | _ => none

end QueryError

inductive RegistrationError where
  | duplicateRegistration (name kind : String)
  | invalidDeclaration (message : String)
  | moduleInit (module message : String)
deriving DecidableEq, Inhabited

def RegistrationError.message : RegistrationError → String
  | .duplicateRegistration name kind =>
    s!"duplicate registration: {name} already registered as {kind}"
  | .invalidDeclaration message => s!"invalid declaration: {message}"
  | .moduleInit module message => s!"module '{module}' failed to initialize: {message}"

inductive MergeError where
  | unsupportedVersion (found : UInt32)
  | corruptOffsets
  | corruptTypeRecord (index : Nat)
  | corruptFieldRecord (index : Nat)
  | corruptMethodRecord (index : Nat)
  | corruptConstructorRecord (index : Nat)
  | corruptAttributeRecord (index : Nat)
  | duplicateType (hash : TypeHash) (conflicted : Nat)
deriving DecidableEq, Inhabited

namespace MergeError

def phrase : MergeError → String
  | .unsupportedVersion _ => "unsupported version"
  | .corruptOffsets => "corrupt offsets"
  | .corruptTypeRecord _ => "corrupt type record"
  | .corruptFieldRecord _ => "corrupt field record"
  | .corruptMethodRecord _ => "corrupt method record"
  | .corruptConstructorRecord _ => "corrupt ctor record"
  | .corruptAttributeRecord _ => "corrupt attribute record"
  | .duplicateType .. => "duplicate typeId"

def detail : MergeError → String
  | .unsupportedVersion found => s!" {found.toNat}"
  | .corruptOffsets => ""
  | .corruptTypeRecord index | .corruptFieldRecord index | .corruptMethodRecord index
  | .corruptConstructorRecord index | .corruptAttributeRecord index => s!" {index}"
  | .duplicateType hash conflicted => " " ++ hash.text ++ s!" ({conflicted} conflicting type(s))"

def message (e : MergeError) : String := e.phrase ++ e.detail

end MergeError

/-- The member index that a check found to point past its collection. -/
inductive IndexedMembers where
  | fields
  | properties
  | methodOverloads
deriving DecidableEq, Inhabited

structure VerifyError where
  members : IndexedMembers
  owner : String
  index : Nat
  length : Nat
deriving DecidableEq, Inhabited

namespace VerifyError

def phrase (e : VerifyError) : String :=
  match e.members with
  | .fields => "field index overflow"
  | .properties => "property index overflow"
  | .methodOverloads => "method overload index overflow"

def message (e : VerifyError) : String := e.phrase ++ s!" in '{e.owner}': {e.index} >= {e.length}"

end VerifyError

inductive CatalogError where
  | query (error : QueryError)
  | registration (error : RegistrationError)
  | merge (error : MergeError)
  | verify (error : VerifyError)
deriving DecidableEq

def CatalogError.message : CatalogError → String
  | .query e => e.message
  | .registration e => e.message
  | .merge e => e.message
  | .verify e => e.message

end TypeCatalog
