import TypeCatalog.Call.Basic
import TypeCatalog.Image.Merge
import TypeCatalog.Registry.View

/-!
What the steps of a script answer, and how they fail. A step that fails says why; one that panics
or runs out of nested calls has no answer.
-/
namespace TypeCatalog.Script

/-- What a script names, and fails to find. -/
inductive Referent where
  | typeHandle
  | row
  | position
  | member
  | function
  | call
  | object
  | image
  | name
deriving DecidableEq

inductive Failure where
  | query (cause : QueryError)
  | registration (cause : RegistrationError)
  | merge (cause : MergeError)
  | verify (cause : VerifyError)
  | missing (what : Referent) (word : String)
  /-- A member was to be used on an object that is void. -/
  | voidObject
deriving DecidableEq

inductive Halt where
  | panic
  /-- Descriptions called for one another more deeply than a script may. -/
  | exhausted
  | failed (cause : Failure)
deriving DecidableEq

structure ValueView where
  value : Value
  isInline : Bool
  typeHash : TypeHash
  typeName : String

def ValueView.debugText (v : ValueView) : String :=
  recordText "Value"
    [("type", Text.quote v.typeName), ("hash", v.typeHash.debugText),
      ("inline", boolText v.isInline)] false

/-- Something that belongs to a registry, with the number of that registry. -/
structure In (α : Type) where
  registry : Nat
  item : α

inductive Reply where
  | done
  | flag (holds : Bool)
  | flags (first second : Bool)
  | count (n : Nat)
  | text (content : String)
  | foundText (content : Option String)
  | type (handle : In TypeHandle)
  | foundType (handle : Option (In TypeHandle))
  | typeNames (entries : List (TypeHandle × String))
  | typeView (view : TypeView)
  | enumNumber (value : Option Int64)
  | attribute (value : Option AttributeValue)
  | member (view : Option (In MemberView))
  | members (views : List MemberView)
  | ownedMember (view : MemberView) (owner : TypeHandle) (ownerName : String)
  | value (value : Value)
  | shown (value : Value)
  | call (call : In ResolvedCall) (alive : Bool)
  | rawCall (arity : Nat) (result : Value)
  | function (handle : In FunctionHandle)
  | functionView (view : FunctionView)
  | functionViews (views : List FunctionView)
  | functionNames (entries : List (FunctionHandle × String))
  | moduleInfo (info : Option ModuleInfo)
  | name (id : NameId)
  | foundName (id : Option NameId)
  | image (bytes : List UInt8) (withBytes : Bool)
  | merged (report : MergeReport)
  | valueView (view : ValueView)
  | inner (datum : Value)
  | back (object : Value)
  | receiver (text : String) (isNone : Bool)
  | converted (number datum : Option Value)
  | numeric (number : Option Numeric)
  | layout (size align : UInt64) (name : String) (hash : TypeHash)

/-- What a running step tells: what a description or a module's set-up has seen, and the results
of the steps that they run. -/
inductive Entry where
  | probed (handle : TypeHandle) (owner : ModuleId) (alive : Bool)
  | typeEntered (handle : TypeHandle)
  | functionEntered (handle : FunctionHandle)
  | step (answer : Except Halt Reply) (nested : List Entry)

end TypeCatalog.Script
