import TypeCatalog.Script.TypeRequest
import TypeCatalog.Script.MemberRequest
import TypeCatalog.Script.CallRequest
import TypeCatalog.Script.ModuleRequest
import TypeCatalog.Script.ImageRequest
import TypeCatalog.Script.ValueRequest

/-!
The language of scripts. Steps ask requests, register types, functions and modules; the
description of a type is a list of declarations, which may themselves run steps.
-/
namespace TypeCatalog.Script

inductive Request where
  | type (request : TypeRequest)
  | member (request : MemberRequest)
  | call (request : CallRequest)
  | module (request : ModuleRequest)
  | image (request : ImageRequest)
  | value (request : ValueRequest)

def Request.answer (u : Universe) (n : Nat) : Request → Play Reply
  | .type request => request.answer u n
  | .member request => request.answer u n
  | .call request => request.answer u n
  | .module request => request.answer n
  | .image request => request.answer n
  | .value request => request.answer u

abbrev Notes := List (String × AttributeValue)

inductive MethodForm where
  | shared
  | exclusive
  | static
deriving DecidableEq

def MethodForm.flags : MethodForm → MethodFlags
  | .shared => {}
  | .exclusive => { isMutating := true }
  | .static => { isStatic := true }

def MethodForm.access (owner : TypeKey) : MethodForm → Access
  | .shared => .shared owner
  | .exclusive => .exclusive owner
  | .static => .none

structure FunctionSource where
  name : String
  params : List TypeKey
  result : TypeKey
  run : List Value → Value

mutual

inductive Decl where
  | setName (name : String)
  | annotate (key : String) (value : AttributeValue)
  | enumValue (name : String) (value : Int64)
  | field (name : String) (target : TypeKey) (lens : Lens) (offset : Option UInt64) (notes : Notes)
  | property (name : String) (target : TypeKey) (getter : Value → Value)
      (setter : Option (Value → Value → Value)) (notes : Notes)
  | base (target : TypeKey) (lens : Lens)
  | method (form : MethodForm) (name : String) (params : List TypeKey) (result : TypeKey)
      (body : Value → List Value → Effect) (notes : Notes)
  | constructor (params : List TypeKey) (make : List Value → Value) (notes : Notes)
  | probe
  | panic
  | run (steps : List Step)

inductive SetUp where
  | register (type : TypeKey)
  | function (source : FunctionSource)
  | fail (message : String)
  | invalid (message : String)
  | run (steps : List Step)

inductive Action where
  | request (request : Request)
  | register (type : TypeKey) (owner : ModuleId)
  | extend (type : TypeKey) (decls : List Decl)
  | function (source : FunctionSource) (owner : ModuleId)
  | setUp (name : String) (items : List SetUp)

/-- A step on the registry of a name, whose answer may be stored under a word. -/
inductive Step where
  | mk (registry : String) (keepAs : Option String) (action : Action)

end

instance : Inhabited Decl := ⟨.probe⟩

instance : Inhabited SetUp := ⟨.run []⟩

instance : Inhabited Step := ⟨.mk "" none (.request (.type .list))⟩

def Step.registry : Step → String
  | .mk registry _ _ => registry

def Step.keepAs : Step → Option String
  | .mk _ keepAs _ => keepAs

def Step.action : Step → Action
  | .mk _ _ action => action

structure Description where
  decls : List Decl := []
  initial : Option Value := none

/-- All types there are, with their descriptions. -/
structure World where
  types : Universe
  describe : TypeKey → Description

end TypeCatalog.Script
