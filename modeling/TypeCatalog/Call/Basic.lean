import TypeCatalog.Registry.Basic
import TypeCatalog.Overload.Resolve

/-!
A call that has been resolved: its target with everything needed to invoke it any number of
times. Each invocation first checks that the target and every type on the way to it are alive.
-/
namespace TypeCatalog

/-- What a call invokes. The owner of a method is the type that declares it. -/
inductive CallTarget where
  | method (member : MemberHandle)
  | constructor (member : MemberHandle)
  | function (handle : FunctionHandle)
deriving DecidableEq

def CallTarget.text : CallTarget → String
  | .method m => "Method(" ++ m.text ++ ")"
  | .constructor m => "Constructor(" ++ m.text ++ ")"
  | .function h => "Function(" ++ h.text ++ ")"

structure ResolvedCall where
  target : CallTarget
  name : String
  params : List TypeHash
  returnType : TypeHash
  /-- How each argument is passed; empty where no overload had to be chosen. -/
  bindings : List ArgBinding
  callable : Callable
  /-- The links from the receiver's type to the declaring type. -/
  upcasts : List BaseLink
  path : List TypeHandle

namespace ResolvedCall

def isExact (c : ResolvedCall) : Bool := allExact c.bindings

def depth (c : ResolvedCall) : Nat := c.upcasts.length

def isTargetAlive (r : Registry) : CallTarget → Bool
  | .method m => (r.row? m.owner).any fun row => m.position < row.methods.length
  | .constructor m => (r.row? m.owner).any fun row => m.position < row.constructors.length
  | .function h => r.isFunctionAlive h

def isAlive (r : Registry) (c : ResolvedCall) : Bool :=
  isTargetAlive r c.target && c.path.all r.isAlive

/-- Makes a call on the base part that links lead to, and puts the part back after it has run. -/
def throughBases (name : String) (call : Receiver → CallOutcome) :
    List BaseLink → Receiver → CallOutcome
  | [], receiver => call receiver
  | link :: links, receiver =>
    match link.part.descend? receiver with
    | none => .failed (.missingReceiver name) receiver
    | some inner =>
      let outcome := throughBases name call links inner
      match outcome.answer with
      | .ok _ => { outcome with receiver := link.part.restore receiver outcome.receiver }
      | .error _ => { outcome with receiver := receiver }

/-- How the arguments are taken: as they are while all of them have the types of the parameters
and none was found to need a conversion. -/
def mode (u : Universe) (c : ResolvedCall) (args : List Value) : ArgMode :=
  if c.isExact && args.map (Value.typeHash u) = c.params then .exact else .convert

def invoke (r : Registry) (u : Universe) (c : ResolvedCall) (receiver : Receiver)
    (args : List Value) : CallOutcome :=
  if c.isAlive r = false then .failed .staleHandle receiver
  else if args.length ≠ c.params.length then
    .failed (.arityMismatch c.params.length args.length) receiver
  else
    throughBases c.name (fun inner => c.callable.invoke u (c.mode u args) inner args) c.upcasts
      receiver

end ResolvedCall

end TypeCatalog
