import TypeCatalog.Script.Run

/-! Scripts on one registry that all of a program shares, with no words for what is in it. -/
namespace TypeCatalog.Script

inductive SharedStep where
  | function (source : FunctionSource)
  | functionsNamed (name : String)
  | invoke (name : String) (args : List Operand)
  | find (name : String)
  | type (type : TypeKey)

structure TypeFacts where
  name : String
  typeHash : TypeHash
  foundByName : Bool
  foundByHash : Bool
  foundAgain : Bool
  hasDefault : Bool

inductive SharedReply where
  | defined
  | functions (views : List FunctionView)
  | value (value : Value)
  | typeName (name : Option String)
  | facts (facts : TypeFacts)

namespace SharedStep

def typeFacts (w : World) (n : Nat) (type : TypeKey) : Play TypeFacts := do
  let handle ← register w depthLimit n .host type
  let again ← register w depthLimit n .host type
  let r ← Play.registry n
  let name := r.typeName handle
  let made := match r.resolveConstructor handle [] with
    | .ok call => (call.invoke r w.types .none []).answer
    | .error cause => .error cause
  return {
    name
    typeHash := r.typeHash handle
    foundByName := r.typeByName? name = some handle
    foundByHash := r.typeByHash? (r.typeHash handle) = some handle
    foundAgain := again = handle
    hasDefault := made.isOk }

def answer (w : World) (n : Nat) : SharedStep → Play SharedReply
  | function source => do
    let _ ← addFunction w depthLimit n .host source
    return .defined
  | functionsNamed name => do
    let r ← Play.registry n
    return .functions ((r.functionsNamed name).map r.functionView)
  | invoke name args => return .value (← CallRequest.invokeNamed w.types n name args)
  | find name => do
    let r ← Play.registry n
    return .typeName ((r.typeByName? name).map r.typeName)
  | type key => return .facts (← typeFacts w n key)

/-- Runs steps on the registry of number `n`, each to its answer or to where it halts. -/
def playOn (w : World) (n : Nat) (s : Session) :
    List SharedStep → List (Except Halt SharedReply)
  | [] => []
  | step :: steps =>
    let (answer, s) := (step.answer w n).run.run s
    answer :: playOn w n s steps

def play (w : World) (steps : List SharedStep) : List (Except Halt SharedReply) :=
  let (n, s) := Session.named {} "shared"
  playOn w n s steps

end SharedStep

end TypeCatalog.Script
