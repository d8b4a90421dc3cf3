import TypeCatalog.Script.Operand
import TypeCatalog.Registry.Modules
import TypeCatalog.Registry.View

/-! Steps about functions, modules and names. -/
namespace TypeCatalog.Script

inductive ModuleRequest where
  | functionsNamed (name : String)
  | functionView (function : String)
  | functions
  | declare (owner : ModuleId) (name : String)
  | info (owner : ModuleId)
  | unregister (owner : ModuleId)
  | isInitialized (owner : ModuleId)
  | intern (text : String) (user : ModuleId)
  | findName (text : String)
  | nameText (name : String)

namespace ModuleRequest

def answer (n : Nat) : ModuleRequest → Play Reply
  | functionsNamed name => do
    let r ← Play.registry n
    return .functionViews ((r.functionsNamed name).map r.functionView)
  | functionView word => do
    let function ← Play.function word
    return .functionView ((← Play.registry function.registry).functionView function.item)
  | functions => do
    let rows := (← Play.registry n).functionRows
    return .functionNames (rows.map fun (handle, row) => (handle, row.name.text))
  | declare owner name => do
    Play.changeRegistry n fun r => ((), r.declareModule owner name)
    return .done
  | info owner => return .moduleInfo ((← Play.registry n).moduleInfo? owner)
  | unregister owner => return .count (← Play.changeRegistry n (·.unregisterModule owner))
  | isInitialized owner => return .flag ((← Play.registry n).isInitialized owner)
  | intern text user => do
    let name ← Play.changeRegistry n (·.intern text user)
    return .name name.id
  | findName text => return .foundName ((← Play.registry n).names.find? text)
  | nameText word => do
    let id ← Play.orMissing .name word ((← get).names.find? word)
    return .foundText (((← Play.registry n).names.name? id).map Name.text)

end ModuleRequest

end TypeCatalog.Script
