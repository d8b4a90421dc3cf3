import TypeCatalog.Script.Operand
import TypeCatalog.Call.Ancestry
import TypeCatalog.Registry.Verify

/-! Steps that make registries and look at types. -/
namespace TypeCatalog.Script

inductive TypeRequest where
  /-- Gives a name to a new registry. -/
  | newRegistry (name : String) (config : RegistryConfig)
  | find (name : String)
  | findHash (hash : TypeHash)
  | handleOf (type : TypeKey)
  | list
  | view (handle : String)
  | isAlive (handle : String)
  /-- Whether two words stand for one handle of one registry. -/
  | same (handle other : String)
  | derives (handle : String) (target : TypeHash)
  | enumValue (handle name : String)
  | enumName (handle : String) (value : Int64)
  | attribute (handle key : String)
  | verify

namespace TypeRequest

def found (n : Nat) (handle : Option TypeHandle) : Reply := .foundType (handle.map (⟨n, ·⟩))

def ask {α : Type} (n : Nat) (word : String) (question : Registry → TypeHandle → α) : Play α := do
  let handle ← Play.typeHandle n word
  return question (← Play.registry handle.registry) handle.item

def answer (u : Universe) (n : Nat) : TypeRequest → Play Reply
  | newRegistry name config => do
    let r : Registry := { config }
    modify (·.addRegistry name r)
    return .text r.debugText
  | find name => return found n ((← Play.registry n).typeByName? name)
  | findHash hash => return found n ((← Play.registry n).typeByHash? hash)
  | handleOf type => return found n ((← Play.registry n).typeByHash? (u.hash type))
  | list => do
    let rows := (← Play.registry n).publishedRows
    return .typeNames (rows.map fun (handle, row) => (handle, row.name.text))
  | view word => return .typeView (← ask n word Registry.typeView)
  | isAlive word => return .flag (← ask n word Registry.isAlive)
  | same word other => do
    let first ← Play.typeHandle n word
    let second ← Play.orMissing .typeHandle other ((← get).types.find? other)
    return .flag (first.registry = second.registry && first.item = second.item)
  | derives word target => return .flag (← ask n word (·.derivesFrom · target))
  | enumValue word name =>
    return .enumNumber (← ask n word fun r h => (r.row? h).bind (·.enumValue? name))
  | enumName word value => do
    let name ← ask n word fun r h => (r.row? h).bind (·.enumName? value)
    return .foundText (name.map Name.text)
  | .attribute word key =>
    return .attribute (← ask n word fun r h => (r.row? h).bind (·.attribute? key))
  | verify => do
    match (← Play.registry n).verify with
    | .ok () => return .done
    | .error cause => Play.fail (.verify cause)

end TypeRequest

end TypeCatalog.Script
