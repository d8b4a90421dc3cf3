import TypeCatalog.Registry.Basic

/-! Changes to the global functions, which are overloaded by name and told apart by signature. -/
namespace TypeCatalog.Registry

def insertFunction (r : Registry) (row : FunctionRow) : FunctionHandle × Registry :=
  let (ref, functions) := r.functions.insert row
  let r := { r with
    functions
    overloadSets := r.overloadSets.update row.name.id [] (· ++ [ref.index])
    bySignature := r.bySignature.insert row.signature ref.index }
  (⟨ref⟩, r.updateModule row.owner fun info => { info with functions := info.functions + 1 })

def removeFunction (r : Registry) (index : Nat) : Registry :=
  match r.functions.rowAt? index with
  | none => r
  | some row =>
    let others := ((r.overloadSets.find? row.name.id).getD []).filter (· ≠ index)
    let r := { r with
      functions := r.functions.remove index
      overloadSets := if others.isEmpty then r.overloadSets.erase row.name.id
        else r.overloadSets.insert row.name.id others
      bySignature := if r.bySignature.find? row.signature = some index then
          r.bySignature.erase row.signature
        else r.bySignature }
    r.modifyModule row.owner fun info => { info with functions := info.functions - 1 }

/-- Adds an overload of a function name. The module that has it already gets its handle; another
module is refused. -/
def addFunction (r : Registry) (owner : ModuleId) (name : String) (params : List TypeHash)
    (returnType : TypeHash) (callable : Callable) :
    Except RegistrationError FunctionHandle × Registry :=
  let signature := TypeHash.ofFunction name params
  match r.functionBySignature? signature with
  | some (handle, present) =>
    (if present.owner = owner then .ok handle
      else .error (.duplicateRegistration name "function"), r)
  | none =>
    let (name, r) := r.intern name owner
    let (handle, r) := r.insertFunction { name, owner, params, returnType, signature, callable }
    (.ok handle, r)

end TypeCatalog.Registry
