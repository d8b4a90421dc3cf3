import TypeCatalog.Registry.Types
import TypeCatalog.Registry.Functions

/-! The life of a module in a registry: declared, initialized, and removed with all it owns. -/
namespace TypeCatalog.Registry

def declareModule (r : Registry) (m : ModuleId) (name : String) : Registry :=
  let (name, r) := r.intern name m
  r.updateModule m fun info => { info with name := some name.text }

def markInitialized (r : Registry) (m : ModuleId) : Registry :=
  r.updateModule m fun info => { info with initialized := true }

/-- Removes every type, function and name that a module alone owns, and its bookkeeping. Counts
the types and functions. -/
def unregisterModule (r : Registry) (m : ModuleId) : Nat × Registry :=
  let types := r.types.positions (·.owner = m)
  let r := types.foldl removeRow r
  let functions := r.functions.positions (·.owner = m)
  let r := functions.foldl removeFunction r
  let (_, names) := r.names.evict m
  (types.length + functions.length, { r with names, modules := r.modules.erase m })

end TypeCatalog.Registry
