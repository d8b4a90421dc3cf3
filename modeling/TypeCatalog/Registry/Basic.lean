import TypeCatalog.Config
import TypeCatalog.Row

/-!
The state of a registry and what can be asked of it. Types are found by handle, hash and name,
functions by handle, name and signature. Queries show published rows only.
-/
namespace TypeCatalog

structure ModuleInfo where
  name : Option String := none
  /-- How many published rows the module owns. -/
  types : Nat := 0
  functions : Nat := 0
  initialized : Bool := false
deriving DecidableEq, Inhabited

structure Registry where
  config : RegistryConfig := {}
  names : Interner := .empty
  types : SlotTable Row := .empty
  byHash : Index TypeHash Nat := .empty
  /-- The slot of one row that carries a name. -/
  byName : Index NameId Nat := .empty
  functions : SlotTable FunctionRow := .empty
  /-- The slots of the functions of a name, in the order of their registration. -/
  overloadSets : Index NameId (List Nat) := .empty
  bySignature : Index TypeHash Nat := .empty
  modules : Index ModuleId ModuleInfo := .empty

namespace Registry

/-- The row behind a handle, published or not. -/
def anyRow? (r : Registry) (h : TypeHandle) : Option Row := r.types.get? h.slot

/-- The published row behind a handle. -/
def row? (r : Registry) (h : TypeHandle) : Option Row := (r.anyRow? h).filter Row.published

def isAlive (r : Registry) (h : TypeHandle) : Bool := (r.row? h).isSome

def anyByHash? (r : Registry) (hash : TypeHash) : Option (TypeHandle × Row) := do
  let index ← r.byHash.find? hash
  let ref ← r.types.refAt? index
  let row ← r.types.rowAt? index
  return (⟨ref⟩, row)

def byHash? (r : Registry) (hash : TypeHash) : Option (TypeHandle × Row) :=
  (r.anyByHash? hash).filter fun (_, row) => row.published

def byName? (r : Registry) (name : String) : Option (TypeHandle × Row) := do
  let id ← r.names.find? name
  let index ← r.byName.find? id
  let ref ← r.types.refAt? index
  let row ← r.row? ⟨ref⟩
  return (⟨ref⟩, row)

def typeByHash? (r : Registry) (hash : TypeHash) : Option TypeHandle :=
  (r.byHash? hash).map (·.1)

def typeByName? (r : Registry) (name : String) : Option TypeHandle :=
  (r.byName? name).map (·.1)

def publishedRows (r : Registry) : List (TypeHandle × Row) :=
  (r.types.rows.filter fun (_, row) => row.published).map fun (ref, row) => (⟨ref⟩, row)

def functionRow? (r : Registry) (h : FunctionHandle) : Option FunctionRow :=
  r.functions.get? h.slot

def isFunctionAlive (r : Registry) (h : FunctionHandle) : Bool := (r.functionRow? h).isSome

def functionRows (r : Registry) : List (FunctionHandle × FunctionRow) :=
  r.functions.rows.map fun (ref, row) => (⟨ref⟩, row)

/-- The overloads of a function name in the order of their registration. -/
def functionsNamed (r : Registry) (name : String) : List FunctionHandle :=
  match (r.names.find? name).bind r.overloadSets.find? with
  | some indexes => (indexes.filterMap r.functions.refAt?).map FunctionHandle.mk
  | none => []

def functionBySignature? (r : Registry) (signature : TypeHash) :
    Option (FunctionHandle × FunctionRow) := do
  let index ← r.bySignature.find? signature
  let ref ← r.functions.refAt? index
  let row ← r.functionRow? ⟨ref⟩
  return (⟨ref⟩, row)

def moduleInfo? (r : Registry) (m : ModuleId) : Option ModuleInfo := r.modules.find? m

def isInitialized (r : Registry) (m : ModuleId) : Bool :=
  (r.moduleInfo? m).any ModuleInfo.initialized

def intern (r : Registry) (text : String) (user : ModuleId) : Name × Registry :=
  let (name, names) := r.names.intern text user
  (name, { r with names })

/-- Changes the bookkeeping entry of a module, which begins empty. -/
def updateModule (r : Registry) (m : ModuleId) (change : ModuleInfo → ModuleInfo) : Registry :=
  { r with modules := r.modules.update m {} change }

def modifyModule (r : Registry) (m : ModuleId) (change : ModuleInfo → ModuleInfo) : Registry :=
  { r with modules := r.modules.modify m change }

def debugText (r : Registry) : String :=
  recordText "Registry"
    [("types", toString r.publishedRows.length), ("config", r.config.debugText)] true

end Registry

/-- An attribute whose key, and whose text if it has one, are entered among the names. -/
def Interner.internAttribute (names : Interner) (key : String) (value : AttributeValue)
    (user : ModuleId) : Attribute × Interner :=
  let (key, names) := names.intern key user
  match value with
  | .string text =>
    let (text, names) := names.intern text user
    (⟨key, .string text.text⟩, names)
  | value => (⟨key, value⟩, names)

end TypeCatalog
