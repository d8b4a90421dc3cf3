import TypeCatalog.Registry.Basic

/-!
Changes to the rows of types. Every change keeps the tables of hashes and names and the modules'
counts in step with the slots. A name that several rows carry leads to the one that held it
first; when that one goes, to the lowest slot of the others.
-/
namespace TypeCatalog.Registry

def addTypeTo (r : Registry) (m : ModuleId) : Registry :=
  r.updateModule m fun info => { info with types := info.types + 1 }

def dropTypeFrom (r : Registry) (m : ModuleId) : Registry :=
  r.modifyModule m fun info => { info with types := info.types - 1 }

/-- Lets a name lead to a slot unless it leads to one already. -/
def indexName (r : Registry) (name : NameId) (index : Nat) : Registry :=
  match r.byName.find? name with
  | some _ => r
  | none => { r with byName := r.byName.insert name index }

/-- The lowest slot other than `index` whose row carries a name. -/
def nextCarrier? (r : Registry) (name : NameId) (index : Nat) : Option Nat :=
  (r.types.positions (·.name.id = name)).find? (· ≠ index)

/-- Takes a name away from a slot and hands it on to the next row that carries it. -/
def unindexName (r : Registry) (name : NameId) (index : Nat) : Registry :=
  if r.byName.find? name = some index then
    match r.nextCarrier? name index with
    | some other => { r with byName := r.byName.insert name other }
    | none => { r with byName := r.byName.erase name }
  else r

def insertRow (r : Registry) (row : Row) : TypeHandle × Registry :=
  let (ref, types) := r.types.insert row
  let r := { r with types, byHash := r.byHash.insert row.typeHash ref.index }
  let r := r.indexName row.name.id ref.index
  (⟨ref⟩, if row.published then r.addTypeTo row.owner else r)

/-- Puts a published row in the place of the one in a slot. -/
def replaceRow (r : Registry) (index : Nat) (row : Row) : Registry :=
  match r.types.rowAt? index with
  | none => r
  | some old =>
    let r := { r with types := r.types.replace index row }
    let r := if old.name.id = row.name.id then r
      else (r.unindexName old.name.id index).indexName row.name.id index
    if old.owner = row.owner then r else (r.dropTypeFrom old.owner).addTypeTo row.owner

def removeRow (r : Registry) (index : Nat) : Registry :=
  match r.types.rowAt? index with
  | none => r
  | some row =>
    let r := { r with types := r.types.remove index }
    let r := if r.byHash.find? row.typeHash = some index then
        { r with byHash := r.byHash.erase row.typeHash }
      else r
    let r := r.unindexName row.name.id index
    if row.published then r.dropTypeFrom row.owner else r

/-- Folds a finished draft into its row and publishes it. -/
def commit (r : Registry) (h : TypeHandle) (draft : Draft) : Registry :=
  match r.anyRow? h with
  | none => r
  | some old =>
    let row := old.publish draft
    let index := h.slot.index
    let r := { r with types := r.types.modify index fun _ => row }
    let r := if old.name.id = row.name.id then r
      else (r.unindexName old.name.id index).indexName row.name.id index
    if old.published then r else r.addTypeTo row.owner

def discardPending (r : Registry) (h : TypeHandle) : Registry :=
  match r.anyRow? h with
  | some row => if row.published then r else r.removeRow h.slot.index
  | none => r

def insertSkeleton (r : Registry) (u : Universe) (type : TypeKey) (owner : ModuleId) :
    TypeHandle × Registry :=
  let hash := u.hash type
  let (name, r) := r.intern (canonicalName (u.rawName type)) owner
  r.insertRow
    { name, typeHash := hash, owner, size := u.size type, align := u.align type
      flags := { isPrimitive := (PrimitiveKind.ofHash? hash).isSome } }

end TypeCatalog.Registry
