import TypeCatalog.Interner

/-! Scripts on a table of names alone. -/
namespace TypeCatalog.Script

inductive NameStep where
  | intern (text : String) (user : ModuleId)
  | find (text : String)
  | lookup (text : String)
  /-- The text of the id that the step of this number among the entering steps answered. -/
  | textOf (nth : Nat)
  | evict (owner : ModuleId)
  | size

inductive NameReply where
  | entered (name : Name)
  | id (found : Option NameId)
  | name (found : Option Name)
  | text (found : Option String)
  | evicted (count : Nat)
  | size (count : Nat)

/-- A table of names with the ids that its steps have answered. -/
structure NameTable where
  names : Interner := .empty
  entered : List NameId := []

namespace NameTable

def step (t : NameTable) : NameStep → NameReply × NameTable
  | .intern text user =>
    let (name, names) := t.names.intern text user
    (.entered name, { names, entered := t.entered ++ [name.id] })
  | .find text => (.id (t.names.find? text), t)
  | .lookup text => (.name (t.names.lookup? text), t)
  | .textOf nth => (.text ((t.entered[nth]?.bind t.names.name?).map Name.text), t)
  | .evict owner =>
    let (count, names) := t.names.evict owner
    (.evicted count, { t with names })
  | .size => (.size t.names.size, t)

def run (t : NameTable) : List NameStep → List NameReply
  | [] => []
  | first :: rest =>
    let (reply, t) := t.step first
    reply :: run t rest

end NameTable

end TypeCatalog.Script
