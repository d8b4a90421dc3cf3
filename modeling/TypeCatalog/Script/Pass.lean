import TypeCatalog.Script.Step
import TypeCatalog.Registry.Types

/-!
One pass over the description of a type. Members are collected in a draft; names are entered
among the registry's names as they are declared, on behalf of the module that owns the row.
-/
namespace TypeCatalog.Script

structure Pass where
  registry : Nat
  type : TypeKey
  handle : TypeHandle
  owner : ModuleId

namespace Pass

def intern (p : Pass) (text : String) : Play Name :=
  Play.changeRegistry p.registry (·.intern text p.owner)

def note (p : Pass) (key : String) (value : AttributeValue) : Play Attribute :=
  Play.changeRegistry p.registry fun r =>
    let (entered, names) := r.names.internAttribute key value p.owner
    (entered, { r with names })

def notes (p : Pass) (notes : Notes) : Play (List Attribute) :=
  notes.mapM fun (key, value) => p.note key value

def setName (p : Pass) (d : Draft) (name : String) : Play Draft := do
  let name ← p.intern name
  return { d with name := some name }

def annotate (p : Pass) (d : Draft) (key : String) (value : AttributeValue) : Play Draft := do
  let added ← p.note key value
  return { d with attributes := d.attributes ++ [added] }

def addEnumValue (p : Pass) (d : Draft) (name : String) (value : Int64) : Play Draft := do
  let name ← p.intern name
  return { d with enumValues := d.enumValues ++ [⟨name, value⟩] }

def addField (u : Universe) (p : Pass) (d : Draft) (name : String) (target : TypeKey)
    (lens : Lens) (offset : Option UInt64) (notes : Notes) : Play Draft := do
  let name ← p.intern name
  let number ← Play.fresh
  let attributes ← p.notes notes
  let accessor : Accessor := ⟨number, p.type, target, lens⟩
  return { d with fields := d.fields ++ [⟨name, u.hash target, offset, accessor, attributes⟩] }

/-- Adds a property under a name that has been entered before its type was registered. -/
def addProperty (u : Universe) (p : Pass) (d : Draft) (name : Name) (target : TypeKey)
    (getter : Value → Value) (setter : Option (Value → Value → Value)) (notes : Notes) :
    Play Draft := do
  let attributes ← p.notes notes
  let computed : Computed := ⟨p.type, target, getter, setter⟩
  return { d with properties := d.properties ++ [⟨name, u.hash target, computed, attributes⟩] }

def addBase (u : Universe) (p : Pass) (d : Draft) (target : TypeKey) (lens : Lens) : Draft :=
  { d with bases := d.bases ++ [⟨u.hash target, p.type, target, lens⟩] }

def addMethod (u : Universe) (p : Pass) (d : Draft) (form : MethodForm) (name : String)
    (params : List TypeKey) (result : TypeKey) (body : Value → List Value → Effect)
    (notes : Notes) : Play Draft := do
  let hashes := params.map u.hash
  let signature := TypeHash.ofMethod (u.hash p.type) name hashes
  let name ← p.intern name
  let number ← Play.fresh
  let attributes ← p.notes notes
  let callable : Callable := ⟨number, form.access p.type, params, body⟩
  return { d with methods := d.methods ++
    [⟨name, hashes, u.hash result, form.flags, signature, callable, attributes⟩] }

def addConstructor (u : Universe) (p : Pass) (d : Draft) (params : List TypeKey)
    (make : List Value → Value) (notes : Notes) : Play Draft := do
  let hashes := params.map u.hash
  let signature := TypeHash.ofConstructor (u.hash p.type) hashes
  let number ← Play.fresh
  let attributes ← p.notes notes
  let callable : Callable := ⟨number, .none, params, fun object args => ⟨make args, object⟩⟩
  return { d with constructors := d.constructors ++ [⟨hashes, signature, callable, attributes⟩] }

end Pass

end TypeCatalog.Script
