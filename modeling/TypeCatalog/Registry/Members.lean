import TypeCatalog.Registry.View
import TypeCatalog.Call.Lookup

/-!
Using the data members of objects through handles: fields are read, viewed and written in place,
properties are computed, bases are viewed or copied out. A handle whose member is gone fails
before the object is looked at.
-/
namespace TypeCatalog.Registry

def partOf (p : Part) (object : Value) (name : String) : Except QueryError Value :=
  match p.view? object with
  | some part => .ok part
  | none => .error (.missingReceiver name)

def viewField (r : Registry) (m : MemberHandle) (object : Value) : Except QueryError Value := do
  let field ← orStale (r.field? m)
  partOf field.accessor.part object (r.typeName m.owner ++ "::" ++ field.name.text)

def setField (r : Registry) (u : Universe) (m : MemberHandle) (object value : Value) :
    Except QueryError Value := do
  let field ← orStale (r.field? m)
  field.accessor.part.set u object value

def getProperty (r : Registry) (u : Universe) (m : MemberHandle) (object : Value) :
    Except QueryError Value := do
  let property ← orStale (r.property? m)
  property.computed.get u object

def setProperty (r : Registry) (u : Universe) (m : MemberHandle) (object value : Value) :
    Except QueryError Value := do
  let property ← orStale (r.property? m)
  match property.computed.setter with
  | none => .error (.readOnlyProperty property.name.text)
  | some setter => property.computed.store u setter object value

def viewBase (r : Registry) (m : MemberHandle) (object : Value) : Except QueryError Value := do
  let base ← orStale (r.base? m)
  partOf base.part object (r.typeName m.owner)

def getNamedField (r : Registry) (h : TypeHandle) (object : Value) (name : String) :
    Except QueryError Value :=
  match r.fieldNamed? h name with
  | some m => r.viewField m object
  | none => notFound "field" name

end TypeCatalog.Registry
