import TypeCatalog.Numeric
import TypeCatalog.Error
import TypeCatalog.Member.Receiver

/-!
Access to the data inside an object: a part that can be viewed and updated in place serves as a
field or as an embedded base; a property computes its value and may accept a new one.
-/
namespace TypeCatalog

/-- A way to look at something inside an object and to put something else in its place. -/
structure Lens where
  view : Value → Value
  update : Value → Value → Value

def Lens.whole : Lens := ⟨fun object => object, fun _ part => part⟩

structure Part where
  owner : TypeKey
  target : TypeKey
  lens : Lens

namespace Part

def view? (p : Part) (object : Value) : Option Value :=
  if object.typeOf = p.owner then some (p.lens.view object) else none

/-- Puts a value in the place of the part, converting a number if need be. -/
def set (u : Universe) (p : Part) (object value : Value) : Except QueryError Value :=
  if object.typeOf = p.owner then
    match coerce u value p.target with
    | some part => .ok (p.lens.update object part)
    | none => .error (.typeMismatch (u.hash p.target) (value.typeHash u))
  else .error (.missingReceiver (u.rawName p.owner))

def descend? (p : Part) (r : Receiver) : Option Receiver :=
  match r with
  | .none => none
  | .shared object => (p.view? object).map .shared
  | .exclusive object => (p.view? object).map .exclusive

/-- The outer receiver after its part has become that of `inner`. -/
def restore (p : Part) (outer inner : Receiver) : Receiver :=
  match outer, inner.object? with
  | .exclusive object, some part => .exclusive (p.lens.update object part)
  | _, _ => outer

end Part

/-- A field's accessor; its number tells it from every other accessor and callable. -/
structure Accessor where
  number : Nat
  part : Part

/-- The computation behind a property of the type `owner`. -/
structure Computed where
  owner : TypeKey
  target : TypeKey
  getter : Value → Value
  setter : Option (Value → Value → Value)

namespace Computed

def get (u : Universe) (c : Computed) (object : Value) : Except QueryError Value :=
  if object.typeOf = c.owner then .ok (c.getter object)
  else .error (.missingReceiver (u.rawName c.owner))

/-- Stores a value through a setter, converting a number if need be. -/
def store (u : Universe) (c : Computed) (setter : Value → Value → Value) (object value : Value) :
    Except QueryError Value :=
  if object.typeOf = c.owner then
    match coerce u value c.target with
    | some datum => .ok (setter object datum)
    | none => .error (.typeMismatch (u.hash c.target) (value.typeHash u))
  else .error (.missingReceiver (u.rawName c.owner))

end Computed

/-- A link from a derived type to a base that is embedded in it. -/
structure BaseLink where
  base : TypeHash
  part : Part

end TypeCatalog
