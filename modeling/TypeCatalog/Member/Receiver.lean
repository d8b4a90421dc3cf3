import TypeCatalog.Value

/-! The object that an instance member is used on. -/
namespace TypeCatalog

/-- No object, one that may be read, or one that may also be changed. -/
inductive Receiver where
  | none
  | shared (object : Value)
  | exclusive (object : Value)
deriving Inhabited

namespace Receiver

/-- Lends a value for reading; the void value lends nothing. -/
def sharing (v : Value) : Receiver := if v.isVoid then .none else .shared v

/-- Lends a value for changing; the void value lends nothing. -/
def lending (v : Value) : Receiver := if v.isVoid then .none else .exclusive v

def object? : Receiver → Option Value
  | .none => Option.none
  | .shared object | .exclusive object => some object

def isNone : Receiver → Bool
  | .none => true
  | _ => false

/-- The object for reading, if it has this type. -/
def read? (r : Receiver) (type : TypeKey) : Option Value :=
  r.object?.filter (·.typeOf = type)

/-- The object for changing, if it has this type and may be changed. -/
def change? (r : Receiver) (type : TypeKey) : Option Value :=
  match r with
  | .exclusive object => if object.typeOf = type then some object else Option.none
  | _ => Option.none

def withObject (r : Receiver) (object : Value) : Receiver :=
  match r with
  | .none => .none
  | .shared _ => .shared object
  | .exclusive _ => .exclusive object

def debugText : Receiver → String
  | .none => "Receiver::None"
  | .shared _ => "Receiver::Shared(..)"
  | .exclusive _ => "Receiver::Exclusive(..)"

end Receiver

end TypeCatalog
