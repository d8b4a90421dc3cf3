import TypeCatalog.Primitive

/-!
Values of any described type. A value is void, a datum of a built-in type, or an object of a user
type made of named members. The facts of the user types come from a universe, in which two types
may well have one name and so one hash.
-/
namespace TypeCatalog

/-- The identity of a value type: built in, or the user type of a key. -/
inductive TypeKey where
  | primitive (kind : PrimitiveKind)
  | user (key : String)
deriving DecidableEq, Inhabited

/-- A value. Floats are kept as their bits, integers as the bits of their kind. -/
inductive Value where
  | void
  | bool (value : Bool)
  | char (value : Char)
  | integer (kind : IntegerKind) (bits : BitVec kind.bits)
  | single (bits : UInt32)
  | double (bits : UInt64)
  | string (text : String)
  | variant (type name : String)
  | object (type : String) (members : List (String × Value))
deriving Inhabited

structure UserType where
  name : String
  size : UInt64
  align : UInt64
  copyable : Bool

structure Universe where
  userType : String → UserType

namespace Universe

def rawName (u : Universe) : TypeKey → String
  | .primitive kind => kind.name
  | .user key => (u.userType key).name

def size (u : Universe) : TypeKey → UInt64
  | .primitive kind => kind.size
  | .user key => (u.userType key).size

def align (u : Universe) : TypeKey → UInt64
  | .primitive kind => kind.align
  | .user key => (u.userType key).align

def copyable (u : Universe) : TypeKey → Bool
  | .primitive _ => true
  | .user key => (u.userType key).copyable

/-- The hash of a type: that of its canonical name. -/
def hash (u : Universe) : TypeKey → TypeHash
  | .primitive kind => kind.typeHash
  | .user key => TypeHash.ofName (canonicalName (u.userType key).name)

/-- Whether values of a type fit into a value's own buffer of 24 bytes at alignment 16. -/
def fitsInline (u : Universe) (type : TypeKey) : Bool :=
  u.size type ≤ 24 && u.align type ≤ 16

end Universe

namespace Value

def typeOf : Value → TypeKey
  | .void => .primitive .void
  | .bool _ => .primitive .bool
  | .char _ => .primitive .char
  | .integer kind _ => .primitive (.integer kind)
  | .single _ => .primitive (.float .single)
  | .double _ => .primitive (.float .double)
  | .string _ => .primitive .string
  | .variant type _ => .user type
  | .object type _ => .user type

def isVoid : Value → Bool
  | .void => true
  | _ => false

/-- Whether a value holds a datum of this type; the void value holds none. -/
def is (v : Value) (type : TypeKey) : Bool := !v.isVoid && v.typeOf = type

def get? (v : Value) (type : TypeKey) : Option Value := if v.is type then some v else none

def typeHash (u : Universe) (v : Value) : TypeHash := u.hash v.typeOf

def typeName (u : Universe) (v : Value) : String := u.rawName v.typeOf

def isInline (u : Universe) (v : Value) : Bool := !v.isVoid && u.fitsInline v.typeOf

def copy? (u : Universe) (v : Value) : Option Value :=
  if u.copyable v.typeOf then some v else none

def member? (v : Value) (name : String) : Option Value :=
  match v with
  | .object _ members => (members.find? (·.1 = name)).map (·.2)
  | _ => none

def withMember (v : Value) (name : String) (part : Value) : Value :=
  match v with
  | .object type members =>
    if members.any (·.1 = name) then
      .object type (members.map fun (n, old) => if n = name then (n, part) else (n, old))
    else .object type (members ++ [(name, part)])
  | v => v

def ofInt (kind : IntegerKind) (n : Int) : Value := .integer kind (BitVec.ofInt kind.bits n)

end Value

end TypeCatalog
