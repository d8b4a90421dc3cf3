import TypeCatalog.TypeHash
import TypeCatalog.Text.Quoted
import TypeCatalog.Decimal.Shortest

/-! Values of attributes: a closed set, so that they can be compared and written into an image. -/
namespace TypeCatalog

inductive AttributeKind where
  | bool | int | double | string | type
deriving DecidableEq, Inhabited

namespace AttributeKind

def tag : AttributeKind → UInt8
  | .bool => 0
  | .int => 1
  | .double => 2
  | .string => 3
  | .type => 4

def ofTag? : UInt8 → Option AttributeKind
  | 0 => some .bool
  | 1 => some .int
  | 2 => some .double
  | 3 => some .string
  | 4 => some .type
  | _ => none

theorem ofTag?_tag (kind : AttributeKind) : ofTag? kind.tag = some kind := by
  cases kind <;> rfl

def name : AttributeKind → String
  | .bool => "Bool"
  | .int => "Int"
  | .double => "Double"
  | .string => "String"
  | .type => "Type"

def ofTag (tag : UInt8) : Except String AttributeKind :=
  match ofTag? tag with
  | some kind => .ok kind
  | none => .error s!"No discriminant in enum `AttributeKind` matches the value `{tag.toNat}`"

end AttributeKind

/-- The value of an attribute. A double is kept as its bits. -/
inductive AttributeValue where
  | bool (value : Bool)
  | int (value : Int64)
  | double (bits : UInt64)
  | string (text : String)
  | type (hash : TypeHash)
deriving DecidableEq, Inhabited

namespace AttributeValue

def kind : AttributeValue → AttributeKind
  | .bool _ => .bool
  | .int _ => .int
  | .double _ => .double
  | .string _ => .string
  | .type _ => .type

def text : AttributeValue → String
  | .bool value => if value then "true" else "false"
  | .int value => toString value.toInt
  | .double bits => Decimal.doubleText bits
  | .string text => Text.quote text
  | .type hash => "type " ++ hash.text

/-- Whether bits are those of no number. -/
def isNaN (bits : UInt64) : Bool :=
  (bits &&& 0x7ff0000000000000) == 0x7ff0000000000000 && (bits &&& 0xfffffffffffff) != 0

/-- Equality of doubles as keys: zeros are equal, and so are all bits of no number. -/
def sameDouble (a b : UInt64) : Bool :=
  a == b || isNaN a && isNaN b || a <<< 1 == 0 && b <<< 1 == 0

/-- Equality of attribute values, which compares doubles by value. -/
def same : AttributeValue → AttributeValue → Bool
  | .double a, .double b => sameDouble a b
  | a, b => a = b

end AttributeValue

end TypeCatalog
