import TypeCatalog.TypeHash

/-!
The built-in types and their numeric classes. An integer type is a signedness and a width, the
width of the machine word being one of its own.
-/
namespace TypeCatalog

/-- The width of an integer type. The machine word has 64 bits. -/
inductive Width where
  | w8 | w16 | w32 | w64 | word
deriving DecidableEq, Inhabited

def Width.bytes : Width → Nat
  | .w8 => 1
  | .w16 => 2
  | .w32 => 4
  | .w64 => 8
  | .word => 8

def Width.name : Width → String
  | .w8 => "8"
  | .w16 => "16"
  | .w32 => "32"
  | .w64 => "64"
  | .word => "size"

structure IntegerKind where
  signed : Bool
  width : Width
deriving DecidableEq, Inhabited

def IntegerKind.bits (kind : IntegerKind) : Nat := 8 * kind.width.bytes

def IntegerKind.toInt (kind : IntegerKind) (bits : BitVec kind.bits) : Int :=
  if kind.signed then bits.toInt else bits.toNat

def IntegerKind.least (kind : IntegerKind) : Int :=
  if kind.signed then (BitVec.intMin kind.bits).toInt else 0

def IntegerKind.greatest (kind : IntegerKind) : Int :=
  if kind.signed then (BitVec.intMax kind.bits).toInt else (BitVec.allOnes kind.bits).toNat

inductive FloatKind where
  | single | double
deriving DecidableEq, Inhabited

inductive PrimitiveKind where
  | void
  | bool
  | char
  | integer (kind : IntegerKind)
  | float (kind : FloatKind)
  | string
deriving DecidableEq, Inhabited

inductive NumericClass where
  | signed | unsigned | float
deriving DecidableEq

def NumericClass.isInteger : NumericClass → Bool
  | .signed | .unsigned => true
  | .float => false

def NumericClass.name : NumericClass → String
  | .signed => "Signed"
  | .unsigned => "Unsigned"
  | .float => "Float"

namespace PrimitiveKind

def all : List PrimitiveKind :=
  let widths := [Width.w8, .w16, .w32, .w64, .word]
  [.void, .bool, .char]
    ++ widths.map (fun width => .integer ⟨true, width⟩)
    ++ widths.map (fun width => .integer ⟨false, width⟩)
    ++ [.float .single, .float .double, .string]

theorem mem_all (kind : PrimitiveKind) : kind ∈ all := by
  rcases kind with _ | _ | _ | ⟨signed, width⟩ | kind | _
  case integer => cases signed <;> cases width <;> decide
  case float => cases kind <;> decide
  all_goals decide

def name : PrimitiveKind → String
  | .void => "void"
  | .bool => "bool"
  | .char => "char"
  | .integer kind => (if kind.signed then "i" else "u") ++ kind.width.name
  | .float .single => "f32"
  | .float .double => "f64"
  | .string => "String"

/-- The name as its type's own constructor is called: with a capital. -/
def title (kind : PrimitiveKind) : String := kind.name.capitalize

def typeHash (kind : PrimitiveKind) : TypeHash := TypeHash.ofName kind.name

def hashes : List (TypeHash × PrimitiveKind) := all.map fun kind => (kind.typeHash, kind)

def ofHash? (hash : TypeHash) : Option PrimitiveKind :=
  (hashes.find? (·.1 = hash)).map (·.2)

/-- Truth values, characters and text are not numeric: they match only themselves. -/
def numericClass? : PrimitiveKind → Option NumericClass
  | .integer kind => some (if kind.signed then .signed else .unsigned)
  | .float _ => some .float
  | .void | .bool | .char | .string => none

def isNumeric (kind : PrimitiveKind) : Bool := kind.numericClass?.isSome

/-- The width in bytes of a numeric type, zero for the others. -/
def rank : PrimitiveKind → Nat
  | .integer kind => kind.width.bytes
  | .float .single => 4
  | .float .double => 8
  | .void | .bool | .char | .string => 0

def size : PrimitiveKind → UInt64
  | .void => 0
  | .bool => 1
  | .char => 4
  | .integer kind => UInt64.ofNat kind.width.bytes
  | .float .single => 4
  | .float .double => 8
  | .string => 24

def align : PrimitiveKind → UInt64
  | .void | .bool => 1
  | .string => 8
  | kind => kind.size

end PrimitiveKind

end TypeCatalog
