import TypeCatalog.Value

/-!
Numeric conversion. A numeric datum is widened to 64 bits and then cast to the target: integers
keep their low bits, floats that become integers are cut toward zero and kept within the range,
and a float that is no number becomes zero. Nothing else converts except to itself.
-/
namespace TypeCatalog

/-- A numeric datum at 64 bits; a float as its bits. -/
inductive Numeric where
  | signed (value : Int64)
  | unsigned (value : UInt64)
  | float (bits : UInt64)
deriving DecidableEq

namespace Numeric

def ofValue? : Value → Option Numeric
  | .integer kind bits =>
    let n := kind.toInt bits
    some (if kind.signed then .signed (Int64.ofInt n) else .unsigned (UInt64.ofInt n))
  | .single bits => some (.float (Float32.ofBits bits).toFloat.toBits)
  | .double bits => some (.float bits)
  | _ => none

def numericClass : Numeric → NumericClass
  | .signed _ => .signed
  | .unsigned _ => .unsigned
  | .float _ => .float

def toValue : Numeric → Value
  | .signed value => .ofInt ⟨true, .w64⟩ value.toInt
  | .unsigned value => .ofInt ⟨false, .w64⟩ value.toNat
  | .float bits => .double bits

/-- The whole part of a float, kept within the range of an integer kind. -/
def truncate (kind : IntegerKind) (f : Float) : Int :=
  let whole : Int := if kind.signed then f.toInt64.toInt else f.toUInt64.toNat
  max kind.least (min kind.greatest whole)

def toInteger (kind : IntegerKind) : Numeric → Value
  | .signed value => .ofInt kind value.toInt
  | .unsigned value => .ofInt kind value.toNat
  | .float bits => .ofInt kind (truncate kind (Float.ofBits bits))

def toFloat : FloatKind → Numeric → Value
  | .single, .signed value => .single value.toFloat32.toBits
  | .single, .unsigned value => .single value.toFloat32.toBits
  | .single, .float bits => .single (Float.ofBits bits).toFloat32.toBits
  | .double, .signed value => .double value.toFloat.toBits
  | .double, .unsigned value => .double value.toFloat.toBits
  | .double, .float bits => .double bits

end Numeric

def convertNumeric (v : Value) (target : PrimitiveKind) : Option Value :=
  match target with
  | .integer kind => (Numeric.ofValue? v).map (Numeric.toInteger kind)
  | .float kind => (Numeric.ofValue? v).map (Numeric.toFloat kind)
  | .void | .bool | .char | .string => none

/-- A datum of the type `target`: the value's own if it has the type, else a conversion of it. -/
def coerce (u : Universe) (v : Value) (target : TypeKey) : Option Value :=
  match v.get? target with
  | some datum => some datum
  | none => do (← convertNumeric v (← PrimitiveKind.ofHash? (u.hash target))).get? target

end TypeCatalog
