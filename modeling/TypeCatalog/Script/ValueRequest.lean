import TypeCatalog.Script.Operand

/-! Steps on stored objects, on values by themselves and on types as such. -/
namespace TypeCatalog.Script

inductive ValueRequest where
  | value (value : Operand)
  | view (object : String)
  /-- Moves an object's value out and leaves it void. -/
  | take (object : String)
  | is (object : String) (type : TypeKey)
  | write (object : String) (datum : Value)
  | into (object : String) (type : TypeKey)
  | receiver (receiver : Lending)
  | receives (receiver : Lending) (type : TypeKey)
  | convert (value : Operand) (target : TypeKey)
  | numeric (value : Operand)
  | layout (type : TypeKey)

def convertTo (v : Value) : TypeKey → Option Value
  | .primitive kind => convertNumeric v kind
  | .user _ => none

namespace ValueRequest

def answer (u : Universe) : ValueRequest → Play Reply
  | value operand => return .value (← operand.value u)
  | view word => do
    let v ← Play.object word
    return .valueView ⟨v, v.isInline u, v.typeHash u, v.typeName u⟩
  | take word => do
    let v ← Play.object word
    Play.setObject word .void
    return .value v
  | is word type => do
    let v ← Play.object word
    return .flags (v.is type) (v.get? type).isSome
  | write word datum => do
    let v ← Play.object word
    let fits := v.is datum.typeOf
    if fits then Play.setObject word datum
    return .flag fits
  | into word type => do
    let v ← Play.object word
    match v.get? type with
    | some datum =>
      Play.dropObject word
      return .inner datum
    | none => return .back v
  | receiver lending => do
    let r ← lending.receiver
    return .receiver r.debugText r.isNone
  | receives lending type => do
    let r ← lending.receiver
    return .flags (r.read? type).isSome (r.change? type).isSome
  | convert operand target => do
    let v ← operand.value u
    if v.is target && !u.copyable target then throw .panic
    return .converted (convertTo v target) (coerce u v target)
  | numeric operand => return .numeric (Numeric.ofValue? (← operand.value u))
  | layout type => return .layout (u.size type) (u.align type) (u.rawName type) (u.hash type)

end ValueRequest

end TypeCatalog.Script
