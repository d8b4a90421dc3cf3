import TypeCatalog.Script.Session

/-! What steps name as values, arguments and receivers. -/
namespace TypeCatalog.Script

inductive Operand where
  | literal (value : Value)
  | copy (object : String)

/-- The receiver of a call: none, or a stored object that is lent to it. -/
inductive Lending where
  | nothing
  | shared (object : String)
  | exclusive (object : String)

namespace Operand

/-- The value of an operand. Copying an object of a type that cannot be copied panics. -/
def value (u : Universe) : Operand → Play Value
  | .literal value => pure value
  | .copy word => do
    match (← Play.object word).copy? u with
    | some value => return value
    | none => throw .panic

def values (u : Universe) (operands : List Operand) : Play (List Value) :=
  operands.mapM (value u)

end Operand

namespace Lending

def receiver : Lending → Play Receiver
  | .nothing => pure .none
  | .shared word => return .sharing (← Play.object word)
  | .exclusive word => return .lending (← Play.object word)

def settle (lending : Lending) (r : Receiver) : Play Unit :=
  match lending, r with
  | .exclusive word, .exclusive object => Play.setObject word object
  | _, _ => pure ()

def call (lending : Lending) (invoke : Receiver → CallOutcome) : Play Value := do
  let outcome := invoke (← lending.receiver)
  lending.settle outcome.receiver
  Play.query outcome.answer

end Lending

end TypeCatalog.Script
