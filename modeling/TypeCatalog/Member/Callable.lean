import TypeCatalog.Numeric
import TypeCatalog.Error
import TypeCatalog.Member.Receiver

/-!
Callables behind one uniform way to call them. A call checks the number of arguments, then the
receiver, then takes the arguments from left to right; the first problem is reported and the
callable does not run.
-/
namespace TypeCatalog

inductive Access where
  | none
  | shared (owner : TypeKey)
  | exclusive (owner : TypeKey)
deriving DecidableEq

/-- How arguments are taken: as they are, or converted where they do not fit. -/
inductive ArgMode where
  | exact
  | convert
deriving DecidableEq

/-- What running a callable yields: its result, and the object as it is afterwards. -/
structure Effect where
  result : Value
  object : Value

/-- A callable. Its number tells it from every other callable and accessor. -/
structure Callable where
  number : Nat
  access : Access
  params : List TypeKey
  /-- Runs on the object, which is void where none is needed, and the arguments. -/
  body : Value → List Value → Effect

/-- One run of a callable, with the object and the arguments it was given. -/
structure Activation where
  callable : Nat
  object : Value
  arguments : List Value

/-- What a call leaves: the answer, the receiver, and the runs that took place. -/
structure CallOutcome where
  answer : Except QueryError Value
  receiver : Receiver
  activations : List Activation

/-- A call that failed before anything ran. -/
def CallOutcome.failed (e : QueryError) (r : Receiver) : CallOutcome := ⟨.error e, r, []⟩

namespace Callable

def arity (c : Callable) : Nat := c.params.length

def takeReceiver (u : Universe) (c : Callable) (r : Receiver) : Except QueryError Value :=
  match c.access with
  | .none => .ok .void
  | .shared owner =>
    match r.read? owner with
    | some object => .ok object
    | none => .error (.missingReceiver (u.rawName owner))
  | .exclusive owner =>
    match r.change? owner with
    | some object => .ok object
    | none => .error (.missingReceiver (u.rawName owner))

def takeArgument (u : Universe) (mode : ArgMode) (position : Nat) (param : TypeKey) (arg : Value) :
    Except QueryError Value :=
  match arg.get? param, mode with
  | some datum, _ => .ok datum
  | none, .exact => .error (.typeMismatch (u.hash param) (arg.typeHash u))
  | none, .convert =>
    match coerce u arg param with
    | some datum => .ok datum
    | none => .error (.argumentConversion position)

/-- Takes the arguments from left to right, the first of them at `position`. -/
def takeArguments (u : Universe) (mode : ArgMode) :
    (position : Nat) → List TypeKey → List Value → Except QueryError (List Value)
  | position, param :: params, arg :: args => do
    let datum ← takeArgument u mode position param arg
    let rest ← takeArguments u mode (position + 1) params args
    return datum :: rest
  | _, _, _ => .ok []

/-- All that a call checks: the object and the arguments that the body will be given. -/
def enter (u : Universe) (c : Callable) (mode : ArgMode) (r : Receiver) (args : List Value) :
    Except QueryError (Value × List Value) :=
  if args.length = c.arity then do
    let object ← c.takeReceiver u r
    let taken ← takeArguments u mode 0 c.params args
    return (object, taken)
  else .error (.arityMismatch c.arity args.length)

def leave (c : Callable) (r : Receiver) (object : Value) : Receiver :=
  match c.access with
  | .exclusive _ => r.withObject object
  | _ => r

def invoke (u : Universe) (c : Callable) (mode : ArgMode) (r : Receiver) (args : List Value) :
    CallOutcome :=
  match c.enter u mode r args with
  | .error e => .failed e r
  | .ok (object, taken) =>
    let effect := c.body object taken
    ⟨.ok effect.result, c.leave r effect.object, [⟨c.number, object, taken⟩]⟩

end Callable

end TypeCatalog
