import TypeCatalog.Script.Operand
import TypeCatalog.Call.Lookup
import TypeCatalog.Registry.View

/-! Steps that resolve calls and make them. -/
namespace TypeCatalog.Script

inductive CallRequest where
  | construct (handle : String) (args : List Operand)
  | invoke (handle name : String) (receiver : Lending) (args : List Operand)
  | invokeFunction (name : String) (args : List Operand)
  | resolveMethod (handle name : String) (types : List TypeHash)
  | resolveConstructor (handle : String) (types : List TypeHash)
  | resolveFunction (name : String) (types : List TypeHash)
  | ofMember (member : String)
  | ofFunction (function : String)
  | view (call : String)
  | call (call : String) (receiver : Lending) (args : List Operand)
  | invokeMember (member : String) (receiver : Lending) (args : List Operand)
  | invokeHandle (function : String) (args : List Operand)
  /-- Calls the callable of a method or a constructor itself, without looking for overloads. -/
  | raw (handle : String) (kind : MemberKind) (position : Nat) (mode : ArgMode)
      (receiver : Lending) (args : List Operand)

namespace CallRequest

def shown (n : Nat) (call : ResolvedCall) : Play Reply :=
  return .call ⟨n, call⟩ (call.isAlive (← Play.registry n))

def perform (u : Universe) (n : Nat) (receiver : Lending) (args : List Value)
    (resolve : Registry → Except QueryError ResolvedCall) : Play Value := do
  let r ← Play.registry n
  let invoke (lent : Receiver) : CallOutcome :=
    match resolve r with
    | .ok resolved => resolved.invoke r u lent args
    | .error cause => .failed cause lent
  receiver.call invoke

def invokeNamed (u : Universe) (n : Nat) (name : String) (args : List Operand) : Play Value := do
  let args ← Operand.values u args
  perform u n .nothing args (·.resolveFunction name (args.map (Value.typeHash u)))

def memberCall? (r : Registry) (kind : MemberKind) (m : MemberHandle) :
    Option (Except QueryError ResolvedCall) :=
  match kind with
  | .constructor => some (r.constructorCall m)
  | .method => some (r.methodCall m)
  | _ => none

def rawCallable? (row : Row) (kind : MemberKind) (position : Nat) : Option Callable :=
  match kind with
  | .constructor => row.constructors[position]?.map Constructor.callable
  | _ => row.methods[position]?.map Method.callable

def kindWord : MemberKind → String
  | .constructor => "ctor"
  | _ => "method"

def answer (u : Universe) (n : Nat) : CallRequest → Play Reply
  | construct word args => do
    let handle ← Play.typeHandle n word
    let args ← Operand.values u args
    return .value (← perform u handle.registry .nothing args
      (·.resolveConstructor handle.item (args.map (Value.typeHash u))))
  | invoke word name receiver args => do
    let handle ← Play.typeHandle n word
    let args ← Operand.values u args
    return .value (← perform u handle.registry receiver args
      (·.resolveMethod handle.item name (args.map (Value.typeHash u))))
  | invokeFunction name args => return .value (← invokeNamed u n name args)
  | resolveMethod word name types => do
    let handle ← Play.typeHandle n word
    let r ← Play.registry handle.registry
    shown handle.registry (← Play.query (r.resolveMethod handle.item name types))
  | resolveConstructor word types => do
    let handle ← Play.typeHandle n word
    let r ← Play.registry handle.registry
    shown handle.registry (← Play.query (r.resolveConstructor handle.item types))
  | resolveFunction name types => do
    shown n (← Play.query ((← Play.registry n).resolveFunction name types))
  | ofMember word => do
    let ⟨n, kind, handle⟩ ← Play.member word
    match memberCall? (← Play.registry n) kind handle with
    | some found => shown n (← Play.query found)
    | none => return .done
  | ofFunction word => do
    let function ← Play.function word
    let r ← Play.registry function.registry
    shown function.registry (← Play.query (r.functionCall function.item))
  | view word => do
    let stored ← Play.call word
    shown stored.registry stored.item
  | call word receiver args => do
    let stored ← Play.call word
    let args ← Operand.values u args
    return .value (← perform u stored.registry receiver args fun _ => .ok stored.item)
  | invokeMember word receiver args => do
    let ⟨n, kind, handle⟩ ← Play.member word
    let args ← Operand.values u args
    match memberCall? (← Play.registry n) kind handle with
    | some found =>
      let receiver := if kind = .constructor then .nothing else receiver
      return .value (← perform u n receiver args fun _ => found)
    | none => return .done
  | invokeHandle word args => do
    let function ← Play.function word
    let args ← Operand.values u args
    return .value (← perform u function.registry .nothing args (·.functionCall function.item))
  | raw word kind position mode receiver args => do
    let handle ← Play.typeHandle n word
    let r ← Play.registry handle.registry
    let row ← Play.orMissing .row word (r.row? handle.item)
    let callable ← Play.orMissing .position (kindWord kind) (rawCallable? row kind position)
    let args ← Operand.values u args
    let result ← receiver.call fun lent => callable.invoke u mode lent args
    return .rawCall callable.arity result

end CallRequest

end TypeCatalog.Script
