import TypeCatalog.Script.Operand
import TypeCatalog.Registry.Members

/-! Steps that look at members and use data members on stored objects. -/
namespace TypeCatalog.Script

inductive Selector where
  | position (index : Nat)
  | named (name : String)
  | overload (name : String) (index : Nat)

inductive MemberRequest where
  | member (handle : String) (kind : MemberKind) (selector : Selector)
  | methodsNamed (handle name : String)
  | view (member : String)
  | attribute (member key : String)
  | get (member object : String)
  /-- The part of an object that a field or a base is, in its place. -/
  | lend (member object : String) (exclusive : Bool)
  | set (member object : String) (value : Operand)
  | getField (handle object name : String)

namespace MemberRequest

def select (r : Registry) (h : TypeHandle) (kind : MemberKind) : Selector → Option MemberHandle
  | .position index => (r.members kind h)[index]?
  | .named name =>
    match kind with
    | .field => r.fieldNamed? h name
    | .property => r.propertyNamed? h name
    | .method => (r.methodsNamed h name).head?
    | _ => none
  | .overload name index => (r.methodsNamed h name)[index]?

/-- What a data member of an object gives, if its kind is among those that can be used so. -/
def read (u : Universe) (readable : List MemberKind) (word object : String) :
    Play (Option Value) := do
  let ⟨n, kind, handle⟩ ← Play.member word
  let object ← Play.presentObject object
  let r ← Play.registry n
  let read : Option (Except QueryError Value) :=
    match kind with
    | .field => some (r.viewField handle object)
    | .property => some (r.getProperty u handle object)
    | .base => some (r.viewBase handle object)
    | _ => none
  match read with
  | some outcome => if kind ∈ readable then return some (← Play.query outcome) else return none
  | none => return none

/-- Gives a value to a field or a property of an object; other members take none. -/
def write (u : Universe) (word object : String) (value : Operand) : Play Reply := do
  let ⟨n, kind, handle⟩ ← Play.member word
  let value ← value.value u
  let before ← Play.presentObject object
  let r ← Play.registry n
  let written : Option (Except QueryError Value) :=
    match kind with
    | .field => some (r.setField u handle before value)
    | .property => some (r.setProperty u handle before value)
    | _ => none
  match written with
  | some outcome =>
    let changed ← Play.query outcome
    Play.setObject object changed
    return .shown changed
  | none => return .done

def answer (u : Universe) (n : Nat) : MemberRequest → Play Reply
  | member word kind selector => do
    let handle ← Play.typeHandle n word
    let r ← Play.registry handle.registry
    let member := select r handle.item kind selector
    return .member (member.map fun m => ⟨handle.registry, r.memberView kind m⟩)
  | methodsNamed word name => do
    let handle ← Play.typeHandle n word
    let r ← Play.registry handle.registry
    return .members ((r.methodsNamed handle.item name).map (r.memberView .method))
  | view word => do
    let ⟨n, kind, handle⟩ ← Play.member word
    let r ← Play.registry n
    return .ownedMember (r.memberView kind handle) handle.owner (r.typeName handle.owner)
  | .attribute word key => do
    let ⟨n, kind, handle⟩ ← Play.member word
    let r ← Play.registry n
    return .attribute (findAttribute? (r.memberView kind handle).detail.attributes key)
  | get word object => do
    return ((← read u [.field, .property, .base] word object).map Reply.value).getD .done
  | lend word object exclusive => do
    let readable := if exclusive then [.base] else [.field, .base]
    return ((← read u readable word object).map Reply.shown).getD .done
  | set word object value => write u word object value
  | getField word object name => do
    let handle ← Play.typeHandle n word
    let object ← Play.presentObject object
    let r ← Play.registry handle.registry
    return .value (← Play.query (r.getNamedField handle.item object name))

end MemberRequest

end TypeCatalog.Script
