import TypeCatalog.Call.Basic
import TypeCatalog.Call.Ancestry

/-! Finding what a call invokes: by name among overloads, or directly by handle. -/
namespace TypeCatalog.Registry

def notFound {α : Type} (entity name : String) : Except QueryError α :=
  .error (.notFound entity name)

def orStale {α : Type} : Option α → Except QueryError α
  | some a => .ok a
  | none => .error .staleHandle

/-- Chooses among overloads that are called `name` in messages. -/
def chooseOverload (name : String) (candidates : List (List TypeHash)) (args : List TypeHash) :
    Except QueryError Resolution :=
  match resolve candidates args with
  | .ok resolution => .ok resolution
  | .error diagnostics => .error (.noViableOverload name diagnostics)

/-- Resolves a method by name. The nearest type that declares the name decides the overloads. -/
def resolveMethod (r : Registry) (type : TypeHandle) (name : String) (args : List TypeHash) :
    Except QueryError ResolvedCall := do
  let start ← orStale (r.row? type)
  let qualified := start.name.text ++ "::" ++ name
  match r.names.find? name with
  | none => notFound "method" qualified
  | some id =>
    match r.nearest? (fun row => !(row.overloads id).isEmpty) type start with
    | none => notFound "method" qualified
    | some (route, row) =>
      let overloads := (row.overloads id).filterMap fun position =>
        (row.methods[position]?).map fun method => (position, method)
      let resolution ← chooseOverload qualified (overloads.map fun (_, m) => m.params) args
      let (position, method) ← orStale overloads[resolution.index]?
      return {
        target := .method (route.handle.member position)
        name := qualified
        params := method.params
        returnType := method.returnType
        bindings := resolution.bindings
        callable := method.callable
        upcasts := if method.flags.isStatic then [] else route.links
        path := route.path }

def constructorAt (r : Registry) (type : TypeHandle) (position : Nat)
    (bindings : List ArgBinding) : Except QueryError ResolvedCall := do
  let row ← orStale (r.row? type)
  let constructor ← orStale row.constructors[position]?
  return {
    target := .constructor (type.member position)
    name := row.name.text
    params := constructor.params
    returnType := row.typeHash
    bindings
    callable := constructor.callable
    upcasts := []
    path := [] }

/-- Resolves a constructor. Without arguments the first one without parameters is taken. -/
def resolveConstructor (r : Registry) (type : TypeHandle) (args : List TypeHash) :
    Except QueryError ResolvedCall := do
  let row ← orStale (r.row? type)
  if row.constructors.isEmpty then .error .notConstructible
  else
    match args, row.defaultConstructor? with
    | [], some position => r.constructorAt type position []
    | _, _ =>
      let candidates := row.constructors.map Constructor.params
      let resolution ← chooseOverload row.name.text candidates args
      r.constructorAt type resolution.index resolution.bindings

def functionCallOf (h : FunctionHandle) (row : FunctionRow) (bindings : List ArgBinding) :
    ResolvedCall :=
  { target := .function h
    name := row.name.text
    params := row.params
    returnType := row.returnType
    bindings
    callable := row.callable
    upcasts := []
    path := [] }

def resolveFunction (r : Registry) (name : String) (args : List TypeHash) :
    Except QueryError ResolvedCall := do
  let rows := (r.functionsNamed name).filterMap fun h => (r.functionRow? h).map fun row => (h, row)
  if rows.isEmpty then notFound "function" name
  else
    let resolution ← chooseOverload name (rows.map fun (_, row) => row.params) args
    let (handle, row) ← orStale rows[resolution.index]?
    return functionCallOf handle row resolution.bindings

def methodCall (r : Registry) (m : MemberHandle) : Except QueryError ResolvedCall := do
  let row ← orStale (r.row? m.owner)
  let method ← orStale row.methods[m.position]?
  return {
    target := .method m
    name := row.name.text ++ "::" ++ method.name.text
    params := method.params
    returnType := method.returnType
    bindings := []
    callable := method.callable
    upcasts := []
    path := [m.owner] }

def constructorCall (r : Registry) (m : MemberHandle) : Except QueryError ResolvedCall :=
  r.constructorAt m.owner m.position []

def functionCall (r : Registry) (h : FunctionHandle) : Except QueryError ResolvedCall := do
  let row ← orStale (r.functionRow? h)
  return functionCallOf h row []

end TypeCatalog.Registry
