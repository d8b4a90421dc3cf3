import TypeCatalog.Registry.Basic

/-!
What a handle shows of its row. A handle whose row is gone shows empty names, hashes and lists
instead of failing.
-/
namespace TypeCatalog

inductive MemberKind where
  | field
  | property
  | method
  | constructor
  | base
  | enumValue
deriving DecidableEq, Inhabited

structure FieldView where
  name : String := ""
  type : TypeHash := .empty
  offset : Option UInt64 := none
  attributes : List Attribute := []

structure PropertyView where
  name : String := ""
  type : TypeHash := .empty
  isReadOnly : Bool := true
  attributes : List Attribute := []

structure MethodView where
  name : String := ""
  params : List TypeHash := []
  returnType : TypeHash := .empty
  signature : TypeHash := .empty
  flags : MethodFlags := {}
  attributes : List Attribute := []

structure ConstructorView where
  params : List TypeHash := []
  signature : TypeHash := .empty
  attributes : List Attribute := []

/-- A base shows the hash that it links to and the type published under it. -/
structure BaseView where
  type : TypeHash := .empty
  target : Option TypeHandle := none

structure EnumValueView where
  name : String := ""
  value : Int64 := 0

inductive MemberDetail where
  | field (view : FieldView)
  | property (view : PropertyView)
  | method (view : MethodView)
  | constructor (view : ConstructorView)
  | base (view : BaseView)
  | enumValue (view : EnumValueView)

/-- What a member's handle shows, and whether the member is still there. -/
structure MemberView where
  handle : MemberHandle
  isValid : Bool
  detail : MemberDetail

structure FunctionView where
  handle : FunctionHandle
  isValid : Bool
  name : String := ""
  owner : ModuleId := .host
  params : List TypeHash := []
  returnType : TypeHash := .empty
  signature : TypeHash := .empty

structure TypeView where
  handle : TypeHandle
  isValid : Bool
  name : String := ""
  typeHash : TypeHash := .empty
  owner : ModuleId := .host
  generation : UInt32 := 0
  size : UInt64 := 0
  align : UInt64 := 0
  flags : Option TypeFlags := none
  attributes : List Attribute := []
  fields : List MemberView := []
  properties : List MemberView := []
  methods : List MemberView := []
  constructors : List MemberView := []
  bases : List MemberView := []
  enumValues : List MemberView := []

namespace Registry

def field? (r : Registry) (m : MemberHandle) : Option Field :=
  (r.row? m.owner).bind (·.fields[m.position]?)

def property? (r : Registry) (m : MemberHandle) : Option Property :=
  (r.row? m.owner).bind (·.properties[m.position]?)

def method? (r : Registry) (m : MemberHandle) : Option Method :=
  (r.row? m.owner).bind (·.methods[m.position]?)

def constructor? (r : Registry) (m : MemberHandle) : Option Constructor :=
  (r.row? m.owner).bind (·.constructors[m.position]?)

def base? (r : Registry) (m : MemberHandle) : Option BaseLink :=
  (r.row? m.owner).bind (·.bases[m.position]?)

def enumValue? (r : Registry) (m : MemberHandle) : Option EnumValue :=
  (r.row? m.owner).bind (·.enumValues[m.position]?)

def typeName (r : Registry) (h : TypeHandle) : String :=
  ((r.row? h).map (·.name.text)).getD ""

def typeHash (r : Registry) (h : TypeHandle) : TypeHash :=
  ((r.row? h).map Row.typeHash).getD .empty

def fieldView (r : Registry) (m : MemberHandle) : FieldView :=
  match r.field? m with
  | some f => ⟨f.name.text, f.type, f.offset, f.attributes⟩
  | none => {}

def propertyView (r : Registry) (m : MemberHandle) : PropertyView :=
  match r.property? m with
  | some p => ⟨p.name.text, p.type, p.isReadOnly, p.attributes⟩
  | none => {}

def methodView (r : Registry) (m : MemberHandle) : MethodView :=
  match r.method? m with
  | some d => ⟨d.name.text, d.params, d.returnType, d.signature, d.flags, d.attributes⟩
  | none => {}

def constructorView (r : Registry) (m : MemberHandle) : ConstructorView :=
  match r.constructor? m with
  | some c => ⟨c.params, c.signature, c.attributes⟩
  | none => {}

def baseView (r : Registry) (m : MemberHandle) : BaseView :=
  match r.base? m with
  | some b => ⟨b.base, r.typeByHash? b.base⟩
  | none => {}

def enumValueView (r : Registry) (m : MemberHandle) : EnumValueView :=
  match r.enumValue? m with
  | some e => ⟨e.name.text, e.value⟩
  | none => {}

def memberView (r : Registry) (kind : MemberKind) (m : MemberHandle) : MemberView :=
  match kind with
  | .field => ⟨m, (r.field? m).isSome, .field (r.fieldView m)⟩
  | .property => ⟨m, (r.property? m).isSome, .property (r.propertyView m)⟩
  | .method => ⟨m, (r.method? m).isSome, .method (r.methodView m)⟩
  | .constructor => ⟨m, (r.constructor? m).isSome, .constructor (r.constructorView m)⟩
  | .base => ⟨m, (r.base? m).isSome, .base (r.baseView m)⟩
  | .enumValue => ⟨m, (r.enumValue? m).isSome, .enumValue (r.enumValueView m)⟩

def memberCount (r : Registry) (kind : MemberKind) (h : TypeHandle) : Nat :=
  match r.row? h with
  | none => 0
  | some row =>
    match kind with
    | .field => row.fields.length
    | .property => row.properties.length
    | .method => row.methods.length
    | .constructor => row.constructors.length
    | .base => row.bases.length
    | .enumValue => row.enumValues.length

def members (r : Registry) (kind : MemberKind) (h : TypeHandle) : List MemberHandle :=
  (List.range (r.memberCount kind h)).map h.member

def fieldNamed? (r : Registry) (h : TypeHandle) (name : String) : Option MemberHandle := do
  let id ← r.names.find? name
  let row ← r.row? h
  (row.fieldPosition? id).map h.member

def propertyNamed? (r : Registry) (h : TypeHandle) (name : String) : Option MemberHandle := do
  let id ← r.names.find? name
  let row ← r.row? h
  (row.propertyPosition? id).map h.member

/-- The overloads of a method name that the type itself declares. -/
def methodsNamed (r : Registry) (h : TypeHandle) (name : String) : List MemberHandle :=
  match r.names.find? name, r.row? h with
  | some id, some row => (row.overloads id).map h.member
  | _, _ => []

def functionView (r : Registry) (h : FunctionHandle) : FunctionView :=
  match r.functionRow? h with
  | some f => ⟨h, true, f.name.text, f.owner, f.params, f.returnType, f.signature⟩
  | none => { handle := h, isValid := false }

def typeView (r : Registry) (h : TypeHandle) : TypeView :=
  match r.row? h with
  | none => { handle := h, isValid := false }
  | some row =>
    let views (kind : MemberKind) := (r.members kind h).map (r.memberView kind)
    { handle := h
      isValid := true
      name := row.name.text
      typeHash := row.typeHash
      owner := row.owner
      generation := h.slot.generation
      size := row.size
      align := row.align
      flags := some row.flags
      attributes := row.attributes
      fields := views .field
      properties := views .property
      methods := views .method
      constructors := views .constructor
      bases := views .base
      enumValues := views .enumValue }

end Registry

/-- The attributes that a member shows; bases and alternatives have none. -/
def MemberDetail.attributes : MemberDetail → List Attribute
  | .field v => v.attributes
  | .property v => v.attributes
  | .method v => v.attributes
  | .constructor v => v.attributes
  | .base _ | .enumValue _ => []

end TypeCatalog
