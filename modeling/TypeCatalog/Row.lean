import TypeCatalog.Attribute
import TypeCatalog.Handle
import TypeCatalog.Index
import TypeCatalog.Interner
import TypeCatalog.Member.Part
import TypeCatalog.Member.Callable

/-!
What a registry knows about one type: its identity and owner, its members in order of
declaration, and the indexes from names to positions. Members are only ever added at the end, and
one that repeats an earlier member is left out.
-/
namespace TypeCatalog

structure Attribute where
  key : Name
  value : AttributeValue
deriving DecidableEq

def findAttribute? (attributes : List Attribute) (key : String) : Option AttributeValue :=
  (attributes.find? (·.key.text = key)).map Attribute.value

structure Field where
  name : Name
  type : TypeHash
  /-- The field's offset in bytes inside its owner, where it is known. -/
  offset : Option UInt64
  accessor : Accessor
  attributes : List Attribute

structure Property where
  name : Name
  type : TypeHash
  computed : Computed
  attributes : List Attribute

def Property.isReadOnly (p : Property) : Bool := p.computed.setter.isNone

/-- Whether a method has no receiver, and whether it changes its object. -/
structure MethodFlags where
  isStatic : Bool := false
  isMutating : Bool := false
deriving DecidableEq

/-- A number with the bits of the flags that are set; the first flag is the lowest bit. -/
def packFlags (flags : List Bool) : UInt32 := flags.foldr (fun b n => n <<< 1 ||| b.toUInt32) 0

def MethodFlags.bits (f : MethodFlags) : UInt32 := packFlags [f.isStatic, f.isMutating]

def MethodFlags.ofBits? (bits : UInt32) : Option MethodFlags :=
  if bits < 4 then some ⟨bits &&& 1 ≠ 0, bits &&& 2 ≠ 0⟩ else none

structure Method where
  name : Name
  params : List TypeHash
  returnType : TypeHash
  flags : MethodFlags
  /-- The hash of owner, name and parameter types. -/
  signature : TypeHash
  callable : Callable
  attributes : List Attribute

structure Constructor where
  params : List TypeHash
  signature : TypeHash
  callable : Callable
  attributes : List Attribute

structure EnumValue where
  name : Name
  value : Int64
deriving DecidableEq

structure FunctionRow where
  name : Name
  owner : ModuleId
  params : List TypeHash
  returnType : TypeHash
  signature : TypeHash
  callable : Callable

structure TypeFlags where
  isEnum : Bool := false
  isPrimitive : Bool := false
  isDefaultConstructible : Bool := false
deriving DecidableEq

def TypeFlags.bits (f : TypeFlags) : UInt32 :=
  packFlags [f.isEnum, f.isPrimitive, f.isDefaultConstructible]

def TypeFlags.ofBits? (bits : UInt32) : Option TypeFlags :=
  if bits < 8 then some ⟨bits &&& 1 ≠ 0, bits &&& 2 ≠ 0, bits &&& 4 ≠ 0⟩ else none

/-- The row of a type. Until it is published, no query shows it. -/
structure Row where
  name : Name
  typeHash : TypeHash
  owner : ModuleId
  size : UInt64
  align : UInt64
  flags : TypeFlags
  fields : List Field := []
  properties : List Property := []
  methods : List Method := []
  constructors : List Constructor := []
  bases : List BaseLink := []
  enumValues : List EnumValue := []
  attributes : List Attribute := []
  fieldIndex : Index NameId Nat := .empty
  propertyIndex : Index NameId Nat := .empty
  /-- The positions of the methods of each name, in ascending order. -/
  methodIndex : Index NameId (List Nat) := .empty
  published : Bool := false

namespace Row

def fieldPosition? (row : Row) (name : NameId) : Option Nat := row.fieldIndex.find? name

def propertyPosition? (row : Row) (name : NameId) : Option Nat := row.propertyIndex.find? name

def overloads (row : Row) (name : NameId) : List Nat := (row.methodIndex.find? name).getD []

def defaultConstructor? (row : Row) : Option Nat :=
  row.constructors.findIdx? fun c => c.params.isEmpty

def enumValue? (row : Row) (name : String) : Option Int64 :=
  (row.enumValues.find? (·.name.text = name)).map EnumValue.value

def enumName? (row : Row) (value : Int64) : Option Name :=
  (row.enumValues.find? (·.value = value)).map EnumValue.name

def attribute? (row : Row) (key : String) : Option AttributeValue :=
  findAttribute? row.attributes key

def addField (row : Row) (field : Field) : Row :=
  match row.fieldPosition? field.name.id with
  | some _ => row
  | none =>
    { row with
      fields := row.fields ++ [field]
      fieldIndex := row.fieldIndex.insert field.name.id row.fields.length }

def addProperty (row : Row) (property : Property) : Row :=
  match row.propertyPosition? property.name.id with
  | some _ => row
  | none =>
    { row with
      properties := row.properties ++ [property]
      propertyIndex := row.propertyIndex.insert property.name.id row.properties.length }

def addMethod (row : Row) (method : Method) : Row :=
  if row.methods.any (·.signature = method.signature) then row
  else
    { row with
      methods := row.methods ++ [method]
      methodIndex := row.methodIndex.update method.name.id [] (· ++ [row.methods.length]) }

def addConstructor (row : Row) (constructor : Constructor) : Row :=
  if row.constructors.any (·.signature = constructor.signature) then row
  else
    { row with
      constructors := row.constructors ++ [constructor]
      flags := if constructor.params.isEmpty then { row.flags with isDefaultConstructible := true }
        else row.flags }

def addBase (row : Row) (base : BaseLink) : Row :=
  if row.bases.any (·.base = base.base) then row else { row with bases := row.bases ++ [base] }

def addEnumValue (row : Row) (value : EnumValue) : Row :=
  if row.enumValues.any (·.name = value.name) then row
  else
    { row with
      enumValues := row.enumValues ++ [value]
      flags := { row.flags with isEnum := true } }

end Row

/-- The members that one pass over a description has collected. -/
structure Draft where
  name : Option Name := none
  fields : List Field := []
  properties : List Property := []
  methods : List Method := []
  constructors : List Constructor := []
  bases : List BaseLink := []
  enumValues : List EnumValue := []
  attributes : List Attribute := []

/-- The row with the members of a draft added, under the draft's name, and published. -/
def Row.publish (row : Row) (draft : Draft) : Row :=
  let row := draft.fields.foldl addField row
  let row := draft.properties.foldl addProperty row
  let row := draft.methods.foldl addMethod row
  let row := draft.constructors.foldl addConstructor row
  let row := draft.bases.foldl addBase row
  let row := draft.enumValues.foldl addEnumValue row
  { row with
    attributes := row.attributes ++ draft.attributes
    name := match draft.name with
      | some name => if name.id = row.name.id then row.name else name
      | none => row.name
    published := true }

end TypeCatalog
