import TypeCatalog.Image.Layout
import TypeCatalog.Image.Record
import TypeCatalog.Image.Slots
import TypeCatalog.Row

/-!
Reading an image. The header and the bounds of the sections are checked first, then every record;
a record that is out of shape or refers to nothing rejects the whole image.
-/
namespace TypeCatalog.Image

structure ReadAttribute where
  key : String
  value : AttributeValue

structure ReadField where
  name : String
  type : TypeHash
  offset : Option UInt64
  accessor : Accessor
  attributes : List ReadAttribute

structure ReadMethod where
  name : String
  params : List TypeHash
  returnType : TypeHash
  signature : TypeHash
  flags : MethodFlags
  callable : Callable
  attributes : List ReadAttribute

structure ReadConstructor where
  params : List TypeHash
  signature : TypeHash
  callable : Callable
  attributes : List ReadAttribute

structure ReadType where
  name : String
  typeHash : TypeHash
  owner : ModuleId
  size : UInt64
  align : UInt64
  flags : TypeFlags
  fields : List ReadField
  methods : List ReadMethod
  constructors : List ReadConstructor
  attributes : List ReadAttribute

/-- An image whose header and section bounds have been checked. -/
structure View where
  bytes : List UInt8
  header : Header
  texts : List UInt8

/-- Whether a section lies behind the header and within the image. -/
def regionFits (h : Header) (region : UInt64 × UInt64) : Bool :=
  region.2 == 0 ||
    (headerSize ≤ region.1.toNat && region.1.toNat + region.2.toNat ≤ h.totalSize.toNat)

def View.ofBytes (bytes : List UInt8) : Except MergeError View := do
  let some found := readAt read32 bytes 0 | throw .corruptOffsets
  if found ≠ version then throw (.unsupportedVersion found)
  let some header := Header.decode? bytes | throw .corruptOffsets
  if bytes.length < header.totalSize.toNat then throw .corruptOffsets
  if header.regions.any (!regionFits header ·) then throw .corruptOffsets
  let texts := (bytes.drop header.offsets.texts.toNat).take header.counts.textBytes.toNat
  return ⟨bytes, header, texts⟩

namespace View

def record? {α : Type} (v : View) (reader : Reader α) (size : Nat) (offset : UInt64) (index : Nat) :
    Option α :=
  readAt reader v.bytes (offset.toNat + index * size)

def text? (v : View) (ref : TextRef) : Option String := do
  let (first, last) ← Span.within? ref.offset ref.length v.texts.length
  String.fromUTF8? ⟨((v.texts.drop first).take (last - first)).toArray⟩

def params? (v : View) (span : Span) : Option (List TypeHash) := do
  let (first, last) ← Span.within? span.start span.count v.header.counts.params.toNat
  (List.range' first (last - first)).mapM fun index =>
    (v.record? read64 wordSize v.header.offsets.params index).map TypeHash.mk

def attributeValue? (v : View) (kind : UInt8) (payload : UInt64) : Option AttributeValue := do
  match ← AttributeKind.ofTag? kind with
  | .bool =>
    if payload = 0 then some (.bool false)
    else if payload = 1 then some (.bool true)
    else none
  | .int => some (.int payload.toInt64)
  | .double => some (.double payload)
  | .string => (v.text? (.unpack payload)).map .string
  | .type => some (.type ⟨payload⟩)

def attribute? (v : View) (index : Nat) : Option ReadAttribute := do
  let record ← v.record? AttributeRecord.read attributeSize v.header.offsets.attributes index
  let key ← v.text? record.key
  let value ← v.attributeValue? record.kind record.payload
  return ⟨key, value⟩

def field? (v : View) (exports : ExportTable) (attributes : List ReadAttribute) (index : Nat) :
    Option ReadField := do
  let record ← v.record? FieldRecord.read fieldSize v.header.offsets.fields index
  let name ← v.text? record.name
  let accessor ← exports.accessor? record.slot
  let attributes ← record.attributes.pick? attributes
  let offset := if record.offset = unknownOffset then none else some record.offset
  return ⟨name, ⟨record.type⟩, offset, accessor, attributes⟩

def callable? (v : View) (exports : ExportTable) (slots : UInt64) (index arity : Nat) :
    Option Callable := do
  let slot ← v.record? read64 wordSize slots index
  (exports.callable? slot).filter (·.arity = arity)

def method? (v : View) (exports : ExportTable) (attributes : List ReadAttribute) (index : Nat) :
    Option ReadMethod := do
  let record ← v.record? MethodRecord.read methodSize v.header.offsets.methods index
  let name ← v.text? record.name
  let params ← v.params? record.params
  let flags ← MethodFlags.ofBits? record.flags
  let callable ← v.callable? exports v.header.offsets.methodSlots index params.length
  let attributes ← record.attributes.pick? attributes
  return ⟨name, params, ⟨record.returnType⟩, ⟨record.signature⟩, flags, callable, attributes⟩

def constructor? (v : View) (exports : ExportTable) (attributes : List ReadAttribute)
    (index : Nat) : Option ReadConstructor := do
  let record ←
    v.record? ConstructorRecord.read constructorSize v.header.offsets.constructors index
  let params ← v.params? record.params
  let callable ← v.callable? exports v.header.offsets.constructorSlots index params.length
  let attributes ← record.attributes.pick? attributes
  return ⟨params, ⟨record.signature⟩, callable, attributes⟩

structure Members where
  fields : List ReadField
  methods : List ReadMethod
  constructors : List ReadConstructor
  attributes : List ReadAttribute

def type? (v : View) (members : Members) (index : Nat) : Option ReadType := do
  let record ← v.record? TypeRecord.read typeSize v.header.offsets.types index
  let name ← v.text? record.name
  let flags ← TypeFlags.ofBits? record.flags
  let fields ← record.fields.pick? members.fields
  let methods ← record.methods.pick? members.methods
  let constructors ← record.constructors.pick? members.constructors
  let attributes ← record.attributes.pick? members.attributes
  return ⟨name, ⟨record.typeHash⟩, ⟨record.owner⟩, record.size, record.align.toUInt64, flags,
    fields, methods, constructors, attributes⟩

/-- Reads the records of a section in order; `corrupt` tells which one failed. -/
def readAll {α : Type} (count : UInt32) (corrupt : Nat → MergeError) (read? : Nat → Option α) :
    Except MergeError (List α) :=
  (List.range count.toNat).mapM fun index =>
    match read? index with
    | some record => .ok record
    | none => .error (corrupt index)

def typeHash? (v : View) (index : Nat) : Option TypeHash :=
  (v.record? TypeRecord.read typeSize v.header.offsets.types index).map fun t => ⟨t.typeHash⟩

def isRepeated (v : View) (index : Nat) : Bool :=
  (List.range index).any fun earlier => v.typeHash? earlier = v.typeHash? index

end View

/-- Reads all types of an image, in which no type may occur twice. -/
def decode (exports : ExportTable) (bytes : List UInt8) : Except MergeError (List ReadType) := do
  let v ← View.ofBytes bytes
  let counts := v.header.counts
  let attributes ← View.readAll counts.attributes .corruptAttributeRecord v.attribute?
  let fields ← View.readAll counts.fields .corruptFieldRecord (v.field? exports attributes)
  let methods ← View.readAll counts.methods .corruptMethodRecord (v.method? exports attributes)
  let constructors ←
    View.readAll counts.constructors .corruptConstructorRecord (v.constructor? exports attributes)
  let members : View.Members := ⟨fields, methods, constructors, attributes⟩
  View.readAll counts.types .corruptTypeRecord fun index =>
    if v.isRepeated index then none else v.type? members index

end TypeCatalog.Image
