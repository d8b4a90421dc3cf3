import TypeCatalog.Image.Layout
import TypeCatalog.Image.Record
import TypeCatalog.Image.Slots
import TypeCatalog.Registry.Basic

/-! Writing the published types of a registry as an image, in slot order. -/
namespace TypeCatalog.Image

/-- The text section; each text is in it once. -/
structure TextTable where
  bytes : List UInt8 := []
  seen : List (String × TextRef) := []

/-- The reference to a text, which is appended if it is new. -/
def TextTable.add (t : TextTable) (text : String) : TextRef × TextTable :=
  match t.seen.find? (·.1 = text) with
  | some (_, ref) => (ref, t)
  | none =>
    let bytes := text.toUTF8.data.toList
    let ref : TextRef := ⟨UInt32.ofNat t.bytes.length, UInt32.ofNat bytes.length⟩
    (ref, ⟨t.bytes ++ bytes, t.seen ++ [(text, ref)]⟩)

/-- The entries of the sections before they are laid out, with the slots that they use. -/
structure Sections where
  texts : TextTable := {}
  types : List TypeRecord := []
  fields : List FieldRecord := []
  methods : List MethodRecord := []
  constructors : List ConstructorRecord := []
  attributes : List AttributeRecord := []
  params : List UInt64 := []
  methodSlots : List UInt64 := []
  constructorSlots : List UInt64 := []
  exports : ExportTable

namespace Sections

def addText (s : Sections) (text : String) : TextRef × Sections :=
  let (ref, texts) := s.texts.add text
  (ref, { s with texts })

def slotOf (s : Sections) (e : Exported) : UInt64 × Sections :=
  let (slot, exports) := s.exports.slotOf e
  (slot, { s with exports })

def addPayload (s : Sections) : AttributeValue → UInt64 × Sections
  | .bool value => (value.toUInt64, s)
  | .int value => (value.toUInt64, s)
  | .double bits => (bits, s)
  | .string text =>
    let (ref, s) := s.addText text
    (ref.pack, s)
  | .type hash => (hash.value, s)

def addAttribute (s : Sections) (a : Attribute) : Sections :=
  let (key, s) := s.addText a.key.text
  let (payload, s) := s.addPayload a.value
  { s with attributes := s.attributes ++ [⟨key, a.value.kind.tag, payload⟩] }

def addAttributes (s : Sections) (attributes : List Attribute) : Span × Sections :=
  (.ofNat s.attributes.length attributes.length, attributes.foldl addAttribute s)

def addParams (s : Sections) (params : List TypeHash) : Span × Sections :=
  (.ofNat s.params.length params.length,
    { s with params := s.params ++ params.map TypeHash.value })

def addField (s : Sections) (field : Field) : Sections :=
  let (name, s) := s.addText field.name.text
  let (attributes, s) := s.addAttributes field.attributes
  let (slot, s) := s.slotOf (.accessor field.accessor)
  { s with fields := s.fields ++
      [⟨name, field.type.value, field.offset.getD unknownOffset, slot, attributes⟩] }

def addMethod (s : Sections) (method : Method) : Sections :=
  let (name, s) := s.addText method.name.text
  let (params, s) := s.addParams method.params
  let (attributes, s) := s.addAttributes method.attributes
  let (slot, s) := s.slotOf (.callable method.callable)
  { s with
    methods := s.methods ++
      [⟨name, method.returnType.value, method.signature.value, params, method.flags.bits,
        attributes⟩]
    methodSlots := s.methodSlots ++ [slot] }

def addConstructor (s : Sections) (constructor : Constructor) : Sections :=
  let (params, s) := s.addParams constructor.params
  let (attributes, s) := s.addAttributes constructor.attributes
  let (slot, s) := s.slotOf (.callable constructor.callable)
  { s with
    constructors := s.constructors ++ [⟨constructor.signature.value, params, attributes⟩]
    constructorSlots := s.constructorSlots ++ [slot] }

def addType (s : Sections) (row : Row) : Sections :=
  let (name, s) := s.addText row.name.text
  let fields := Span.ofNat s.fields.length row.fields.length
  let s := row.fields.foldl addField s
  let methods := Span.ofNat s.methods.length row.methods.length
  let s := row.methods.foldl addMethod s
  let constructors := Span.ofNat s.constructors.length row.constructors.length
  let s := row.constructors.foldl addConstructor s
  let (attributes, s) := s.addAttributes row.attributes
  { s with types := s.types ++
      [⟨name, row.typeHash.value, row.owner.value, row.size, row.align.toUInt32, row.flags.bits,
        fields, methods, constructors, attributes⟩] }

def counts (s : Sections) : Counts :=
  { types := UInt32.ofNat s.types.length
    fields := UInt32.ofNat s.fields.length
    methods := UInt32.ofNat s.methods.length
    constructors := UInt32.ofNat s.constructors.length
    attributes := UInt32.ofNat s.attributes.length
    params := UInt32.ofNat s.params.length
    textBytes := UInt32.ofNat s.texts.bytes.length }

def contents (s : Sections) : List (List UInt8) :=
  [s.types.flatMap TypeRecord.encode, s.fields.flatMap FieldRecord.encode,
    s.methods.flatMap MethodRecord.encode, s.constructors.flatMap ConstructorRecord.encode,
    s.attributes.flatMap AttributeRecord.encode, s.params.flatMap put64, s.texts.bytes,
    s.methodSlots.flatMap put64, s.constructorSlots.flatMap put64]

/-- The image of the sections: each at its offset, with zeros between them. -/
def image (s : Sections) : List UInt8 :=
  let header := Header.layout s.counts
  let body := (header.offsets.toList.zip s.contents).foldl
    (fun bytes (offset, content) => padTo bytes offset.toNat ++ content) header.encode
  padTo body header.totalSize.toNat

end Sections

/-- The image of all published types of a registry, and the slots with those it has added. -/
def ofRegistry (r : Registry) (exports : ExportTable) : List UInt8 × ExportTable :=
  let sections := (r.publishedRows.map (·.2)).foldl Sections.addType { exports }
  (sections.image, sections.exports)

end TypeCatalog.Image
