import TypeCatalog.Image.Bytes

/-!
The records of an image. They refer to each other by runs of entries in other sections, and to
text by runs of bytes in the text section.
-/
namespace TypeCatalog.Image

structure TextRef where
  offset : UInt32
  length : UInt32
deriving DecidableEq

namespace TextRef

/-- The reference in one word, the offset in its low half. -/
def pack (t : TextRef) : UInt64 := t.offset.toUInt64 ||| t.length.toUInt64 <<< 32

def unpack (word : UInt64) : TextRef := ⟨word.toUInt32, (word >>> 32).toUInt32⟩

def encode (t : TextRef) : List UInt8 := put32 t.offset ++ put32 t.length

def read : Reader TextRef := return ⟨← read32, ← read32⟩

end TextRef

structure Span where
  start : UInt32
  count : UInt32
deriving DecidableEq

namespace Span

/-- The run of `count` entries from `start` on, in the low 32 bits of both. -/
def ofNat (start count : Nat) : Span := ⟨UInt32.ofNat start, UInt32.ofNat count⟩

/-- Begin and end of a run, if it lies within a section of `length` entries. -/
def within? (start count : UInt32) (length : Nat) : Option (Nat × Nat) :=
  if start.toNat + count.toNat ≤ length then some (start.toNat, start.toNat + count.toNat)
  else none

/-- The entries of a run, if the section holds all of them. -/
def pick? {α : Type} (s : Span) (entries : List α) : Option (List α) :=
  (within? s.start s.count entries.length).map fun (first, last) =>
    (entries.drop first).take (last - first)

def encode (s : Span) : List UInt8 := put32 s.start ++ put32 s.count

def read : Reader Span := return ⟨← read32, ← read32⟩

end Span

structure TypeRecord where
  name : TextRef
  typeHash : UInt64
  owner : UInt64
  size : UInt64
  align : UInt32
  flags : UInt32
  fields : Span
  methods : Span
  constructors : Span
  attributes : Span
deriving DecidableEq

def TypeRecord.encode (t : TypeRecord) : List UInt8 :=
  t.name.encode ++ put64 t.typeHash ++ put64 t.owner ++ put64 t.size ++ put32 t.align
    ++ put32 t.flags ++ t.fields.encode ++ t.methods.encode ++ t.constructors.encode
    ++ t.attributes.encode

def TypeRecord.read : Reader TypeRecord :=
  return ⟨← TextRef.read, ← read64, ← read64, ← read64, ← read32, ← read32, ← Span.read,
    ← Span.read, ← Span.read, ← Span.read⟩

/-- The offset of a field whose offset is not known. -/
def unknownOffset : UInt64 := 0xffffffffffffffff

structure FieldRecord where
  name : TextRef
  type : UInt64
  offset : UInt64
  slot : UInt64
  attributes : Span
deriving DecidableEq

def FieldRecord.encode (f : FieldRecord) : List UInt8 :=
  f.name.encode ++ put64 f.type ++ put64 f.offset ++ put64 f.slot ++ f.attributes.encode

def FieldRecord.read : Reader FieldRecord :=
  return ⟨← TextRef.read, ← read64, ← read64, ← read64, ← Span.read⟩

structure MethodRecord where
  name : TextRef
  returnType : UInt64
  signature : UInt64
  params : Span
  flags : UInt32
  attributes : Span
deriving DecidableEq

def MethodRecord.encode (m : MethodRecord) : List UInt8 :=
  m.name.encode ++ put64 m.returnType ++ put64 m.signature ++ m.params.encode ++ put32 m.flags
    ++ put32 0 ++ m.attributes.encode

def MethodRecord.read : Reader MethodRecord := do
  let name ← TextRef.read
  let returnType ← read64
  let signature ← read64
  let params ← Span.read
  let flags ← read32
  skip 4
  let attributes ← Span.read
  return ⟨name, returnType, signature, params, flags, attributes⟩

structure ConstructorRecord where
  signature : UInt64
  params : Span
  attributes : Span
deriving DecidableEq

def ConstructorRecord.encode (c : ConstructorRecord) : List UInt8 :=
  put64 c.signature ++ c.params.encode ++ c.attributes.encode

def ConstructorRecord.read : Reader ConstructorRecord :=
  return ⟨← read64, ← Span.read, ← Span.read⟩

/-- An attribute; the payload of a text is its packed reference. -/
structure AttributeRecord where
  key : TextRef
  kind : UInt8
  payload : UInt64
deriving DecidableEq

def AttributeRecord.encode (a : AttributeRecord) : List UInt8 :=
  a.key.encode ++ put8 a.kind ++ putZeros 7 ++ put64 a.payload

def AttributeRecord.read : Reader AttributeRecord := do
  let key ← TextRef.read
  let kind ← read8
  skip 7
  let payload ← read64
  return ⟨key, kind, payload⟩

end TypeCatalog.Image
