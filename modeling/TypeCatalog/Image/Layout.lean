import TypeCatalog.Image.Bytes

/-!
The layout of an image: a header of 120 bytes and nine sections, each at a multiple of eight.
The header tells how many entries the sections hold and where they begin. Method and constructor
slots are parallel to the method and constructor records.
-/
namespace TypeCatalog.Image

def version : UInt32 := 1

def headerSize : Nat := 120
def typeSize : Nat := 72
def fieldSize : Nat := 40
def methodSize : Nat := 48
def constructorSize : Nat := 24
def attributeSize : Nat := 24
def wordSize : Nat := 8

def align8 (offset : UInt64) : UInt64 := (offset + 7) &&& ~~~7

structure Counts where
  types : UInt32
  fields : UInt32
  methods : UInt32
  constructors : UInt32
  attributes : UInt32
  params : UInt32
  textBytes : UInt32
deriving DecidableEq

structure Offsets where
  types : UInt64
  fields : UInt64
  methods : UInt64
  constructors : UInt64
  attributes : UInt64
  params : UInt64
  texts : UInt64
  methodSlots : UInt64
  constructorSlots : UInt64
deriving DecidableEq

structure Header where
  version : UInt32
  flags : UInt32
  counts : Counts
  offsets : Offsets
  totalSize : UInt64
deriving DecidableEq

def Counts.lengths (c : Counts) : List UInt64 :=
  [c.types.toUInt64 * 72, c.fields.toUInt64 * 40, c.methods.toUInt64 * 48,
    c.constructors.toUInt64 * 24, c.attributes.toUInt64 * 24, c.params.toUInt64 * 8,
    c.textBytes.toUInt64, c.methods.toUInt64 * 8, c.constructors.toUInt64 * 8]

def Counts.toList (c : Counts) : List UInt32 :=
  [c.types, c.fields, c.methods, c.constructors, c.attributes, c.params, c.textBytes]

def Offsets.toList (o : Offsets) : List UInt64 :=
  [o.types, o.fields, o.methods, o.constructors, o.attributes, o.params, o.texts, o.methodSlots,
    o.constructorSlots]

namespace Header

/-- The header of an image whose sections follow each other in order. -/
def layout (c : Counts) : Header :=
  let types := align8 120
  let fields := align8 (types + c.types.toUInt64 * 72)
  let methods := align8 (fields + c.fields.toUInt64 * 40)
  let constructors := align8 (methods + c.methods.toUInt64 * 48)
  let attributes := align8 (constructors + c.constructors.toUInt64 * 24)
  let params := align8 (attributes + c.attributes.toUInt64 * 24)
  let texts := align8 (params + c.params.toUInt64 * 8)
  let methodSlots := align8 (texts + c.textBytes.toUInt64)
  let constructorSlots := align8 (methodSlots + c.methods.toUInt64 * 8)
  { version := Image.version
    flags := 0
    counts := c
    offsets := ⟨types, fields, methods, constructors, attributes, params, texts, methodSlots,
      constructorSlots⟩
    totalSize := align8 (constructorSlots + c.constructors.toUInt64 * 8) }

def regions (h : Header) : List (UInt64 × UInt64) := h.offsets.toList.zip h.counts.lengths

def encode (h : Header) : List UInt8 :=
  put32 h.version ++ put32 h.flags ++ h.counts.toList.flatMap put32 ++ put32 0
    ++ h.offsets.toList.flatMap put64 ++ put64 h.totalSize

def read : Reader Header := do
  let version ← read32
  let flags ← read32
  let counts : Counts := ⟨← read32, ← read32, ← read32, ← read32, ← read32, ← read32, ← read32⟩
  skip 4
  let offsets : Offsets := ⟨← read64, ← read64, ← read64, ← read64, ← read64, ← read64, ← read64,
    ← read64, ← read64⟩
  let totalSize ← read64
  return ⟨version, flags, counts, offsets, totalSize⟩

def decode? (bytes : List UInt8) : Option Header := readAt read bytes 0

end Header

end TypeCatalog.Image
