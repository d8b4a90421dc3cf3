import TypeCatalog.Text.Hex
import TypeCatalog.Text.Blank
import TypeCatalog.Hash.Xxh64

/-!
Identity by content. A type, method, constructor or function is identified by a 64-bit hash of
its name, its owner and its parameter types, so equal descriptions have equal hashes wherever
they are made. Each kind mixes in a marker of its own, and each parameter position another.
-/
namespace TypeCatalog

/-- The identity of a type or the signature of a callable. -/
structure TypeHash where
  value : UInt64
deriving DecidableEq, Inhabited

namespace TypeHash

def separator : UInt64 := 0x4bc94d6bd06053ad
def typeMarker : UInt64 := 0x2fac10b63a6cc57c
def functionMarker : UInt64 := 0x5ea77ffbcdf5f302
def methodMarker : UInt64 := 0x7d3c8b4a92e15f6d
def constructorMarker : UInt64 := 0x9a7f3d5e2b8c4601

def positionMarkers : List UInt64 :=
  [0x9e3779b97f4a7c15, 0xbf58476d1ce4e5b9, 0x94d049bb133111eb, 0xd6e8feb86659fd93,
    0xe7037ed1a0b428db, 0xc6a4a7935bd1e995, 0x8648dbbc94d49b8d, 0xa2b48b2c69e0d657,
    0x7c3e9f2a5b8d1403, 0x5d8c7b4a3e9f2106, 0x3f1e9d8c7b5a4203, 0x1a2b3c4d5e6f7089,
    0x9f8e7d6c5b4a3210, 0x2468ace013579bdf, 0xfdb97531eca86420, 0x0f1e2d3c4b5a6978]

/-- The marker of a parameter position; past the table it counts up from the first marker. -/
def positionMarker (position : Nat) : UInt64 :=
  positionMarkers.getD position (0x9e3779b97f4a7c15 + UInt64.ofNat position)

/-- Folds parameter types into a hash, the first of them at `position`. -/
def foldParams (position : Nat) (hash : UInt64) : List TypeHash → UInt64
  | [] => hash
  | param :: params =>
    foldParams (position + 1) (hash * separator + (positionMarker position ^^^ param.value)) params

def empty : TypeHash := ⟨0⟩

def isEmpty (hash : TypeHash) : Bool := hash.value == 0

def ofName (name : String) : TypeHash := ⟨typeMarker ^^^ Xxh64.hashText name⟩

def ofFunction (name : String) (params : List TypeHash) : TypeHash :=
  ⟨foldParams 0 (functionMarker ^^^ Xxh64.hashText name) params⟩

def ofMethod (owner : TypeHash) (name : String) (params : List TypeHash) : TypeHash :=
  ⟨foldParams 0 (methodMarker ^^^ owner.value ^^^ Xxh64.hashText name) params⟩

def ofConstructor (owner : TypeHash) (params : List TypeHash) : TypeHash :=
  ⟨foldParams 0 (constructorMarker ^^^ owner.value) params⟩

def text (hash : TypeHash) : String := Text.hex 16 hash.value.toNat

def debugText (hash : TypeHash) : String := "TypeHash(" ++ hash.text ++ ")"

end TypeHash

/-- The words that some tools put before the name of an aggregate. -/
def aggregateKeywords : List String := ["class ", "struct ", "enum ", "union "]

/-- A type name without surrounding blanks and without one leading aggregate keyword. -/
def canonicalName (raw : String) : String :=
  let trimmed := Text.trim raw.toList
  let bare := aggregateKeywords.findSome? fun keyword =>
    (Text.stripLeading? keyword.toList trimmed).map Text.trimStart
  String.ofList (bare.getD trimmed)

end TypeCatalog
