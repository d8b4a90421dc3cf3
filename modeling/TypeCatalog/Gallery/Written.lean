import TypeCatalog.Gallery.Shape
import TypeCatalog.Attribute
import TypeCatalog.Literal
import TypeCatalog.Text.Hex

/-!
The written forms of values. Integers are decimal texts and floats their bits in hexadecimal; a
struct is a record of the members that do not have their default, a tuple a list of all its
members, an alternative its name, and a wrapper its datum.
-/
namespace TypeCatalog.Gallery

/-- The bits that a float's text stands for: `0x` and digits, or the word for no number. -/
def floatBits? (width : Nat) (text : String) : Option Nat :=
  if text = "nan" then some (if width = 8 then 0x7fc00000 else 0x7ff8000000000000)
  else Text.ofHex? text

def readPrimitive? (kind : PrimitiveKind) (form : Literal) : Option Value :=
  match kind, form with
  | .void, _ => some .void
  | .bool, .bool value => some (.bool value)
  | .char, .text text => text.toList.head?.map .char
  | .integer kind, .text text => text.toInt?.map (Value.ofInt kind)
  | .float .single, .text text =>
    (floatBits? 8 text).map fun bits => .single (UInt32.ofNat bits)
  | .float .double, .text text =>
    (floatBits? 16 text).map fun bits => .double (UInt64.ofNat bits)
  | .string, .text text => some (.string text)
  | _, _ => none

mutual

def read? (type : TypeKey) (form : Literal) : Option Value :=
  match type, form with
  | .primitive kind, form => readPrimitive? kind form
  | .user key, .list items =>
    (readItems? (membersOf key) items).map (.object key)
  | .user key, .record fields =>
    (readFields? (membersOf key) fields).map (.object key)
  | .user key, form =>
    match shape key, form with
    | .variants names, .text name => if name ∈ names then some (.variant key name) else none
    | .wrapper kind, form =>
      (readPrimitive? kind form).map fun datum => .object key [("0", datum)]
    | _, .null => some (.object key [])
    | _, _ => none

def readItems? : List (String × TypeKey) → List Literal → Option (List (String × Value))
  | (name, type) :: members, item :: items => do
    let value ← read? type item
    let rest ← readItems? members items
    return (name, value) :: rest
  | _, _ => some []

def readFields? (members : List (String × TypeKey)) :
    List (String × Literal) → Option (List (String × Value))
  | [] => some []
  | (name, form) :: fields => do
    let (_, type) ← members.find? (·.1 = name)
    let value ← read? type form
    let rest ← readFields? members fields
    return (name, value) :: rest

end

mutual

def isDefault : Value → Bool
  | .void => true
  | .bool value => !value
  | .char value => value = '\x00'
  | .integer _ bits => bits = 0
  | .single bits => bits = 0
  | .double bits => bits = 0
  | .string text => text.isEmpty
  | .variant key name =>
    match shape key with
    | .variants (first :: _) => name = first
    | _ => false
  | .object _ members => areDefault members

def areDefault : List (String × Value) → Bool
  | [] => true
  | (_, value) :: members => isDefault value && areDefault members

end

def writeSingle (bits : UInt32) : String :=
  if bits &&& 0x7fffffff > 0x7f800000 then "nan" else Text.hex 8 bits.toNat

def writeDouble (bits : UInt64) : String :=
  if AttributeValue.isNaN bits then "nan" else Text.hex 16 bits.toNat

def writeObject (key : String) (given : List (String × Bool × Literal))
    (primitive : PrimitiveKind → Literal) : Literal :=
  let form (name : String) (type : TypeKey) : Literal :=
    match given.find? (·.1 = name), type with
    | some (_, _, form), _ => form
    | none, .primitive kind => primitive kind
    | none, .user _ => .record []
  match shape key with
  | .wrapper kind => form "0" (.primitive kind)
  | .unit => .null
  | .tuple _ => .list ((membersOf key).map fun (name, type) => form name type)
  | .struct members => .record (members.filterMap fun (name, _) =>
      match given.find? (·.1 = name) with
      | some (_, false, form) => some (name, form)
      | _ => none)
  | .variants _ => .null

def writePlain : Value → Literal
  | .void => .null
  | .bool value => .bool value
  | .char value => .text value.toString
  | .integer kind bits => .text (toString (kind.toInt bits))
  | .single bits => .text (writeSingle bits)
  | .double bits => .text (writeDouble bits)
  | .string text => .text text
  | .variant _ name => .text name
  | .object .. => .null

mutual

def write : Value → Literal
  | .object key members =>
    writeObject key (writeMembers members) fun kind => writePlain (primitiveDefault kind)
  | v => writePlain v

def writeMembers : List (String × Value) → List (String × Bool × Literal)
  | [] => []
  | (name, value) :: members => (name, isDefault value, write value) :: writeMembers members

end

/-- The form of a value as one text, without quotes around a text. -/
def formText (v : Value) : String :=
  match write v with
  | .text text => text
  | form => form.render

def coreText (object : Value) : String :=
  match member object "s" string with
  | .string text => text
  | _ => ""

/-- How scripted callables show an argument: its type and its form. Of an object with a core only
the text of the core is shown. -/
def shown (v : Value) : String :=
  let form := match v with
    | .object key _ => if hasCore key then coreText v else formText v
    | v => formText v
  typeId v.typeOf ++ ":" ++ form

def shownAll (args : List Value) : String := ",".intercalate (args.map shown)

end TypeCatalog.Gallery
