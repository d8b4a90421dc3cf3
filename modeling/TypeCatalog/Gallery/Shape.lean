import TypeCatalog.Member.Part

/-!
The make-up of the gallery's types. An object holds only the members that have been given a
value; a member that it lacks has the default of its type.
-/
namespace TypeCatalog.Gallery

/-- How a sample type is made up, which is also how its values are written. -/
inductive Shape where
  | wrapper (kind : PrimitiveKind)
  | unit
  | tuple (members : List TypeKey)
  | struct (members : List (String × TypeKey))
  | variants (names : List String)
deriving Inhabited

structure Sample where
  key : String
  name : String
  size : UInt64
  align : UInt64
  shape : Shape
  copyable : Bool := true
deriving Inhabited

def int (signed : Bool) (width : Width) : TypeKey := .primitive (.integer ⟨signed, width⟩)

abbrev i32 := int true .w32
abbrev i64 := int true .w64
abbrev u8 := int false .w8
abbrev u16 := int false .w16
abbrev u32 := int false .w32
abbrev u64 := int false .w64
abbrev f32 : TypeKey := .primitive (.float .single)
abbrev f64 : TypeKey := .primitive (.float .double)
abbrev bool : TypeKey := .primitive .bool
abbrev char : TypeKey := .primitive .char
abbrev string : TypeKey := .primitive .string
abbrev void : TypeKey := .primitive .void

def core : List (String × TypeKey) :=
  [("i", i32), ("l", i64), ("u", u8), ("q", u64), ("f", f64), ("g", f32), ("b", bool), ("c", char),
    ("s", string)]

/-- A scripted type: other scripted types embedded in it, then the core. -/
def scripted (embedded : List String) : Shape :=
  .struct (embedded.map (fun key => (key, .user key)) ++ core)

def samples : List Sample :=
  [ { key := "A", name := "zoo::A", size := 80, align := 8, shape := scripted [] },
    { key := "B", name := "zoo::B", size := 160, align := 8, shape := scripted ["A"] },
    { key := "C", name := "struct zoo::C", size := 160, align := 8, shape := scripted ["A"] },
    { key := "D", name := "class  zoo::D", size := 400, align := 8, shape := scripted ["B", "C"] },
    { key := "E", name := "  enum zoo::E ", size := 480, align := 8, shape := scripted ["D"] },
    { key := "F", name := "zoo::F", size := 80, align := 8, shape := scripted [] },
    { key := "Fake", name := "i32", size := 4, align := 4, shape := .wrapper (.integer ⟨true, .w32⟩) },
    { key := "FakeStruct", name := "struct f64", size := 4, align := 4
      shape := .wrapper (.integer ⟨true, .w32⟩) },
    { key := "Twin1", name := "zoo::Twin", size := 4, align := 4
      shape := .wrapper (.integer ⟨true, .w32⟩) },
    { key := "Twin2", name := "zoo::Twin", size := 24, align := 8, shape := .wrapper .string },
    { key := "Unit", name := "zoo::Unit", size := 0, align := 1, shape := .unit },
    { key := "Tiny", name := "zoo::Tiny", size := 2, align := 2
      shape := .wrapper (.integer ⟨false, .w16⟩) },
    { key := "Cube24", name := "zoo::Cube24", size := 24, align := 8
      shape := .tuple (List.replicate 3 u64) },
    { key := "Wide", name := "zoo::Wide", size := 32, align := 8
      shape := .tuple (List.replicate 4 u64) },
    { key := "Pair16", name := "zoo::Pair16", size := 16, align := 16
      shape := .tuple (List.replicate 2 u64) },
    { key := "Align32", name := "zoo::Align32", size := 0, align := 32, shape := .unit },
    { key := "Align16", name := "zoo::Align16", size := 16, align := 16
      shape := .wrapper (.integer ⟨false, .w8⟩) },
    { key := "Bytes24", name := "zoo::Bytes24", size := 24, align := 1
      shape := .tuple (List.replicate 24 u8) },
    { key := "Bytes25", name := "zoo::Bytes25", size := 25, align := 1
      shape := .tuple (List.replicate 25 u8) },
    { key := "Fragile", name := "zoo::Fragile", size := 32, align := 8
      shape := .tuple (List.replicate 4 u64), copyable := false },
    { key := "FragileSmall", name := "zoo::FragileSmall", size := 1, align := 1
      shape := .wrapper (.integer ⟨false, .w8⟩), copyable := false },
    { key := "Point", name := "Point", size := 8, align := 4
      shape := .struct [("x", i32), ("y", i32)] },
    { key := "Named", name := "NamedPoint", size := 32, align := 8
      shape := .struct [("point", .user "Point"), ("label", string)] },
    { key := "Plain", name := "Plain", size := 32, align := 8
      shape := .struct [("count", u32), ("type", string)] },
    { key := "Widget", name := "ui::Widget", size := 16, align := 8
      shape := .struct [("widget_id", u64), ("visible", bool)] },
    { key := "Button", name := "ui::Button", size := 40, align := 8
      shape := .struct [("widget", .user "Widget"), ("caption", string)] },
    { key := "Rgb", name := "Rgb", size := 3, align := 1, shape := .tuple [u8, u8, u8] },
    { key := "Vec2", name := "geo::Vec2", size := 24, align := 8, shape := .tuple [f32, f32] },
    { key := "Segment", name := "geo::Segment", size := 48, align := 8
      shape := .struct [("from", .user "Vec2"), ("to", .user "Vec2")] },
    { key := "Sensor", name := "plugin::Sensor", size := 8, align := 4
      shape := .struct [("raw", u16), ("gain", f32)] },
    { key := "Level", name := "Level", size := 1, align := 1
      shape := .variants ["Low", "Mid", "High"] },
    { key := "Axis", name := "geo::Axis", size := 2, align := 2
      shape := .variants ["Horizontal", "Vertical", "Hidden", "Else"] } ]

def sample? (key : String) : Option Sample := samples.find? (·.key = key)

/-- The facts of the gallery's types; a key that no sample has stands for an empty type. -/
def knownTypes : Universe where
  userType key :=
    match sample? key with
    | some s => ⟨s.name, s.size, s.align, s.copyable⟩
    | none => ⟨key, 0, 1, true⟩

/-- How a user type is made up; one that is not in the gallery holds nothing. -/
def shape (key : String) : Shape := ((sample? key).map Sample.shape).getD .unit

def typeId : TypeKey → String
  | .primitive kind => kind.name
  | .user key => key

def ofTypeId? (id : String) : Option TypeKey :=
  match PrimitiveKind.all.find? (·.name = id) with
  | some kind => some (.primitive kind)
  | none => (sample? id).map fun s => .user s.key

def primitiveDefault : PrimitiveKind → Value
  | .void => .void
  | .bool => .bool false
  | .char => .char '\x00'
  | .integer kind => .ofInt kind 0
  | .float .single => .single 0
  | .float .double => .double 0
  | .string => .string ""

def defaultOf : TypeKey → Value
  | .primitive kind => primitiveDefault kind
  | .user key =>
    match shape key with
    | .variants (name :: _) => .variant key name
    | _ => .object key []

/-- The member of this name and type, which has its default if the object lacks it. -/
def member (object : Value) (name : String) (type : TypeKey) : Value :=
  (object.member? name).getD (defaultOf type)

def memberLens (name : String) (type : TypeKey) : Lens :=
  ⟨fun object => member object name type, fun object part => object.withMember name part⟩

/-- The names and types of the members of a user type; those of a tuple are numbered. -/
def membersOf (key : String) : List (String × TypeKey) :=
  match shape key with
  | .wrapper kind => [("0", .primitive kind)]
  | .tuple members => members.zipIdx.map fun (type, index) => (toString index, type)
  | .struct members => members
  | .unit | .variants _ => []

def hasCore (key : String) : Bool :=
  match shape key with
  | .struct members => core.isSuffixOf members
  | _ => false

end TypeCatalog.Gallery
