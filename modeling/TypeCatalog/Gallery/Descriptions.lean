import TypeCatalog.Gallery.Shape
import TypeCatalog.Script.Step

/-! How the types of the gallery that have members of their own describe themselves. -/
namespace TypeCatalog.Gallery

open Script

def toInt : Value → Int
  | .integer kind bits => kind.toInt bits
  | _ => 0

def toText : Value → String
  | .string text => text
  | _ => ""

def toSingle : Value → Float32
  | .single bits => .ofBits bits
  | _ => 0

def toDouble : Value → Float
  | .double bits => .ofBits bits
  | _ => 0

def ofInt32 (n : Int) : Value := .ofInt ⟨true, .w32⟩ n
def ofSingle (f : Float32) : Value := .single f.toBits

def int32 (object : Value) (name : String) : Int := toInt (member object name i32)

def float32 (object : Value) (name : String) : Float32 := toSingle (member object name f32)

def plainField (name : String) (type : TypeKey) (offset : Option UInt64) (notes : Notes) : Decl :=
  .field name type (memberLens name type) offset notes

def reader (name : String) (params : List TypeKey) (result : TypeKey)
    (f : Value → List Value → Value) : Decl :=
  .method .shared name params result (fun object args => ⟨f object args, object⟩) []

def changer (name : String) (params : List TypeKey) (f : Value → List Value → Value) : Decl :=
  .method .exclusive name params void (fun object args => ⟨.void, f object args⟩) []

def static (name : String) (params : List TypeKey) (result : TypeKey) (f : List Value → Value) :
    Decl :=
  .method .static name params result (fun object args => ⟨f args, object⟩) []

def point (x y : Int) : Value := .object "Point" [("x", ofInt32 x), ("y", ofInt32 y)]

def describePoint : List Decl :=
  [ plainField "x" i32 none [],
    plainField "y" i32 none [],
    .constructor [i32, i32]
      (fun | [x, y] => point (toInt x) (toInt y) | _ => .object "Point" []) [],
    static "mul" [i32, i32] i32 (fun | [a, b] => ofInt32 (toInt a * toInt b) | _ => .void),
    static "mul" [f64, f64] f64
      (fun | [a, b] => .double (toDouble a * toDouble b).toBits | _ => .void),
    reader "scaled" [i32] (.user "Point") (fun
      | p, [k] => point (int32 p "x" * toInt k) (int32 p "y" * toInt k)
      | p, _ => p),
    changer "translate" [i32, i32] (fun
      | p, [dx, dy] => point (int32 p "x" + toInt dx) (int32 p "y" + toInt dy)
      | p, _ => p),
    .property "sum" i32 (fun p => ofInt32 (int32 p "x" + int32 p "y"))
      (some fun _ v => point (toInt v) 0) [] ]

def describeNamed : List Decl :=
  [ .base (.user "Point") (memberLens "point" (.user "Point")),
    plainField "label" string none [] ]

def coordinates (v : Value) : Float32 × Float32 := (float32 v "0", float32 v "1")

def segmentEnd (segment : Value) (name : String) : Float32 × Float32 :=
  coordinates (member segment name (.user "Vec2"))

def segmentLength (segment : Value) : Float32 :=
  let (x, y) := segmentEnd segment "from"
  let (x', y') := segmentEnd segment "to"
  let dx := x' - x
  let dy := y' - y
  (dx * dx + dy * dy).sqrt

def joins (a b : Value) : Bool :=
  let (x, y) := segmentEnd a "to"
  let (x', y') := segmentEnd b "from"
  x == x' && y == y'

def describeSegment : List Decl :=
  [ plainField "from" (.user "Vec2") none [],
    plainField "to" (.user "Vec2") none [],
    .property "length" f32 (fun s => ofSingle (segmentLength s)) none [],
    reader "joins" [.user "Segment"] bool
      (fun | a, [b] => .bool (joins a b) | _, _ => .bool false) ]

def describePlain : List Decl :=
  [plainField "count" u32 (some 0) [], plainField "type" string (some 8) []]

def describeWidget : List Decl :=
  [ .field "id" u64 (memberLens "widget_id" u64) (some 0) [("readonly", .bool true)],
    plainField "visible" bool (some 8) [] ]

def describeButton : List Decl :=
  [ .base (.user "Widget") (memberLens "widget" (.user "Widget")),
    plainField "caption" string (some 16) [],
    reader "caption_len" [] u64 (fun b _ =>
      .ofInt ⟨false, .w64⟩ (toText (member b "caption" string)).utf8ByteSize),
    .annotate "clickable" (.bool true) ]

def describeRgb : List Decl :=
  [plainField "0" u8 (some 0) [], plainField "1" u8 (some 1) [], plainField "2" u8 (some 2) []]

def describeVec2 : List Decl :=
  [ .annotate "unit" (.string "metre"),
    .annotate "dims" (.int 2),
    .field "x" f32 (memberLens "0" f32) (some 0)
      [("min", .double (-100 : Float).toBits), ("max", .double (100 : Float).toBits)],
    .field "y" f32 (memberLens "1" f32) (some 4) [] ]

/-- What a sensor measures: its raw number times its gain. -/
def measured (sensor : Value) : Float32 :=
  Float32.ofInt (toInt (member sensor "raw" u16)) * float32 sensor "gain"

def describeSensor : List Decl :=
  [ .annotate "vendor" (.string "acme"),
    plainField "raw" u16 (some 0) [("min", .int 0), ("max", .int 4095)],
    plainField "gain" f32 (some 4) [],
    .constructor [u16, f32]
      (fun | [raw, gain] => .object "Sensor" [("raw", raw), ("gain", gain)]
           | _ => .object "Sensor" []) [],
    reader "scaled" [] f32 (fun s _ => ofSingle (measured s)),
    reader "scaled" [f32] f32 (fun
      | s, [offset] => ofSingle (measured s + toSingle offset)
      | s, _ => ofSingle (measured s)),
    changer "reset" [] (fun s _ => s.withMember "raw" (.ofInt ⟨false, .w16⟩ 0)) ]

def describeLevel : List Decl :=
  [.annotate "flags" (.bool false), .enumValue "Low" 0, .enumValue "Mid" 5, .enumValue "High" 6]

def describeAxis : List Decl :=
  [.enumValue "Horizontal" 1, .enumValue "vert-ical" (-2), .enumValue "Else" 8]

def describeUser : String → Description
  | "Point" => { decls := describePoint }
  | "Named" => { decls := describeNamed }
  | "Segment" => { decls := describeSegment }
  | "Plain" => { decls := describePlain }
  | "Widget" => { decls := describeWidget, initial := some (.object "Widget" []) }
  | "Button" => { decls := describeButton }
  | "Rgb" => { decls := describeRgb }
  | "Vec2" => { decls := describeVec2, initial := some (.object "Vec2" []) }
  | "Sensor" => { decls := describeSensor }
  | "Level" => { decls := describeLevel }
  | "Axis" => { decls := describeAxis }
  | _ => {}

/-- Built-in types declare nothing; all but void offer their default. -/
def describePrimitive (kind : PrimitiveKind) : Description :=
  { initial := if kind = .void then none else some (primitiveDefault kind) }

/-- The gallery, in which some types describe themselves as `scripts` say. -/
def world (scripts : List (String × Description)) : World where
  types := knownTypes
  describe
    | .primitive kind => describePrimitive kind
    | .user key =>
      match scripts.find? (·.1 = key) with
      | some (_, description) => description
      | none => describeUser key

end TypeCatalog.Gallery
