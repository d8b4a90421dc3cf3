/-! Written forms of values: texts, truth values, lists and records. -/
namespace TypeCatalog

inductive Literal where
  | null
  | bool (value : Bool)
  | text (content : String)
  | list (items : List Literal)
  | record (fields : List (String × Literal))
deriving Inhabited

namespace Literal

def escapeChar (c : Char) : String :=
  match c with
  | '"' => "\\\""
  | '\\' => "\\\\"
  | '\n' => "\\n"
  | '\r' => "\\r"
  | '\t' => "\\t"
  | '\x08' => "\\b"
  | '\x0c' => "\\f"
  | _ =>
    if c.toNat < 32 then
      "\\u00" ++ String.ofList [Nat.digitChar (c.toNat / 16), Nat.digitChar (c.toNat % 16)]
    else c.toString

def quoted (text : String) : String := "\"" ++ String.join (text.toList.map escapeChar) ++ "\""

mutual

def render : Literal → String
  | .null => "null"
  | .bool value => if value then "true" else "false"
  | .text content => quoted content
  | .list items => "[" ++ ",".intercalate (renderList items) ++ "]"
  | .record fields => "\x7b" ++ ",".intercalate (renderFields fields) ++ "\x7d"

def renderList : List Literal → List String
  | [] => []
  | item :: items => item.render :: renderList items

def renderFields : List (String × Literal) → List String
  | [] => []
  | (name, value) :: fields => (quoted name ++ ":" ++ value.render) :: renderFields fields

end

end Literal

end TypeCatalog
