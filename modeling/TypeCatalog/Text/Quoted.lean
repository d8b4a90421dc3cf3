import TypeCatalog.Text.Hex
import TypeCatalog.Text.Printable

/-!
Text between double quotes. A character that could not be read off the page is written as an
escape: the quote and the backslash, the common control characters by a letter, and any other
character that is not legible by its code point.
-/
namespace TypeCatalog.Text

def bareHex (n : Nat) : String := String.ofList (Nat.toDigits 16 n)

def quoteChar (c : Char) : String :=
  match c with
  | '\x00' => "\\0"
  | '\t' => "\\t"
  | '\r' => "\\r"
  | '\n' => "\\n"
  | '"' => "\\\""
  | '\\' => "\\\\"
  | _ => if isLegible c then c.toString else "\\u\x7b" ++ bareHex c.toNat ++ "\x7d"

def quote (text : String) : String := "\"" ++ String.join (text.toList.map quoteChar) ++ "\""

end TypeCatalog.Text
