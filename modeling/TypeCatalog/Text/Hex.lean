/-! Hexadecimal text of a fixed width, as identifiers and float bits are written. -/
namespace TypeCatalog.Text

/-- The last `width` hexadecimal digits of a number, most significant first, in lower case. -/
def hexDigits : (width : Nat) → (n : Nat) → List Char
  | 0, _ => []
  | width + 1, n => hexDigits width (n / 16) ++ [Nat.digitChar (n % 16)]

def hex (width n : Nat) : String := "0x" ++ String.ofList (hexDigits width n)

def hexValue? (c : Char) : Option Nat :=
  if '0' ≤ c ∧ c ≤ '9' then some (c.toNat - '0'.toNat)
  else if 'a' ≤ c ∧ c ≤ 'f' then some (c.toNat - 'a'.toNat + 10)
  else if 'A' ≤ c ∧ c ≤ 'F' then some (c.toNat - 'A'.toNat + 10)
  else none

def ofHexDigits? (digits : List Char) : Option Nat :=
  digits.foldlM (fun n c => (hexValue? c).map (16 * n + ·)) 0

def ofHex? (text : String) : Option Nat :=
  match text.toList with
  | '0' :: 'x' :: digits => ofHexDigits? digits
  | _ => none

end TypeCatalog.Text
