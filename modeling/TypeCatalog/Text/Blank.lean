/-!
White space as the Unicode property `White_Space` has it, and trimming by it.
-/
namespace TypeCatalog.Text

def blankRanges : List (Nat × Nat) :=
  [(0x09, 0x0d), (0x20, 0x20), (0x85, 0x85), (0xa0, 0xa0), (0x1680, 0x1680), (0x2000, 0x200a),
    (0x2028, 0x2029), (0x202f, 0x202f), (0x205f, 0x205f), (0x3000, 0x3000)]

/-- A blank is a character of the property `White_Space`. -/
def isBlank (c : Char) : Bool :=
  blankRanges.any fun (first, last) => first ≤ c.toNat && c.toNat ≤ last

def trimStart (text : List Char) : List Char := text.dropWhile isBlank

def trimEnd (text : List Char) : List Char := (text.reverse.dropWhile isBlank).reverse

def trim (text : List Char) : List Char := trimEnd (trimStart text)

def stripLeading? : (lead text : List Char) → Option (List Char)
  | [], text => some text
  | _ :: _, [] => none
  | l :: lead, c :: text => if l = c then stripLeading? lead text else none

theorem stripLeading?_eq_some_iff {lead text rest : List Char} :
    stripLeading? lead text = some rest ↔ text = lead ++ rest := by
  induction lead generalizing text with
  | nil => simp [stripLeading?]
  | cons l lead ih =>
    cases text with
    | nil => simp [stripLeading?]
    | cons c text =>
      by_cases h : l = c
      · simp [stripLeading?, h, ih]
      · simp [stripLeading?, h, Ne.symm h]

end TypeCatalog.Text
