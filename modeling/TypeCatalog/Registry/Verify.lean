import TypeCatalog.Registry.Basic

/-! Checking that the member indexes of a registry's rows stay within the members. -/
namespace TypeCatalog.Registry

/-- The index entry of a row that points past its members, if there is one. -/
def overflow? (row : Row) : Option VerifyError :=
  let past (members : IndexedMembers) (positions : List Nat) (length : Nat) :=
    (positions.find? (length ≤ ·)).map fun index =>
      VerifyError.mk members row.name.text index length
  (past .fields row.fieldIndex.values row.fields.length)
    <|> (past .properties row.propertyIndex.values row.properties.length)
    <|> (past .methodOverloads row.methodIndex.values.flatten row.methods.length)

/-- Checks that every member index of every published row stays within its members. -/
def verify (r : Registry) : Except VerifyError Unit :=
  match r.publishedRows.findSome? fun (_, row) => overflow? row with
  | some e => .error e
  | none => .ok ()

end TypeCatalog.Registry
