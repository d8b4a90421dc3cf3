import TypeCatalog.Image.Decode
import TypeCatalog.Registry.Types

/-!
Merging an image into a registry. The whole image is read before anything changes, and a merge
that refuses conflicts finds them first, so a merge that fails leaves the registry as it was.
-/
namespace TypeCatalog

inductive ConflictResolution where
  | skipped
  | replaced
deriving DecidableEq

def ConflictResolution.name : ConflictResolution → String
  | .skipped => "Skipped"
  | .replaced => "Replaced"

/-- A type that was present before a merge, as it was then, and what the merge did with it. -/
structure Conflict where
  typeHash : TypeHash
  name : String
  existing : ModuleId
  incoming : ModuleId
  resolution : ConflictResolution
deriving DecidableEq

structure MergeReport where
  added : Nat := 0
  conflicted : Nat := 0
  replaced : Nat := 0
  conflicts : List Conflict := []
deriving DecidableEq

def MergeReport.isClean (report : MergeReport) : Bool :=
  report.conflicted = 0 && report.replaced = 0

namespace Image

def internAttributes (owner : ModuleId) :
    Interner → List ReadAttribute → List Attribute × Interner
  | names, [] => ([], names)
  | names, a :: rest =>
    let (first, names) := names.internAttribute a.key a.value owner
    let (others, names) := internAttributes owner names rest
    (first :: others, names)

abbrev RowDraft := Row × Interner

def addReadField (owner : ModuleId) (draft : RowDraft) (f : ReadField) : RowDraft :=
  let (row, names) := draft
  let (name, names) := names.intern f.name owner
  let (attributes, names) := internAttributes owner names f.attributes
  (row.addField ⟨name, f.type, f.offset, f.accessor, attributes⟩, names)

def addReadMethod (owner : ModuleId) (draft : RowDraft) (m : ReadMethod) : RowDraft :=
  let (row, names) := draft
  let (name, names) := names.intern m.name owner
  let (attributes, names) := internAttributes owner names m.attributes
  (row.addMethod ⟨name, m.params, m.returnType, m.flags, m.signature, m.callable, attributes⟩,
    names)

def addReadConstructor (owner : ModuleId) (draft : RowDraft) (c : ReadConstructor) : RowDraft :=
  let (row, names) := draft
  let (attributes, names) := internAttributes owner names c.attributes
  (row.addConstructor ⟨c.params, c.signature, c.callable, attributes⟩, names)

def buildRow (names : Interner) (type : ReadType) (owner : ModuleId) : RowDraft :=
  let (name, names) := names.intern type.name owner
  let skeleton : Row :=
    { name, typeHash := type.typeHash, owner, size := type.size, align := type.align
      flags := type.flags }
  let draft := type.fields.foldl (addReadField owner) (skeleton, names)
  let draft := type.methods.foldl (addReadMethod owner) draft
  let (row, names) := type.constructors.foldl (addReadConstructor owner) draft
  let (attributes, names) := internAttributes owner names type.attributes
  ({ row with attributes, published := true }, names)

def carryProperty (draft : RowDraft) (p : Property) : RowDraft :=
  let (row, names) := draft
  let (name, names) := names.intern p.name.text row.owner
  (row.addProperty { p with name }, names)

def carryEnumValue (draft : RowDraft) (e : EnumValue) : RowDraft :=
  let (row, names) := draft
  let (name, names) := names.intern e.name.text row.owner
  (row.addEnumValue { e with name }, names)

/-- Adds the members of the old row that an image does not carry. -/
def carryOver (draft : RowDraft) (old : Row) : RowDraft :=
  let (row, names) := old.properties.foldl carryProperty draft
  let row := old.bases.foldl Row.addBase row
  old.enumValues.foldl carryEnumValue (row, names)

end Image

namespace Registry

def replaces (options : MergeOptions) (old : Row) (incoming : ModuleId) : Bool :=
  options.policy = .replace && old.published && (old.owner = incoming || options.crossModule)

/-- Adds one type of an image, or resolves its conflict with the row that is there. -/
def mergeType (options : MergeOptions) (state : Registry × MergeReport)
    (type : Image.ReadType) : Registry × MergeReport :=
  let (r, report) := state
  let incoming := options.owner.getD type.owner
  let present := (r.byHash.find? type.typeHash).bind fun index =>
    (r.types.rowAt? index).map fun row => (index, row)
  match present with
  | none =>
    let (row, names) := Image.buildRow r.names type incoming
    let (_, r) := { r with names }.insertRow row
    (r, { report with added := report.added + 1 })
  | some (index, old) =>
    let conflict (resolution : ConflictResolution) : List Conflict :=
      if options.collectConflicts then
        [⟨type.typeHash, old.name.text, old.owner, incoming, resolution⟩]
      else []
    if replaces options old incoming then
      let (row, names) := Image.carryOver (Image.buildRow r.names type incoming) old
      ({ r with names }.replaceRow index row,
        { report with
          replaced := report.replaced + 1
          conflicts := report.conflicts ++ conflict .replaced })
    else
      (r, { report with
        conflicted := report.conflicted + 1
        conflicts := report.conflicts ++ conflict .skipped })

def conflicting (r : Registry) (types : List Image.ReadType) : List TypeHash :=
  (types.map Image.ReadType.typeHash).filter fun hash => (r.byHash.find? hash).isSome

def merge (r : Registry) (exports : ExportTable) (bytes : List UInt8) (options : MergeOptions) :
    Except MergeError MergeReport × Registry :=
  match Image.decode exports bytes with
  | .error e => (.error e, r)
  | .ok types =>
    match options.policy, r.conflicting types with
    | .reject, hash :: hashes => (.error (.duplicateType hash (hashes.length + 1)), r)
    | _, _ =>
      let (r, report) := types.foldl (mergeType options) (r, {})
      (.ok report, r)

end Registry

end TypeCatalog
