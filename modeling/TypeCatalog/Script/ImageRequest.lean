import TypeCatalog.Script.Session
import TypeCatalog.Image.Export

/-! Steps that write the types of a registry as an image, alter images and merge them. -/
namespace TypeCatalog.Script

inductive Patch where
  | truncate (length : Nat)
  | append (bytes : List UInt8)
  /-- Writes bytes over those at an offset; what would lie past the end is dropped. -/
  | overwrite (offset : Nat) (bytes : List UInt8)

def Patch.apply (bytes : List UInt8) : Patch → List UInt8
  | .truncate length => bytes.take length
  | .append more => bytes ++ more
  | .overwrite offset content =>
    (bytes.take offset ++ content ++ bytes.drop (offset + content.length)).take bytes.length

inductive ImageSource where
  | stored (image : String)
  | literal (bytes : List UInt8)

/-- What a merge does differently from its registry's settings. -/
structure MergeOverrides where
  policy : Option ConflictPolicy := none
  crossModule : Option Bool := none
  collectConflicts : Option Bool := none
  owner : Option ModuleId := none

/-- The options with what is given in place of what they say. -/
def MergeOverrides.apply (given : MergeOverrides) (options : MergeOptions) : MergeOptions :=
  { policy := given.policy.getD options.policy
    crossModule := given.crossModule.getD options.crossModule
    collectConflicts := given.collectConflicts.getD options.collectConflicts
    owner := given.owner <|> options.owner }

inductive ImageRequest where
  | write (withBytes : Bool)
  | merge (source : ImageSource) (patches : List Patch) (overrides : MergeOverrides)

namespace ImageRequest

def answer (n : Nat) : ImageRequest → Play Reply
  | write withBytes => do
    let s ← get
    let (bytes, exports) := Image.ofRegistry (s.registry n) s.exports
    set { s with exports }
    return .image bytes withBytes
  | merge source patches overrides => do
    let s ← get
    let bytes ← match source with
      | .stored word => Play.orMissing .image word (s.images.find? word)
      | .literal bytes => pure bytes
    let patched := patches.foldl Patch.apply bytes
    let options := overrides.apply (s.registry n).config.mergeOptions
    match ← Play.changeRegistry n (·.merge s.exports patched options) with
    | .ok report => return .merged report
    | .error cause => Play.fail (.merge cause)

end ImageRequest

end TypeCatalog.Script
