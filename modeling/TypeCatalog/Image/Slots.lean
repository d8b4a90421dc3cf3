import TypeCatalog.Member.Part
import TypeCatalog.Member.Callable

/-!
Callables and accessors cannot be written into an image. Each one that is exported gets a slot
for ever, and an image holds the slot's number. All registries share the slots.
-/
namespace TypeCatalog

inductive Exported where
  | callable (callable : Callable)
  | accessor (accessor : Accessor)

def Exported.number : Exported → Nat
  | .callable c => c.number
  | .accessor a => a.number

/-- What has been exported so far, by slot. -/
structure ExportTable where
  entries : List Exported

namespace ExportTable

def empty : ExportTable := ⟨[]⟩

instance : Inhabited ExportTable := ⟨empty⟩

/-- The slot of an exported thing, which is a new one if it has none. -/
def slotOf (t : ExportTable) (e : Exported) : UInt64 × ExportTable :=
  match t.entries.findIdx? (·.number = e.number) with
  | some slot => (UInt64.ofNat slot, t)
  | none => (UInt64.ofNat t.entries.length, ⟨t.entries ++ [e]⟩)

def callable? (t : ExportTable) (slot : UInt64) : Option Callable :=
  match t.entries[slot.toNat]? with
  | some (.callable c) => some c
  | _ => none

def accessor? (t : ExportTable) (slot : UInt64) : Option Accessor :=
  match t.entries[slot.toNat]? with
  | some (.accessor a) => some a
  | _ => none

end ExportTable

end TypeCatalog
