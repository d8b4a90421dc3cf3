import TypeCatalog.Text.Hex
import TypeCatalog.Hash.Xxh64

/-! Modules own rows, functions and names. The host owns what no named module does. -/
namespace TypeCatalog

/-- The identity of a module; zero is the host. -/
structure ModuleId where
  value : UInt64
deriving DecidableEq, Inhabited

namespace ModuleId

def marker : UInt64 := 0x1a095090689d4647

def host : ModuleId := ⟨0⟩

def isHost (m : ModuleId) : Bool := m.value == 0

theorem isHost_iff {m : ModuleId} : m.isHost = true ↔ m = .host := by
  obtain ⟨value⟩ := m
  simp [isHost, host]

/-- The module of this name, which is never the host. -/
def ofName (name : String) : ModuleId :=
  let hash := marker ^^^ Xxh64.hashText name
  ⟨if hash = 0 then 1 else hash⟩

theorem ofName_ne_host (name : String) : ofName name ≠ host := by
  intro h
  have h := congrArg ModuleId.value h
  simp only [ofName, host] at h
  split at h
  · exact absurd h (by decide)
  · contradiction

def text (m : ModuleId) : String :=
  if m.isHost then "ModuleId(host)" else "ModuleId(" ++ Text.hex 16 m.value.toNat ++ ")"

end ModuleId

end TypeCatalog
