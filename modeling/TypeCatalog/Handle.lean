import TypeCatalog.SlotTable

/-! Handles to the rows of a registry and to the members of a type. -/
namespace TypeCatalog

structure TypeHandle where
  slot : SlotRef
deriving DecidableEq, Inhabited

structure FunctionHandle where
  slot : SlotRef
deriving DecidableEq, Inhabited

/-- A handle to a member by its position in one of its type's collections. -/
structure MemberHandle where
  owner : TypeHandle
  position : Nat
deriving DecidableEq, Inhabited

def SlotRef.text (ref : SlotRef) : String := s!"({ref.index}v{ref.generation.toNat})"

def TypeHandle.text (h : TypeHandle) : String := "TypeHandle" ++ h.slot.text

def FunctionHandle.text (h : FunctionHandle) : String := "FunctionHandle" ++ h.slot.text

def MemberHandle.text (h : MemberHandle) : String :=
  "MemberHandle(" ++ h.owner.text ++ s!"#{h.position})"

def TypeHandle.member (h : TypeHandle) (position : Nat) : MemberHandle := ⟨h, position⟩

end TypeCatalog
