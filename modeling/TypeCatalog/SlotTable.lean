/-!
Rows in numbered slots. A slot counts its generations: replacing or removing its row begins a new
one, so a reference that names slot and generation tells its own row from any later one in the
same slot. Emptied slots are used again, the last one first.
-/
namespace TypeCatalog

/-- A reference to the row that a slot holds in one generation. -/
structure SlotRef where
  index : Nat
  generation : UInt32
deriving DecidableEq, Inhabited

structure Slot (ρ : Type) where
  generation : UInt32
  row : Option ρ

structure SlotTable (ρ : Type) where
  slots : List (Slot ρ)
  /-- The empty slots, the next to be used first. -/
  free : List Nat

namespace SlotTable

variable {ρ : Type}

def empty : SlotTable ρ := ⟨[], []⟩

instance : Inhabited (SlotTable ρ) := ⟨empty⟩

/-- The row in a slot, of whatever generation. -/
def rowAt? (t : SlotTable ρ) (index : Nat) : Option ρ := t.slots[index]?.bind Slot.row

def refAt? (t : SlotTable ρ) (index : Nat) : Option SlotRef :=
  match t.slots[index]? with
  | some ⟨generation, some _⟩ => some ⟨index, generation⟩
  | _ => none

/-- The row behind a reference, while its generation lasts. -/
def get? (t : SlotTable ρ) (ref : SlotRef) : Option ρ :=
  match t.slots[ref.index]? with
  | some slot => if slot.generation = ref.generation then slot.row else none
  | none => none

def rows (t : SlotTable ρ) : List (SlotRef × ρ) :=
  t.slots.zipIdx.filterMap fun (slot, index) =>
    slot.row.map fun row => (⟨index, slot.generation⟩, row)

def positions (t : SlotTable ρ) (p : ρ → Bool) : List Nat :=
  (t.rows.filter fun (_, row) => p row).map fun (ref, _) => ref.index

/-- Puts a row into an empty slot, or into a new one if there is none. -/
def insert (t : SlotTable ρ) (row : ρ) : SlotRef × SlotTable ρ :=
  match t.free with
  | index :: free =>
    let slots := t.slots.modify index fun slot => { slot with row := some row }
    (⟨index, (slots[index]?.map Slot.generation).getD 0⟩, ⟨slots, free⟩)
  | [] => (⟨t.slots.length, 0⟩, { t with slots := t.slots ++ [⟨0, some row⟩] })

def modify (t : SlotTable ρ) (index : Nat) (change : ρ → ρ) : SlotTable ρ :=
  { t with slots := t.slots.modify index fun slot => { slot with row := slot.row.map change } }

def replace (t : SlotTable ρ) (index : Nat) (row : ρ) : SlotTable ρ :=
  { t with slots := t.slots.modify index fun slot => ⟨slot.generation + 1, some row⟩ }

def remove (t : SlotTable ρ) (index : Nat) : SlotTable ρ :=
  { slots := t.slots.modify index fun slot => ⟨slot.generation + 1, none⟩
    free := index :: t.free }

end SlotTable

end TypeCatalog
