import TypeCatalog.Index
import TypeCatalog.Proofs.SlotTable

/-! Look-up tables that lead from the key of a row to the slot of the row. -/
namespace TypeCatalog.SlotTable

variable {ρ κ : Type} [DecidableEq κ]

/-- Whether a look-up table leads from a key exactly to the slot of the row that has it. -/
def KeyedBy (t : SlotTable ρ) (key : ρ → κ) (leads : Index κ Nat) : Prop :=
  ∀ k slot, leads.find? k = some slot ↔ ∃ row, t.rowAt? slot = some row ∧ key row = k

namespace KeyedBy

variable {t later : SlotTable ρ} {key : ρ → κ} {leads : Index κ Nat} {index : Nat} {row : ρ}

theorem empty : (SlotTable.empty : SlotTable ρ).KeyedBy key .empty := by
  intro k slot
  simp

theorem insert (keyed : t.KeyedBy key leads) (unused : t.rowAt? index = none)
    (fresh : leads.find? (key row) = none)
    (rows : ∀ slot, later.rowAt? slot = if slot = index then some row else t.rowAt? slot) :
    later.KeyedBy key (leads.insert (key row) index) := by
  intro k slot
  rw [Index.find?_insert, rows]
  by_cases here : slot = index
  · subst here
    have elsewhere : leads.find? k ≠ some slot := by
      intro found
      obtain ⟨old, present, _⟩ := (keyed k slot).mp found
      simp [unused] at present
    by_cases same : k = key row
    · simp [same]
    · simp [same, Ne.symm same, elsewhere]
  · rw [if_neg here, ← keyed]
    by_cases same : k = key row
    · simp [same, Ne.symm here, fresh]
    · simp [same]

theorem erase (keyed : t.KeyedBy key leads) (present : t.rowAt? index = some row)
    (rows : ∀ slot, later.rowAt? slot = if slot = index then none else t.rowAt? slot) :
    later.KeyedBy key (leads.erase (key row)) := by
  have here : leads.find? (key row) = some index := (keyed _ _).mpr ⟨row, present, rfl⟩
  intro k slot
  rw [Index.find?_erase, rows]
  by_cases removed : slot = index
  · subst removed
    have gone : k ≠ key row → leads.find? k ≠ some slot := by
      intro differs found
      obtain ⟨old, there, same⟩ := (keyed k slot).mp found
      rw [present] at there
      exact differs (by rw [← same, Option.some.inj there])
    by_cases same : k = key row
    · simp [same]
    · simp [same, gone same]
  · rw [if_neg removed, ← keyed]
    by_cases same : k = key row
    · subst same
      simp [here, Ne.symm removed]
    · rw [if_neg same]

end KeyedBy

end TypeCatalog.SlotTable
