import TypeCatalog.Proofs.Catalog

/-!
What the modules' entries say of the types. In every state that can be reached, each module's entry
counts exactly the published rows that the module owns, and a module without an entry owns none; so
a count is never lowered when it is zero already.
-/
namespace TypeCatalog

namespace SlotTable

variable {ρ : Type} {t : SlotTable ρ} {p : ρ → Bool} {index : Nat} {old : ρ}

def count (t : SlotTable ρ) (p : ρ → Bool) : Nat := t.slots.countP fun slot => slot.row.any p

theorem countP_modify {α : Type} {p : α → Bool} {l : List α} {i : Nat} {a : α}
    (here : l[i]? = some a) (f : α → α) :
    (l.modify i f).countP p + (if p a then 1 else 0) = l.countP p + if p (f a) then 1 else 0 := by
  induction l generalizing i with
  | nil => simp at here
  | cons first rest ih =>
    cases i with
    | zero =>
      cases Option.some.inj here
      rw [List.modify_zero_cons, List.countP_cons, List.countP_cons]
      omega
    | succ i =>
      have later := ih (i := i) (by simpa using here)
      rw [List.modify_succ_cons, List.countP_cons, List.countP_cons]
      omega

theorem slot_of_rowAt? (present : t.rowAt? index = some old) :
    ∃ slot, t.slots[index]? = some slot ∧ slot.row = some old :=
  Option.bind_eq_some_iff.mp present

theorem count_insert (exact : t.FreeExact) (row : ρ) :
    (t.insert row).2.count p = t.count p + if p row then 1 else 0 := by
  cases free : t.free with
  | nil =>
    rw [insert_of_full free, count, count, List.countP_append]
    simp [List.countP_cons]
  | cons index rest =>
    obtain ⟨within, empty⟩ := (exact.mem_iff index).mp (free ▸ List.mem_cons_self)
    have here := List.getElem?_eq_getElem within
    have unused : t.slots[index].row = none := by simpa [rowAt?, here] using empty
    have counted := countP_modify (p := fun slot => slot.row.any p) here
      fun slot => { slot with row := some row }
    rw [insert_of_free free, count, count]
    simpa [unused] using counted

theorem count_modify (present : t.rowAt? index = some old) (change : ρ → ρ) :
    (t.modify index change).count p + (if p old then 1 else 0) =
      t.count p + if p (change old) then 1 else 0 := by
  obtain ⟨slot, here, held⟩ := slot_of_rowAt? present
  have counted := countP_modify (p := fun slot => slot.row.any p) here
    fun slot => { slot with row := slot.row.map change }
  simpa [count, modify, held] using counted

theorem count_replace (present : t.rowAt? index = some old) (row : ρ) :
    (t.replace index row).count p + (if p old then 1 else 0) =
      t.count p + if p row then 1 else 0 := by
  obtain ⟨slot, here, held⟩ := slot_of_rowAt? present
  have counted := countP_modify (p := fun slot => slot.row.any p) here
    fun slot => ⟨slot.generation + 1, some row⟩
  simpa [count, replace, held] using counted

theorem count_remove (present : t.rowAt? index = some old) :
    (t.remove index).count p + (if p old then 1 else 0) = t.count p := by
  obtain ⟨slot, here, held⟩ := slot_of_rowAt? present
  have counted := countP_modify (p := fun slot => slot.row.any p) here
    fun slot => ⟨slot.generation + 1, none⟩
  simpa [count, remove, held] using counted

theorem count_eq_length (t : SlotTable ρ) (p : ρ → Bool) :
    t.count p = (t.rows.filter fun (_, row) => p row).length := by
  obtain ⟨slots, free⟩ := t
  rw [count, rows, ← List.countP_eq_length_filter, List.countP_filterMap]
  simp only
  -- The numbers that the slots are given do not matter.
  generalize 0 = start
  induction slots generalizing start with
  | nil => rfl
  | cons slot rest ih =>
    rw [List.zipIdx_cons, List.countP_cons, List.countP_cons, ih (start + 1)]
    cases slot.row <;> rfl

theorem count_eq_zero (none : ∀ index row, t.rowAt? index = some row → p row = false) :
    t.count p = 0 := by
  rw [count_eq_length, List.length_eq_zero_iff, List.filter_eq_nil_iff]
  rintro ⟨ref, row⟩ listed
  have present := (get?_eq_some_iff.mp (mem_rows.mp listed)).1
  simp [none ref.index row present]

end SlotTable

namespace Registry

variable {r s : Registry}

/-- The entry of a module; a module without one counts nothing. -/
def entry (r : Registry) (m : ModuleId) : ModuleInfo := (r.moduleInfo? m).getD {}

theorem entry_congr (same : s.modules = r.modules) (m : ModuleId) : s.entry m = r.entry m := by
  rw [entry, entry, moduleInfo?, moduleInfo?, same]

theorem entry_updateModule (r : Registry) (m k : ModuleId) (change : ModuleInfo → ModuleInfo) :
    (r.updateModule m change).entry k = if k = m then change (r.entry m) else r.entry k := by
  simp only [entry, moduleInfo?, updateModule, Index.update, Index.find?_insert]
  split <;> rfl

/-- What a change of an entry keeps, it keeps of all entries. -/
theorem kept_updateModule {α : Type} (part : ModuleInfo → α) {change : ModuleInfo → ModuleInfo}
    (keeps : ∀ info, part (change info) = part info) (r : Registry) (m k : ModuleId) :
    part ((r.updateModule m change).entry k) = part (r.entry k) := by
  rw [entry_updateModule]
  split
  · rename_i same
    rw [keeps, same]
  · rfl

/-- A change that would leave an empty entry as it is need not ask whether there is one. -/
theorem entry_modifyModule (r : Registry) (m k : ModuleId) {change : ModuleInfo → ModuleInfo}
    (idle : change {} = {}) :
    (r.modifyModule m change).entry k = if k = m then change (r.entry m) else r.entry k := by
  simp only [entry, moduleInfo?, modifyModule, Index.modify]
  cases found : r.modules.find? m with
  | none =>
    by_cases same : k = m
    · rw [if_pos same, same, Option.getD_none, idle]
      simp [found]
    · rw [if_neg same]
  | some info =>
    dsimp only
    rw [Index.find?_insert]
    split <;> rfl

/-- The rows that the entry of a module counts. -/
def owned (m : ModuleId) (row : Row) : Bool := row.published && row.owner = m

theorem owned_of_published {m : ModuleId} {row : Row} (published : row.published = true) :
    (owned m row = true) = (m = row.owner) := by
  simp [owned, published, eq_comm]

theorem owned_of_pending {m : ModuleId} {row : Row} (pending : row.published = false) :
    owned m row = false := by
  simp [owned, pending]

def Tallied (r : Registry) : Prop := ∀ m, (r.entry m).types = r.types.count (owned m)

theorem types_addTypeTo (r : Registry) (m k : ModuleId) :
    ((r.addTypeTo m).entry k).types = (r.entry k).types + if k = m then 1 else 0 := by
  rw [addTypeTo, entry_updateModule]
  split
  · rename_i same
    rw [same]
  · rfl

theorem types_dropTypeFrom (r : Registry) (m k : ModuleId) :
    ((r.dropTypeFrom m).entry k).types = (r.entry k).types - if k = m then 1 else 0 := by
  rw [dropTypeFrom, entry_modifyModule r m k rfl]
  split
  · rename_i same
    rw [same]
  · rfl

@[simp] theorem modules_indexName (r : Registry) (name : NameId) (index : Nat) :
    (r.indexName name index).modules = r.modules := by
  unfold indexName
  split <;> rfl

@[simp] theorem modules_unindexName (r : Registry) (name : NameId) (index : Nat) :
    (r.unindexName name index).modules = r.modules := by
  unfold unindexName
  repeat (split <;> try rfl)

@[simp] theorem modules_exchange (r : Registry) (types : SlotTable Row) (index : Nat)
    (old new : Row) : (r.exchange types index old new).modules = r.modules := by
  unfold exchange
  split <;> simp

theorem Tallied.congr (tallied : r.Tallied) (types : s.types = r.types)
    (counts : ∀ m, (s.entry m).types = (r.entry m).types) : s.Tallied := by
  intro m
  rw [counts, types]
  exact tallied m

theorem Tallied.withNames (tallied : r.Tallied) (names : Interner) :
    Registry.Tallied { r with names } :=
  tallied.congr rfl fun _ => rfl

theorem insertRow_tallied (tallied : r.Tallied) (free : r.types.FreeExact) (row : Row) :
    (r.insertRow row).2.Tallied := by
  intro m
  rw [types_insertRow, SlotTable.count_insert free row, ← tallied m, insertRow_eq]
  dsimp only
  cases published : row.published with
  | true =>
    simp only [owned_of_published published, if_true, types_addTypeTo]
    rw [entry_congr (modules_indexName ..)]
    rfl
  | false =>
    rw [owned_of_pending published, if_neg Bool.false_ne_true, if_neg Bool.false_ne_true,
      entry_congr (modules_indexName ..)]
    rfl

theorem replaceRow_tallied (tallied : r.Tallied) {index : Nat} {old row : Row}
    (present : r.types.rowAt? index = some old) (before : old.published = true)
    (after : row.published = true) : (r.replaceRow index row).Tallied := by
  intro m
  have counted := SlotTable.count_replace (p := owned m) present row
  simp only [← tallied m, owned_of_published before, owned_of_published after] at counted
  rw [types_replaceRow present, replaceRow_eq present]
  dsimp only
  split
  · rename_i same
    rw [entry_congr (modules_exchange ..)]
    rw [same] at counted
    exact (Nat.add_right_cancel counted).symm
  · rename_i differ
    rw [types_addTypeTo, types_dropTypeFrom, entry_congr (modules_exchange ..)]
    by_cases first : m = old.owner
    · have other : m ≠ row.owner := fun second => differ (first.symm.trans second)
      rw [if_pos first, if_neg other] at counted ⊢
      omega
    · rw [if_neg first] at counted ⊢
      omega

theorem commit_tallied (tallied : r.Tallied) (h : TypeHandle) (draft : Draft) :
    (r.commit h draft).Tallied := by
  cases alive : r.anyRow? h with
  | none => rw [commit_dead alive]; exact tallied
  | some old =>
    intro m
    have present := (SlotTable.get?_eq_some_iff.mp alive).1
    have after : (old.publish draft).published = true := rfl
    have counted := SlotTable.count_modify (p := owned m) present fun _ => old.publish draft
    simp only [← tallied m, owned_of_published after] at counted
    rw [types_commit alive, commit_eq alive]
    dsimp only
    cases before : old.published with
    | true =>
      rw [if_pos rfl, entry_congr (modules_exchange ..)]
      simp only [owned_of_published before, (Row.publish_grows old draft).owner] at counted
      exact (Nat.add_right_cancel counted).symm
    | false =>
      simp only [owned_of_pending before] at counted
      rw [if_neg Bool.false_ne_true, types_addTypeTo, entry_congr (modules_exchange ..)]
      exact counted.symm

theorem removeRow_tallied (tallied : r.Tallied) (index : Nat) : (r.removeRow index).Tallied := by
  cases present : r.types.rowAt? index with
  | none => rw [removeRow_empty present]; exact tallied
  | some row =>
    intro m
    have counted := SlotTable.count_remove (p := owned m) present
    rw [← tallied m] at counted
    have kept : ∀ s : Registry, s.modules = r.modules →
        ((s.unindexName row.name.id index).entry m).types = (r.entry m).types := by
      intro s same
      rw [entry_congr ((modules_unindexName ..).trans same)]
    rw [types_removeRow present, removeRow_eq present]
    dsimp only
    cases published : row.published with
    | true =>
      simp only [owned_of_published published] at counted
      rw [if_pos rfl, types_dropTypeFrom, kept _ (by split <;> rfl)]
      omega
    | false =>
      rw [owned_of_pending published] at counted
      rw [if_neg Bool.false_ne_true, kept _ (by split <;> rfl)]
      exact counted.symm

theorem removeFunction_tallied (tallied : r.Tallied) (index : Nat) :
    (r.removeFunction index).Tallied := by
  refine tallied.congr (removeFunction_frame r index).1 fun m => ?_
  unfold removeFunction
  split
  · rfl
  · rw [entry_modifyModule _ _ _ rfl]
    split
    · rename_i same
      rw [same]
      rfl
    · rfl

theorem unregisterModule_tallied (tallied : r.Tallied) (m : ModuleId) :
    (r.unregisterModule m).2.Tallied := by
  have emptied : (r.withoutRowsOf m).Tallied := by
    refine List.foldlRecOn _ removeFunction (motive := Tallied) ?_
      fun s tallied index _ => removeFunction_tallied tallied index
    exact List.foldlRecOn _ removeRow (motive := Tallied) tallied
      fun s tallied index _ => removeRow_tallied tallied index
  have swept := types_unregisterModule r m
  rw [unregisterModule_eq] at swept ⊢
  intro k
  by_cases same : k = m
  · rw [same, swept, SlotTable.count_eq_zero]
    · simp [entry, moduleInfo?]
    · intro index row present
      have other := (SlotTable.rowAt?_sweep.mp present).2
      simp only [owned, other, Bool.and_false]
  · have kept := emptied k
    rw [entry, moduleInfo?] at kept ⊢
    rw [Index.find?_erase, if_neg same]
    exact kept

theorem carryOver_published {draft : Image.RowDraft} (published : draft.1.published = true)
    (old : Row) : (Image.carryOver draft old).1.published = true := by
  refine Image.carryOver_induction (P := fun d => d.1.published = true) published old ?_ ?_ ?_
  · exact fun d holds p _ => (Row.addProperty_grows d.1 _).published holds
  · exact fun d holds b _ => (Row.addBase_grows d.1 b).published holds
  · exact fun d holds e => (Row.addEnumValue_grows d.1 _).published holds

theorem Merged.tallied {options : MergeOptions} {type : Image.ReadType} (consistent : r.Consistent)
    (tallied : r.Tallied) (merged : Merged options type r s) : s.Tallied := by
  cases merged with
  | added fresh => exact insertRow_tallied (tallied.withNames _) (consistent.withNames _).free _
  | @replaced index old present same published allowed =>
    exact replaceRow_tallied (tallied.withNames _) present published (carryOver_published rfl old)
  | kept present same => exact tallied

theorem merge_tallied (consistent : r.Consistent) (tallied : r.Tallied) (exports : ExportTable)
    (bytes : List UInt8) (options : MergeOptions) : (r.merge exports bytes options).2.Tallied := by
  rcases merge_merged consistent exports bytes options with same | ⟨types, -, merged⟩
  · rw [same]
    exact tallied
  · generalize (r.merge exports bytes options).2 = s at merged
    induction merged with
    | none => exact tallied
    | next before _ last ih => exact last.tallied (before.consistent consistent) ih

end Registry

theorem Operation.run_tallied {r : Registry} (consistent : r.Consistent) (tallied : r.Tallied)
    (op : Operation) : (op.run r).Tallied := by
  cases op with
  | configure config => exact tallied.congr rfl fun _ => rfl
  | intern text user => exact tallied.withNames _
  | declare m name =>
    refine tallied.congr rfl fun k => ?_
    apply Registry.kept_updateModule ModuleInfo.types
    exact fun _ => rfl
  | markInitialized m =>
    refine tallied.congr rfl fun k => ?_
    apply Registry.kept_updateModule ModuleInfo.types
    exact fun _ => rfl
  | addFunction owner name params returnType callable =>
    refine tallied.congr (r.addFunction_frame owner name params returnType callable).1 fun k => ?_
    rw [Operation.run, Registry.addFunction]
    dsimp only
    split
    · rfl
    · rw [Registry.insertFunction]
      dsimp only
      rw [Registry.entry_updateModule]
      split
      · rename_i same
        rw [same]
        rfl
      · rfl
  | unregister m => exact Registry.unregisterModule_tallied tallied m
  | merge exports bytes options => exact Registry.merge_tallied consistent tallied exports bytes options
  | skeleton u type owner =>
    exact Registry.insertRow_tallied (tallied.withNames _) (consistent.withNames _).free _
  | commit h draft => exact Registry.commit_tallied tallied h draft
  | discard h =>
    rw [Operation.run, Registry.discardPending]
    split
    · split
      · exact tallied
      · exact Registry.removeRow_tallied tallied _
    · exact tallied

namespace Catalog

variable {u : Universe} {c : Catalog}

theorem Reachable.tallied (reachable : Reachable u c) (n : Nat) : (c.registry n).Tallied := by
  induction reachable generalizing n with
  | refl => exact fun _ => rfl
  | tail before step ih =>
    rcases step.changed n with same | ⟨op, _, _, after⟩
    · exact same ▸ ih n
    · exact after ▸ op.run_tallied (Reachable.allConsistent before n) (ih n)

end Catalog

end TypeCatalog
