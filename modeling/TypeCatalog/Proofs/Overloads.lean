import TypeCatalog.Proofs.Catalog
import TypeCatalog.Proofs.Ownership

/-!
The global functions and the tables that lead to them. The overloads of a name are exactly the
functions of that name, a signature leads exactly to the function that has it, and the owner of a
function holds its name. Whatever is done to a registry keeps that.
-/
namespace TypeCatalog.Registry

variable {r : Registry}

/-- The slots of the overloads of a name, in the order of their registration. -/
def overloads (r : Registry) (name : NameId) : List Nat := (r.overloadSets.find? name).getD []

theorem functionsNamed_eq (r : Registry) (text : String) :
    r.functionsNamed text =
      (((r.names.find? text).toList.flatMap r.overloads).filterMap r.functions.refAt?).map
        FunctionHandle.mk := by
  unfold functionsNamed overloads
  cases r.names.find? text with
  | none => rfl
  | some id => cases found : r.overloadSets.find? id <;> simp [found]

/-- What holds of the functions of a registry. -/
structure FunctionsHeld (r : Registry) : Prop where
  free : r.functions.FreeExact
  listed : ∀ name index, index ∈ r.overloads name ↔
    ∃ row, r.functions.rowAt? index = some row ∧ row.name.id = name
  keyed : r.functions.KeyedBy FunctionRow.signature r.bySignature
  held : ∀ index row, r.functions.rowAt? index = some row → r.names.Holds row.owner row.name

theorem empty_functionsHeld (config : RegistryConfig) : FunctionsHeld { config } where
  free := SlotTable.empty_freeExact
  listed name index := by simp [overloads]
  keyed := .empty
  held index row present := by simp at present

theorem FunctionsHeld.of_tables {s : Registry} (held : r.FunctionsHeld)
    (tables : s.functionTables = r.functionTables) (keeps : r.names.Keeps s.names) :
    s.FunctionsHeld := by
  simp only [functionTables, Prod.mk.injEq] at tables
  obtain ⟨functions, overloadSets, bySignature⟩ := tables
  constructor
  · rw [functions]
    exact held.free
  · simp only [overloads, overloadSets, functions]
    exact held.listed
  · rw [functions, bySignature]
    exact held.keyed
  · rw [functions]
    exact fun index row present => keeps.holds (held.held index row present)

/-- Names that are entered later lead to no functions, so each text leads to those it led to. -/
theorem FunctionsHeld.functionsNamed_of_tables {s : Registry} (held : r.FunctionsHeld)
    (tables : s.functionTables = r.functionTables) (keeps : r.names.Keeps s.names)
    (text : String) : s.functionsNamed text = r.functionsNamed text := by
  simp only [functionTables, Prod.mk.injEq] at tables
  obtain ⟨functions, overloadSets, -⟩ := tables
  have lists : s.overloads = r.overloads := by
    funext name
    rw [overloads, overloads, overloadSets]
  have leads : ∀ name, r.overloads name ≠ [] →
      (s.names.find? text = some name ↔ r.names.find? text = some name) := by
    intro name listed
    obtain ⟨index, member⟩ := List.exists_mem_of_ne_nil _ listed
    obtain ⟨row, present, rfl⟩ := (held.listed name index).mp member
    have own := held.held index row present
    rw [own.find?_iff, (keeps.holds own).find?_iff]
  have empty : ∀ name, ¬ (s.names.find? text = some name ↔ r.names.find? text = some name) →
      r.overloads name = [] :=
    fun name differs => by_contra fun listed => differs (leads name listed)
  rw [functionsNamed_eq, functionsNamed_eq, functions, lists]
  suffices same : (s.names.find? text).toList.flatMap r.overloads =
      (r.names.find? text).toList.flatMap r.overloads by rw [same]
  cases before : r.names.find? text with
  | none =>
    cases after : s.names.find? text with
    | none => rfl
    | some name => simp [empty name (by simp [before, after])]
  | some old =>
    cases after : s.names.find? text with
    | none => simp [empty old (by simp [before, after])]
    | some name =>
      by_cases same : name = old
      · rw [same]
      · simp [empty name (by simp [before, after, Ne.symm same]),
          empty old (by simp [before, after, same])]

theorem FunctionsHeld.signature_absent (held : r.FunctionsHeld) {signature : TypeHash}
    (absent : r.functionBySignature? signature = none) : r.bySignature.find? signature = none := by
  cases found : r.bySignature.find? signature with
  | none => rfl
  | some index =>
    obtain ⟨row, present, _⟩ := (held.keyed signature index).mp found
    have alive : r.functionRow? ⟨⟨index, r.functions.generationAt index⟩⟩ = some row :=
      SlotTable.get?_eq_some_iff.mpr ⟨present, rfl⟩
    simp [functionBySignature?, found, SlotTable.refAt?_eq, present, alive] at absent

theorem FunctionsHeld.found_by_signature (held : r.FunctionsHeld) {h : FunctionHandle}
    {row : FunctionRow} (alive : r.functionRow? h = some row) :
    r.functionBySignature? row.signature = some (h, row) := by
  obtain ⟨present, generation⟩ := SlotTable.get?_eq_some_iff.mp alive
  have leads := (held.keyed row.signature h.slot.index).mpr ⟨row, present, rfl⟩
  simp [functionBySignature?, leads, SlotTable.refAt?_eq, present, generation, alive]

/-- A signature leads to the one function that has it. -/
theorem FunctionsHeld.functionBySignature?_iff (held : r.FunctionsHeld) {signature : TypeHash}
    {h : FunctionHandle} {row : FunctionRow} :
    r.functionBySignature? signature = some (h, row) ↔
      r.functionRow? h = some row ∧ row.signature = signature := by
  constructor
  · intro found
    simp only [functionBySignature?, Option.bind_eq_bind, Option.bind_eq_some_iff, Option.pure_def,
      Option.some.injEq, Prod.mk.injEq] at found
    obtain ⟨index, leads, ref, there, own, alive, rfl, rfl⟩ := found
    obtain ⟨other, present, same⟩ := (held.keyed signature index).mp leads
    rw [SlotTable.refAt?_eq, present, Option.map_some, Option.some.injEq] at there
    obtain ⟨here, -⟩ := SlotTable.get?_eq_some_iff.mp alive
    subst there
    cases Option.some.inj (here.symm.trans present)
    exact ⟨alive, same⟩
  · rintro ⟨alive, rfl⟩
    exact held.found_by_signature alive

theorem FunctionsHeld.mem_functionsNamed (held : r.FunctionsHeld) {h : FunctionHandle}
    {row : FunctionRow} (alive : r.functionRow? h = some row) :
    h ∈ r.functionsNamed row.name.text := by
  obtain ⟨present, generation⟩ := SlotTable.get?_eq_some_iff.mp alive
  have known := (held.held _ row present).find?
  have listed := (held.listed row.name.id h.slot.index).mpr ⟨row, present, rfl⟩
  rw [functionsNamed_eq, known]
  refine List.mem_map.mpr ⟨h.slot, List.mem_filterMap.mpr ⟨h.slot.index, by simpa using listed, ?_⟩,
    rfl⟩
  rw [SlotTable.refAt?_eq, present, generation]
  rfl

theorem overloads_insertFunction (r : Registry) (row : FunctionRow) (name : NameId) :
    (r.insertFunction row).2.overloads name =
      r.overloads name ++ if name = row.name.id then [(r.functions.insert row).1.index] else [] := by
  unfold overloads insertFunction
  dsimp only [updateModule]
  rw [Index.update, Index.find?_insert]
  split
  · rename_i same
    rw [same, Option.getD_some]
  · rw [List.append_nil]

theorem insertFunction_held (held : r.FunctionsHeld) {row : FunctionRow}
    (own : r.names.Holds row.owner row.name) (fresh : r.bySignature.find? row.signature = none) :
    (r.insertFunction row).2.FunctionsHeld := by
  have functions : (r.insertFunction row).2.functions = (r.functions.insert row).2 := rfl
  have rows := SlotTable.rowAt?_insert held.free row
  have unused := SlotTable.rowAt?_insert_index held.free row
  constructor
  · exact SlotTable.insert_freeExact held.free row
  · intro name slot
    rw [overloads_insertFunction, functions, rows, List.mem_append, held.listed]
    by_cases here : slot = (r.functions.insert row).1.index
    · simp [here, unused, eq_comm]
    · simp [here]
  · exact held.keyed.insert unused fresh rows
  · intro slot other present
    rw [functions, rows] at present
    split at present
    · cases Option.some.inj present
      exact own
    · exact held.held slot other present

theorem addFunction_held (held : r.FunctionsHeld) (owner : ModuleId) (name : String)
    (params : List TypeHash) (returnType : TypeHash) (callable : Callable) :
    (r.addFunction owner name params returnType callable).2.FunctionsHeld := by
  unfold addFunction
  dsimp only
  split
  · exact held
  · rename_i absent
    have entered : r.names.Entered owner (r.intern name owner).2.names := .intern .none name
    have later : (r.intern name owner).2.FunctionsHeld := held.of_tables rfl entered.keeps
    exact insertFunction_held later (Interner.holds_intern _ _ _) (held.signature_absent absent)

/-- Removing the function of a slot takes the slot from the overloads of its name. -/
theorem overloads_removeFunction (held : r.FunctionsHeld) (index : Nat) (name : NameId) :
    (r.removeFunction index).overloads name = (r.overloads name).filter (· ≠ index) := by
  unfold removeFunction
  cases present : r.functions.rowAt? index with
  | none =>
    refine (List.filter_eq_self.mpr fun slot listed => ?_).symm
    obtain ⟨row, there, _⟩ := (held.listed name slot).mp listed
    refine decide_eq_true fun same => ?_
    rw [← same, there] at present
    contradiction
  | some row =>
    dsimp only [modifyModule]
    by_cases same : name = row.name.id
    · subst same
      unfold overloads
      dsimp only
      split
      · rename_i none
        rw [Index.find?_erase_self, List.isEmpty_iff.mp none]
        rfl
      · rw [Index.find?_insert_self, Option.getD_some]
    · have others : ∀ slot ∈ r.overloads name, slot ≠ index := by
        rintro slot listed rfl
        obtain ⟨other, there, own⟩ := (held.listed name slot).mp listed
        cases Option.some.inj (present.symm.trans there)
        exact same own.symm
      rw [List.filter_eq_self.mpr fun slot listed => decide_eq_true (others slot listed)]
      unfold overloads
      dsimp only
      split
      · rw [Index.find?_erase, if_neg same]
      · rw [Index.find?_insert, if_neg same]

theorem removeFunction_held (held : r.FunctionsHeld) (index : Nat) :
    (r.removeFunction index).FunctionsHeld := by
  cases present : r.functions.rowAt? index with
  | none =>
    unfold removeFunction
    rw [present]
    exact held
  | some row =>
    have functions := functions_removeFunction present
    have names := (removeFunction_frame r index).2.2.2
    have rows : ∀ slot, (r.removeFunction index).functions.rowAt? slot =
        if slot = index then none else r.functions.rowAt? slot := by
      rw [functions]
      exact SlotTable.rowAt?_remove r.functions index
    refine ⟨?_, fun name slot => ?_, ?_, fun slot other there => ?_⟩
    · rw [functions]
      exact SlotTable.remove_freeExact held.free present
    · rw [overloads_removeFunction held, List.mem_filter, held.listed, rows]
      by_cases here : slot = index <;> simp [here]
    · have here : r.bySignature.find? row.signature = some index :=
        (held.keyed _ _).mpr ⟨row, present, rfl⟩
      have erased : (r.removeFunction index).bySignature = r.bySignature.erase row.signature := by
        simp [removeFunction, present, here, modifyModule]
      rw [erased]
      exact held.keyed.erase present rows
    · rw [rows] at there
      split at there
      · contradiction
      · rw [names]
        exact held.held slot other there

theorem foldl_removeFunction (held : r.FunctionsHeld) (indexes : List Nat) :
    (indexes.foldl removeFunction r).FunctionsHeld ∧ ∀ name,
      (indexes.foldl removeFunction r).overloads name =
        (r.overloads name).filter (· ∉ indexes) := by
  induction indexes generalizing r with
  | nil => exact ⟨held, fun name => by simp⟩
  | cons first rest ih =>
    obtain ⟨later, lists⟩ := ih (removeFunction_held held first)
    refine ⟨later, fun name => ?_⟩
    rw [List.foldl_cons, lists, overloads_removeFunction held, List.filter_filter]
    congr 1
    funext slot
    simp [List.mem_cons, Bool.and_comm]

theorem foldl_removeRow_held (held : r.FunctionsHeld) (indexes : List Nat) :
    (indexes.foldl removeRow r).FunctionsHeld := by
  obtain ⟨tables, names⟩ := foldl_removeRow_frame r indexes
  refine held.of_tables tables ?_
  rw [names]
  exact .refl _

/-- Removing a module takes the slots of its functions from the overloads of every name. -/
theorem overloads_unregisterModule (held : r.FunctionsHeld) (m : ModuleId) (name : NameId) :
    (r.unregisterModule m).2.overloads name =
      (r.overloads name).filter (· ∉ r.functions.positions (·.owner = m)) := by
  have tables := (foldl_removeRow_frame r (r.types.positions (·.owner = m))).1
  simp only [functionTables, Prod.mk.injEq] at tables
  have emptied := foldl_removeRow_held held (r.types.positions (·.owner = m))
  have lists := (foldl_removeFunction emptied (r.functions.positions (·.owner = m))).2 name
  rw [unregisterModule_eq]
  simp only [overloads, tables.2.1] at lists ⊢
  rw [← lists, withoutRowsOf, tables.1]

theorem unregisterModule_functionsHeld (held : r.FunctionsHeld) (m : ModuleId) :
    (r.unregisterModule m).2.FunctionsHeld := by
  have emptied : (r.withoutRowsOf m).FunctionsHeld :=
    (foldl_removeFunction (foldl_removeRow_held held _) _).1
  have names := names_unregisterModule r m
  have functions := functions_unregisterModule r m
  rw [unregisterModule_eq] at names functions ⊢
  refine ⟨emptied.free, emptied.listed, emptied.keyed,
    fun index row present => ?_⟩
  rw [functions, SlotTable.rowAt?_sweep] at present
  have others : row.owner ≠ m := by simpa using present.2
  rw [names]
  exact (held.held index row present.1).evict fun same => absurd same.symm others

end TypeCatalog.Registry

namespace TypeCatalog

theorem Operation.run_functionsHeld {r : Registry} (consistent : r.Consistent)
    (held : r.FunctionsHeld) (op : Operation) : (op.run r).FunctionsHeld := by
  rcases functionTables_run consistent op with
    tables | ⟨owner, name, params, returnType, callable, rfl⟩ | ⟨m, rfl⟩
  · by_cases removed : ∃ m, op = .unregister m
    · obtain ⟨m, rfl⟩ := removed
      exact Registry.unregisterModule_functionsHeld held m
    · exact held.of_tables tables (keeps_run consistent fun m same => removed ⟨m, same⟩)
  · exact Registry.addFunction_held held owner name params returnType callable
  · exact Registry.unregisterModule_functionsHeld held m

theorem Catalog.Reachable.functionsHeld {u : Universe} {c : Catalog} (reachable : Reachable u c)
    (n : Nat) : (c.registry n).FunctionsHeld := by
  induction reachable generalizing n with
  | refl => exact Registry.empty_functionsHeld {}
  | tail before step ih =>
    rcases step.changed n with same | ⟨op, _, _, after⟩
    · exact same ▸ ih n
    · exact after ▸ op.run_functionsHeld (Reachable.allConsistent before n) (ih n)

end TypeCatalog
