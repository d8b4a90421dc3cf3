import Mathlib.Data.List.Basic
import TypeCatalog.Proofs.Aliases
import TypeCatalog.Proofs.Overloads

/-!
Removing a module. Its rows and functions go, and with them their handles, its entry and the names
that it alone has used; whatever is not the module's stays as it was and is still found.
-/
namespace TypeCatalog

namespace Registry

variable {r : Registry} {m k : ModuleId}

theorem moduleInfo?_modifyModule (other : k ≠ m) (change : ModuleInfo → ModuleInfo) :
    (r.modifyModule m change).moduleInfo? k = r.moduleInfo? k := by
  simp only [moduleInfo?, modifyModule, Index.modify]
  cases r.modules.find? m with
  | none => rfl
  | some info => exact (Index.find?_insert _ _ _ _).trans (if_neg other)

theorem moduleInfo?_removeRow {index : Nat}
    (others : ∀ row, r.types.rowAt? index = some row → k ≠ row.owner) :
    (r.removeRow index).moduleInfo? k = r.moduleInfo? k := by
  cases present : r.types.rowAt? index with
  | none => rw [removeRow_empty present]
  | some row =>
    have unnamed : ∀ s : Registry, s.modules = r.modules →
        (s.unindexName row.name.id index).moduleInfo? k = r.moduleInfo? k := by
      intro s same
      rw [moduleInfo?, modules_unindexName, same, moduleInfo?]
    rw [removeRow_eq present]
    dsimp only
    have before := unnamed (if r.byHash.find? row.typeHash = some index then
      { r with types := r.types.remove index, byHash := r.byHash.erase row.typeHash }
      else { r with types := r.types.remove index }) (by split <;> rfl)
    split
    · exact (moduleInfo?_modifyModule (others row present) _).trans before
    · exact before

theorem moduleInfo?_removeFunction {index : Nat}
    (others : ∀ row, r.functions.rowAt? index = some row → k ≠ row.owner) :
    (r.removeFunction index).moduleInfo? k = r.moduleInfo? k := by
  unfold removeFunction
  split
  · rfl
  · rename_i row present
    exact moduleInfo?_modifyModule (others row present) _

theorem rowAt?_of_removeRow {index other : Nat} {row : Row}
    (there : (r.removeRow index).types.rowAt? other = some row) :
    r.types.rowAt? other = some row := by
  cases present : r.types.rowAt? index with
  | none => rwa [removeRow_empty present] at there
  | some old =>
    rw [types_removeRow present, SlotTable.rowAt?_remove] at there
    split at there
    · contradiction
    · exact there

theorem rowAt?_of_removeFunction {index other : Nat} {row : FunctionRow}
    (there : (r.removeFunction index).functions.rowAt? other = some row) :
    r.functions.rowAt? other = some row := by
  cases present : r.functions.rowAt? index with
  | none =>
    unfold removeFunction at there
    rwa [present] at there
  | some old =>
    rw [functions_removeFunction present, SlotTable.rowAt?_remove] at there
    split at there
    · contradiction
    · exact there

/-- Removing rows of other modules one after another leaves the entry of a module alone. -/
theorem moduleInfo?_foldl {ρ : Type} (table : Registry → SlotTable ρ) (owner : ρ → ModuleId)
    (step : Registry → Nat → Registry)
    (before : ∀ {r index other row}, (table (step r index)).rowAt? other = some row →
      (table r).rowAt? other = some row)
    (idle : ∀ {r index}, (∀ row, (table r).rowAt? index = some row → k ≠ owner row) →
      (step r index).moduleInfo? k = r.moduleInfo? k)
    {indexes : List Nat}
    (others : ∀ index ∈ indexes, ∀ row, (table r).rowAt? index = some row → k ≠ owner row) :
    (indexes.foldl step r).moduleInfo? k = r.moduleInfo? k := by
  induction indexes generalizing r with
  | nil => rfl
  | cons first rest ih =>
    have later : (rest.foldl step (step r first)).moduleInfo? k = (step r first).moduleInfo? k :=
      ih fun index listed row there =>
        others index (List.mem_cons_of_mem _ listed) row (before there)
    exact later.trans (idle (others first List.mem_cons_self))

theorem moduleInfo?_unregisterModule (r : Registry) (m k : ModuleId) :
    (r.unregisterModule m).2.moduleInfo? k = if k = m then none else r.moduleInfo? k := by
  rw [unregisterModule_eq, moduleInfo?, Index.find?_erase]
  split
  · rfl
  · rename_i other
    have strangers : ∀ {ρ : Type} {t : SlotTable ρ} (owner : ρ → ModuleId),
        ∀ index ∈ t.positions (owner · = m), ∀ row, t.rowAt? index = some row → k ≠ owner row := by
      intro ρ t owner index listed row there
      obtain ⟨own, present, same⟩ := SlotTable.mem_positions.mp listed
      cases Option.some.inj (present.symm.trans there)
      exact fun mine => other (mine.trans (of_decide_eq_true same))
    have rows := moduleInfo?_foldl Registry.types Row.owner removeRow rowAt?_of_removeRow
      moduleInfo?_removeRow (r := r) (strangers Row.owner)
    exact (moduleInfo?_foldl Registry.functions FunctionRow.owner removeFunction
      rowAt?_of_removeFunction moduleInfo?_removeFunction (strangers FunctionRow.owner)).trans rows

theorem anyRow?_unregisterModule {h : TypeHandle} {row : Row} :
    (r.unregisterModule m).2.anyRow? h = some row ↔ r.anyRow? h = some row ∧ row.owner ≠ m := by
  rw [anyRow?, types_unregisterModule, SlotTable.get?_sweep_iff, decide_eq_false_iff_not, anyRow?]

theorem row?_unregisterModule {h : TypeHandle} {row : Row} :
    (r.unregisterModule m).2.row? h = some row ↔ r.row? h = some row ∧ row.owner ≠ m := by
  rw [row?, row?, Option.filter_eq_some_iff, Option.filter_eq_some_iff, anyRow?_unregisterModule,
    and_right_comm]

theorem functionRow?_unregisterModule {h : FunctionHandle} {row : FunctionRow} :
    (r.unregisterModule m).2.functionRow? h = some row ↔
      r.functionRow? h = some row ∧ row.owner ≠ m := by
  rw [functionRow?, functions_unregisterModule, SlotTable.get?_sweep_iff, decide_eq_false_iff_not,
    functionRow?]

/-- The count is that of the rows and functions which are no longer there. -/
theorem count_unregisterModule (r : Registry) (m : ModuleId) :
    (r.unregisterModule m).1 + ((r.unregisterModule m).2.types.rows.length +
      (r.unregisterModule m).2.functions.rows.length) =
      r.types.rows.length + r.functions.rows.length := by
  have counted : (r.unregisterModule m).1 =
      (r.types.positions (·.owner = m)).length + (r.functions.positions (·.owner = m)).length := by
    have tables := (foldl_removeRow_frame r (r.types.positions (·.owner = m))).1
    have functions : ((r.types.positions (·.owner = m)).foldl removeRow r).functions =
        r.functions := congrArg Prod.fst tables
    show _ + (((r.types.positions (·.owner = m)).foldl removeRow r).functions.positions _).length = _
    rw [functions]
  have parts : ∀ {ρ : Type} (t : SlotTable ρ) (p : ρ → Bool),
      (t.positions p).length + (t.sweep p).rows.length = t.rows.length := by
    intro ρ t p
    rw [SlotTable.positions, List.length_map, SlotTable.rows_sweep]
    exact (t.rows.length_eq_length_filter_add fun entry => p entry.2).symm
  rw [counted, types_unregisterModule, functions_unregisterModule]
  have types := parts r.types (·.owner = m)
  have functions := parts r.functions (·.owner = m)
  omega

/-- The functions of a name that are left are listed in the same order as before. -/
theorem functionsNamed_unregisterModule (held : r.FunctionsHeld) (m : ModuleId) (text : String) :
    (r.unregisterModule m).2.functionsNamed text =
      (r.functionsNamed text).filter (r.unregisterModule m).2.isFunctionAlive := by
  have swept := functions_unregisterModule r m
  have lists := overloads_unregisterModule held m
  have names := names_unregisterModule r m
  generalize (r.unregisterModule m).2 = s at swept lists names ⊢
  have refs : ∀ slot, s.functions.refAt? slot =
      (r.functions.refAt? slot).filter fun ref => s.isFunctionAlive ⟨ref⟩ := by
    simp only [isFunctionAlive, functionRow?, swept]
    exact SlotTable.refAt?_sweep r.functions (·.owner = m)
  have gone : ∀ slot ∈ r.functions.positions (·.owner = m), s.functions.refAt? slot = none := by
    intro slot listed
    rw [SlotTable.refAt?_eq, swept, (SlotTable.sweep_emptied _ _).rowAt?, if_pos listed,
      Option.map_none]
  rw [functionsNamed_eq, functionsNamed_eq, List.filter_map, List.filter_filterMap]
  simp only [Function.comp_def, ← refs]
  cases left : s.names.find? text with
  | some id =>
    rw [names, Interner.find?_evict] at left
    rw [left.1, Option.toList_some, List.flatMap_singleton, List.flatMap_singleton, lists,
      List.filterMap_filter]
    refine congrArg _ (List.filterMap_congr fun slot _ => ?_)
    split
    · rfl
    · rename_i listed
      exact (gone slot (by simpa using listed)).symm
  | none =>
    -- The name has gone with the module, so all its functions were the module's.
    refine congrArg _ (List.filterMap_eq_nil_iff.mpr fun slot listed => gone slot ?_).symm
    obtain ⟨id, known, member⟩ := List.mem_flatMap.mp listed
    rw [Option.mem_toList] at known
    obtain ⟨row, present, rfl⟩ := (held.listed id slot).mp member
    obtain ⟨entry, stored, -, owner⟩ := held.held slot row present
    refine SlotTable.mem_positions.mpr ⟨row, present, decide_eq_true ?_⟩
    by_contra other
    have kept : s.names.find? text = some row.name.id := by
      rw [names, Interner.find?_evict]
      refine ⟨known, fun same here own => ?_⟩
      cases Option.some.inj (here.symm.trans stored)
      rcases owner with none | mine
      · rw [none] at own
        contradiction
      · exact other (Option.some.inj (mine.symm.trans own))
    rw [kept] at left
    contradiction

/-- What the removal of a module from the registry `r` leaves, and what it counts. -/
structure Removes (r : Registry) (m : ModuleId) (count : Nat) (s : Registry) : Prop where
  /-- The published rows that are left are those of other modules, behind the same handles. -/
  published : ∀ h row, s.row? h = some row ↔ r.row? h = some row ∧ row.owner ≠ m
  /-- Rows of other modules that are still being described are left as well. -/
  rows : ∀ h row, s.anyRow? h = some row ↔ r.anyRow? h = some row ∧ row.owner ≠ m
  functions : ∀ h row, s.functionRow? h = some row ↔ r.functionRow? h = some row ∧ row.owner ≠ m
  byHash : ∀ h row, s.row? h = some row → s.typeByHash? row.typeHash = some h
  bySignature : ∀ h row, s.functionRow? h = some row →
    s.functionBySignature? row.signature = some (h, row)
  named : ∀ h row, s.functionRow? h = some row → h ∈ s.functionsNamed row.name.text
  order : ∀ text, s.functionsNamed text = (r.functionsNamed text).filter s.isFunctionAlive
  entries : ∀ k, s.moduleInfo? k = if k = m then none else r.moduleInfo? k
  /-- No name is found that only this module has used since the table last lacked it. -/
  forgotten : m ≠ .host → ∀ earlier uses text, r.names = .after earlier uses →
    earlier.find? text = none → (∀ user, .intern text user ∈ uses → user = m) →
    s.names.find? text = none
  count : count + (s.types.rows.length + s.functions.rows.length) =
    r.types.rows.length + r.functions.rows.length

theorem unregisterModule_removes (consistent : r.Consistent) (held : r.FunctionsHeld)
    (m : ModuleId) : r.Removes m (r.unregisterModule m).1 (r.unregisterModule m).2 where
  published _ _ := row?_unregisterModule
  rows _ _ := anyRow?_unregisterModule
  functions _ _ := functionRow?_unregisterModule
  byHash _ _ found := (unregisterModule_consistent consistent m).typeByHash?_of_row? found
  bySignature _ _ alive := (unregisterModule_functionsHeld held m).found_by_signature alive
  named _ _ alive := (unregisterModule_functionsHeld held m).mem_functionsNamed alive
  order := functionsNamed_unregisterModule held m
  entries := moduleInfo?_unregisterModule r m
  forgotten guest earlier uses text same absent own := by
    have reserved := Interner.reserved_of_uses guest absent own
    rw [← same] at reserved
    rw [names_unregisterModule]
    exact reserved.find?_evict
  count := count_unregisterModule r m

end Registry

theorem Registry.MergedAll.names_after {options : MergeOptions} {exports : ExportTable}
    {r s : Registry} {types : List Image.ReadType} (merged : MergedAll options exports r types s) :
    ∃ uses, s.names = r.names.after uses := by
  induction merged with
  | none => exact ⟨[], rfl⟩
  | next _ backed last ih =>
    obtain ⟨first, before⟩ := ih
    obtain ⟨second, after⟩ := (last.entered backed).after
    exact ⟨first ++ second, by rw [after, before, Interner.after_append]⟩

theorem Operation.names_after {r : Registry} (consistent : r.Consistent) (op : Operation) :
    ∃ uses, (op.run r).names = r.names.after uses := by
  cases op with
  | configure config => exact ⟨[], rfl⟩
  | intern text user => exact ⟨[.intern text user], rfl⟩
  | declare m name => exact ⟨[.intern name m], rfl⟩
  | markInitialized m => exact ⟨[], rfl⟩
  | addFunction owner name params returnType callable =>
    exact (r.addFunction_frame owner name params returnType callable).2.2.2.after
  | unregister m => exact ⟨[.evict m], r.names_unregisterModule m⟩
  | merge exports bytes options =>
    rcases Registry.merge_merged consistent exports bytes options with same | ⟨types, -, merged⟩
    · exact ⟨[], congrArg Registry.names same⟩
    · exact merged.names_after
  | skeleton u type owner =>
    exact ⟨[.intern (canonicalName (u.rawName type)) owner], Registry.names_insertRow _ _⟩
  | commit h draft => exact ⟨[], r.names_commit h draft⟩
  | discard h => exact ⟨[], r.names_discardPending h⟩

namespace Catalog

variable {u : Universe} {c : Catalog}

theorem Reachable.names_after (reachable : Reachable u c) (n : Nat) :
    ∃ uses, (c.registry n).names = Interner.empty.after uses := by
  induction reachable generalizing n with
  | refl => exact ⟨[], rfl⟩
  | tail before step ih =>
    obtain ⟨first, earlier⟩ := ih n
    rcases step.changed n with same | ⟨op, _, _, after⟩
    · exact ⟨first, same ▸ earlier⟩
    · obtain ⟨second, later⟩ := op.names_after (Reachable.allConsistent before n)
      exact ⟨first ++ second, by rw [after, later, earlier, Interner.after_append]⟩

/-- Removing a module is exact. Of the rows and functions exactly those of other modules are left,
unchanged and behind the same handles, and they are found by their hashes, signatures and names, the
functions of each name in the same order; the entry of the module is gone, and the others are as they
were; names that the module alone has used are forgotten; and the count is that of the rows and
functions which have gone. The names of the types that are left still lead to types of these names, as
long as no type of the registry is being described for the first time. -/
theorem removal_is_exact (reachable : Reachable u c) (n : Nat) (m : ModuleId) :
    let r := c.registry n
    let s := (r.unregisterModule m).2
    r.Removes m (r.unregisterModule m).1 s ∧
    (∃ uses, r.names = Interner.empty.after uses) ∧
    (Attained u c → ∀ h row, s.row? h = some row →
      s.names.find? row.name.text = some row.name.id ∧
      (c.Settled n → ∃ k other, s.typeByName? row.name.text = some k ∧ s.row? k = some other ∧
        other.name.text = row.name.text)) := by
  intro r s
  have consistent : r.Consistent := reachable.allConsistent n
  refine ⟨Registry.unregisterModule_removes consistent (reachable.functionsHeld n) m,
    reachable.names_after n, fun attained h row found => ?_⟩
  obtain ⟨ended, kept⟩ := attained.kept
  have held : s.RowsHeld := Registry.unregisterModule_rowsHeld (kept.rows n) m
  have later : s.Consistent := Registry.unregisterModule_consistent consistent m
  refine ⟨held.find?_name (Registry.rowAt?_of_row? found), fun settled => ?_⟩
  obtain ⟨k, leads⟩ := Registry.typeByName?_of_row? held later found fun index other there _ => by
    rw [show s.types = r.types.sweep (·.owner = m) from Registry.types_unregisterModule r m] at there
    exact reachable.published settled (SlotTable.rowAt?_sweep.mp there).1
  obtain ⟨other, there, same⟩ := Registry.text_of_typeByName? held later leads
  exact ⟨k, other, leads, there, same⟩

/-- An overload is still found when the module of another one of its name is removed. -/
theorem overload_left_by_removal :
    let constant : Callable := ⟨0, .none, [], fun _ _ => ⟨.void, .void⟩⟩
    let empty : Catalog := { registries := [{}] }
    let one := empty.change 0 (.addFunction ⟨1⟩ "f" [] .empty constant)
    let two := one.change 0 (.addFunction ⟨2⟩ "f" [.empty] .empty constant)
    Reachable Gallery.knownTypes two ∧
      ((two.registry 0).unregisterModule ⟨1⟩).2.functionsNamed "f" = [⟨⟨1, 0⟩⟩] := by
  intro constant empty one two
  have first : Step Gallery.knownTypes {} empty := .move (.create {})
  have second : Step Gallery.knownTypes empty one :=
    .move (.addFunction 0 ⟨1⟩ "f" [] .empty constant)
  have third : Step Gallery.knownTypes one two :=
    .move (.addFunction 0 ⟨2⟩ "f" [.empty] .empty constant)
  have reachable : Reachable Gallery.knownTypes two :=
    ((Relation.ReflTransGen.single first).tail second).tail third
  refine ⟨reachable, ?_⟩
  rw [(removal_is_exact reachable 0 ⟨1⟩).1.order "f"]
  decide +kernel

end Catalog

end TypeCatalog
