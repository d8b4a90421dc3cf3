import TypeCatalog.Proofs.Merging

/-!
The changes that can be made to a registry, and what all of them keep. Whatever is done, the
look-up tables stay consistent, and each slot keeps its row or begins one new generation: no single
change ends two rows of one slot.
-/
namespace TypeCatalog.Registry

/-- Removing rows one after another empties their slots. -/
theorem table_foldl {ρ : Type} (table : Registry → SlotTable ρ) (step : Registry → Nat → Registry)
    (removes : ∀ {r index row}, (table r).rowAt? index = some row →
      table (step r index) = (table r).remove index)
    {indexes : List Nat} (distinct : indexes.Nodup) {r : Registry}
    (present : ∀ index ∈ indexes, ∃ row, (table r).rowAt? index = some row) :
    table (indexes.foldl step r) = indexes.foldl SlotTable.remove (table r) := by
  induction indexes generalizing r with
  | nil => rfl
  | cons first rest ih =>
    obtain ⟨fresh, distinct⟩ := List.nodup_cons.mp distinct
    obtain ⟨row, here⟩ := present first List.mem_cons_self
    have removed := removes here
    rw [List.foldl_cons, List.foldl_cons, ← removed]
    refine ih distinct fun index listed => ?_
    have elsewhere : index ≠ first := fun same => fresh (same ▸ listed)
    rw [removed, SlotTable.rowAt?_remove, if_neg elsewhere]
    exact present index (List.mem_cons_of_mem _ listed)

theorem functions_removeFunction {r : Registry} {index : Nat} {row : FunctionRow}
    (present : r.functions.rowAt? index = some row) :
    (r.removeFunction index).functions = r.functions.remove index := by
  unfold removeFunction
  rw [present]
  rfl

theorem removeFunction_frame (r : Registry) (index : Nat) :
    (r.removeFunction index).types = r.types ∧ (r.removeFunction index).byHash = r.byHash ∧
      (r.removeFunction index).byName = r.byName ∧ (r.removeFunction index).names = r.names := by
  unfold removeFunction
  split
  · exact ⟨rfl, rfl, rfl, rfl⟩
  · exact ⟨rfl, rfl, rfl, rfl⟩

theorem foldl_removeFunction_frame (r : Registry) (indexes : List Nat) :
    (indexes.foldl removeFunction r).types = r.types ∧
      (indexes.foldl removeFunction r).byHash = r.byHash ∧
      (indexes.foldl removeFunction r).byName = r.byName ∧
      (indexes.foldl removeFunction r).names = r.names := by
  induction indexes generalizing r with
  | nil => exact ⟨rfl, rfl, rfl, rfl⟩
  | cons first rest ih =>
    obtain ⟨types, byHash, byName, names⟩ := removeFunction_frame r first
    obtain ⟨types', byHash', byName', names'⟩ := ih (r.removeFunction first)
    exact ⟨types'.trans types, byHash'.trans byHash, byName'.trans byName, names'.trans names⟩

theorem foldl_removeRow_frame (r : Registry) (indexes : List Nat) :
    (indexes.foldl removeRow r).functionTables = r.functionTables ∧
      (indexes.foldl removeRow r).names = r.names := by
  induction indexes generalizing r with
  | nil => exact ⟨rfl, rfl⟩
  | cons first rest ih =>
    obtain ⟨functions, names⟩ := ih (r.removeRow first)
    exact ⟨functions.trans (functionTables_removeRow r first), names.trans (names_removeRow r first)⟩

def withoutRowsOf (r : Registry) (m : ModuleId) : Registry :=
  let emptied := (r.types.positions (·.owner = m)).foldl removeRow r
  (emptied.functions.positions (·.owner = m)).foldl removeFunction emptied

theorem unregisterModule_eq (r : Registry) (m : ModuleId) :
    (r.unregisterModule m).2 = { r.withoutRowsOf m with
      names := ((r.withoutRowsOf m).names.evict m).2
      modules := (r.withoutRowsOf m).modules.erase m } := rfl

theorem types_unregisterModule (r : Registry) (m : ModuleId) :
    (r.unregisterModule m).2.types = r.types.sweep (·.owner = m) := by
  rw [unregisterModule_eq]
  apply (foldl_removeFunction_frame _ _).1.trans
  apply table_foldl types removeRow types_removeRow (SlotTable.nodup_positions _ _)
  intro index listed
  obtain ⟨row, present, _⟩ := SlotTable.mem_positions.mp listed
  exact ⟨row, present⟩

theorem functions_unregisterModule (r : Registry) (m : ModuleId) :
    (r.unregisterModule m).2.functions = r.functions.sweep (·.owner = m) := by
  have before : ((r.types.positions (·.owner = m)).foldl removeRow r).functions = r.functions :=
    congrArg Prod.fst (foldl_removeRow_frame r _).1
  rw [unregisterModule_eq]
  show (withoutRowsOf r m).functions = _
  unfold withoutRowsOf
  dsimp only
  rw [table_foldl functions removeFunction functions_removeFunction (SlotTable.nodup_positions _ _),
    before]
  · rfl
  · intro index listed
    obtain ⟨row, present, _⟩ := SlotTable.mem_positions.mp listed
    exact ⟨row, present⟩

theorem names_unregisterModule (r : Registry) (m : ModuleId) :
    (r.unregisterModule m).2.names = (r.names.evict m).2 := by
  rw [unregisterModule_eq]
  show ((withoutRowsOf r m).names.evict m).2 = _
  rw [show (withoutRowsOf r m).names = r.names from
    (foldl_removeFunction_frame _ _).2.2.2.trans (foldl_removeRow_frame r _).2]

theorem unregisterModule_consistent {r : Registry} (consistent : r.Consistent) (m : ModuleId) :
    (r.unregisterModule m).2.Consistent := by
  have emptied : ((r.types.positions (·.owner = m)).foldl removeRow r).Consistent :=
    List.foldlRecOn (r.types.positions (·.owner = m)) removeRow (motive := Registry.Consistent)
      consistent fun s h index _ => removeRow_consistent h index
  obtain ⟨types, byHash, byName, _⟩ := foldl_removeFunction_frame
    ((r.types.positions (·.owner = m)).foldl removeRow r)
    (((r.types.positions (·.owner = m)).foldl removeRow r).functions.positions (·.owner = m))
  exact emptied.congr types byHash byName

/-- Adding a function enters at most its name, and touches nothing that belongs to types. -/
theorem addFunction_frame (r : Registry) (owner : ModuleId) (name : String)
    (params : List TypeHash) (returnType : TypeHash) (callable : Callable) :
    let added := (r.addFunction owner name params returnType callable).2
    added.types = r.types ∧ added.byHash = r.byHash ∧ added.byName = r.byName ∧
      r.names.Entered owner added.names := by
  unfold addFunction
  dsimp only
  split
  · exact ⟨rfl, rfl, rfl, .none⟩
  · exact ⟨rfl, rfl, rfl, .intern .none name⟩

theorem functions_addFunction (r : Registry) (owner : ModuleId) (name : String)
    (params : List TypeHash) (returnType : TypeHash) (callable : Callable) :
    let added := (r.addFunction owner name params returnType callable).2
    added.functions = r.functions ∨ ∃ row : FunctionRow, row.params = params ∧
      row.callable = callable ∧ added.functions = (r.functions.insert row).2 := by
  unfold addFunction
  dsimp only
  split
  · exact .inl rfl
  · exact .inr ⟨_, rfl, rfl, rfl⟩

/-- After some types have been merged, each slot still has its row, or has begun one generation
with the row of one of those types. -/
def Replaced (types : List Image.ReadType) (r s : Registry) : Prop :=
  ∀ index,
    (s.types.generationAt index = r.types.generationAt index ∧
      ∀ row, r.types.rowAt? index = some row → s.types.rowAt? index = some row) ∨
    (s.types.generationAt index = r.types.generationAt index + 1 ∧
      ∃ row, s.types.rowAt? index = some row ∧ row.typeHash ∈ types.map Image.ReadType.typeHash)

theorem Replaced.later {types : List Image.ReadType} {r s : Registry}
    (replaced : Replaced types r s) (type : Image.ReadType) : Replaced (types ++ [type]) r s := by
  intro index
  refine (replaced index).imp_right fun ⟨generation, row, present, listed⟩ => ?_
  exact ⟨generation, row, present, by simp only [List.map_append, List.mem_append, listed, true_or]⟩

/-- What merging one type does to the slots. -/
theorem Merged.slots {options : MergeOptions} {exports : ExportTable} {type : Image.ReadType}
    {r s : Registry} (backed : type.Backed exports) (merged : Merged options type r s) :
    (∃ row, s.types = (r.types.insert row).2) ∨
      (∃ index old row, r.types.rowAt? index = some old ∧ old.typeHash = type.typeHash ∧
        row.typeHash = type.typeHash ∧ s.types = r.types.replace index row) ∨
      s.types = r.types := by
  cases merged with
  | added fresh => exact .inl ⟨_, types_insertRow _ _⟩
  | @replaced index old present same published allowed =>
    have hash := (carryOver_facts backed r.names (options.owner.getD type.owner) old).2.1
    generalize Image.carryOver (Image.buildRow r.names type (options.owner.getD type.owner)) old =
      draft at hash ⊢
    have placed := types_replaceRow (r := { r with names := draft.2 }) present draft.1
    exact .inr (.inl ⟨index, old, draft.1, present, same, hash, placed⟩)
  | kept present same => exact .inr (.inr rfl)

theorem Replaced.next {options : MergeOptions} {exports : ExportTable}
    {types : List Image.ReadType} {type : Image.ReadType} {r s t : Registry}
    (replaced : Replaced types r s) (backed : type.Backed exports) (consistent : s.Consistent)
    (merged : Merged options type s t)
    (fresh : type.typeHash ∉ types.map Image.ReadType.typeHash) :
    Replaced (types ++ [type]) r t := by
  rcases merged.slots backed with ⟨row, after⟩ | ⟨slot, old, row, present, same, hash, after⟩ | after
  · intro index
    rw [after, SlotTable.generationAt_insert, SlotTable.rowAt?_insert consistent.free]
    have empty := SlotTable.rowAt?_insert_index consistent.free row
    have elsewhere : ∀ {there}, s.types.rowAt? index = some there →
        index ≠ (s.types.insert row).1.index := by
      intro there present here
      rw [← here, present] at empty
      contradiction
    rcases replaced.later type index with
      ⟨generation, kept⟩ | ⟨generation, later, present, listed⟩
    · refine .inl ⟨generation, fun earlier before => ?_⟩
      rw [if_neg (elsewhere (kept earlier before))]
      exact kept earlier before
    · refine .inr ⟨generation, later, ?_, listed⟩
      rw [if_neg (elsewhere present)]
      exact present
  · have within := SlotTable.lt_length_of_rowAt? present
    intro index
    rw [after, SlotTable.generationAt_replace within, SlotTable.rowAt?_replace within]
    by_cases here : index = slot
    · subst here
      rw [if_pos rfl, if_pos rfl]
      have first : s.types.generationAt index = r.types.generationAt index := by
        rcases replaced index with ⟨generation, _⟩ | ⟨_, earlier, there, listed⟩
        · exact generation
        · cases Option.some.inj (present.symm.trans there)
          exact absurd (same ▸ listed) fresh
      refine .inr ⟨by rw [first], row, rfl, ?_⟩
      rw [hash]
      simp
    · rw [if_neg here, if_neg here]
      exact replaced.later type index
  · intro index
    rw [after]
    exact replaced.later type index

theorem MergedAll.replaced {options : MergeOptions} {exports : ExportTable} {r s : Registry}
    {types : List Image.ReadType} (consistent : r.Consistent)
    (merged : MergedAll options exports r types s)
    (distinct : (types.map Image.ReadType.typeHash).Nodup) : Replaced types r s := by
  induction merged with
  | none => exact fun index => .inl ⟨rfl, fun row present => present⟩
  | next before backed last ih =>
    rw [List.map_append, List.nodup_append] at distinct
    refine (ih distinct.1).next backed (before.consistent consistent) last fun listed => ?_
    exact distinct.2.2 _ listed _ (by simp) rfl

theorem merge_replaced {r : Registry} (consistent : r.Consistent) (exports : ExportTable)
    (bytes : List UInt8) (options : MergeOptions) :
    ∃ types, Replaced types r (r.merge exports bytes options).2 := by
  rcases merge_merged consistent exports bytes options with same | ⟨types, decoded, merged⟩
  · rw [same]
    exact ⟨[], fun index => .inl ⟨rfl, fun row present => present⟩⟩
  · exact ⟨types, merged.replaced consistent (Image.decode_nodup decoded)⟩

theorem Merged.functionTables {options : MergeOptions} {type : Image.ReadType} {r s : Registry}
    (merged : Merged options type r s) : s.functionTables = r.functionTables := by
  cases merged with
  | added fresh => exact functionTables_insertRow _ _
  | @replaced index old present same published allowed =>
    generalize Image.carryOver (Image.buildRow r.names type (options.owner.getD type.owner)) old =
      draft
    exact functionTables_replaceRow (r := { r with names := draft.2 }) present draft.1
  | kept present same => rfl

theorem functionTables_merge {r : Registry} (consistent : r.Consistent) (exports : ExportTable)
    (bytes : List UInt8) (options : MergeOptions) :
    (r.merge exports bytes options).2.functionTables = r.functionTables := by
  rcases merge_merged consistent exports bytes options with same | ⟨types, -, merged⟩
  · rw [same]
  · generalize (r.merge exports bytes options).2 = s at merged
    induction merged with
    | none => rfl
    | next _ _ last ih => exact last.functionTables.trans ih

def skeletonRow (r : Registry) (u : Universe) (type : TypeKey) (owner : ModuleId) : Row :=
  { name := (r.names.intern (canonicalName (u.rawName type)) owner).1
    typeHash := u.hash type, owner, size := u.size type, align := u.align type
    flags := { isPrimitive := (PrimitiveKind.ofHash? (u.hash type)).isSome } }

theorem insertSkeleton_eq (r : Registry) (u : Universe) (type : TypeKey) (owner : ModuleId) :
    r.insertSkeleton u type owner =
      Registry.insertRow
        { r with names := (r.names.intern (canonicalName (u.rawName type)) owner).2 }
        (r.skeletonRow u type owner) := rfl

theorem types_discardPending (r : Registry) (h : TypeHandle) :
    (r.discardPending h).types = r.types ∨
      ∃ row, r.anyRow? h = some row ∧ row.published = false ∧
        (r.discardPending h).types = r.types.remove h.slot.index := by
  unfold discardPending
  split
  · rename_i row alive
    split
    · exact .inl rfl
    · rename_i pending
      have present := (SlotTable.get?_eq_some_iff.mp alive).1
      exact .inr ⟨row, alive, by simpa using pending, types_removeRow present⟩
  · exact .inl rfl

/-- A pending row is behind its handle no longer once its description has ended. -/
theorem anyRow?_discardPending (r : Registry) (h : TypeHandle) :
    (r.discardPending h).anyRow? h = r.row? h := by
  unfold discardPending row?
  cases alive : r.anyRow? h with
  | none => exact alive
  | some row =>
    dsimp only
    rw [Option.filter_some]
    split
    · exact alive
    · have present := (SlotTable.get?_eq_some_iff.mp alive).1
      rw [anyRow?, types_removeRow present]
      apply SlotTable.get?_of_rowAt?_none
      rw [SlotTable.rowAt?_remove, if_pos rfl]

@[simp] theorem names_discardPending (r : Registry) (h : TypeHandle) :
    (r.discardPending h).names = r.names := by
  unfold discardPending
  repeat' split
  all_goals first | rfl | exact names_removeRow _ _

@[simp] theorem functionTables_discardPending (r : Registry) (h : TypeHandle) :
    (r.discardPending h).functionTables = r.functionTables := by
  unfold discardPending
  repeat' split
  all_goals first | rfl | exact functionTables_removeRow _ _

end TypeCatalog.Registry

namespace TypeCatalog

inductive Operation where
  | configure (config : RegistryConfig)
  | intern (text : String) (user : ModuleId)
  | declare (m : ModuleId) (name : String)
  | markInitialized (m : ModuleId)
  | addFunction (owner : ModuleId) (name : String) (params : List TypeHash)
      (returnType : TypeHash) (callable : Callable)
  | unregister (m : ModuleId)
  | merge (exports : ExportTable) (bytes : List UInt8) (options : MergeOptions)
  | skeleton (u : Universe) (type : TypeKey) (owner : ModuleId)
  | commit (h : TypeHandle) (draft : Draft)
  /-- Ends a description that was not run to its end. -/
  | discard (h : TypeHandle)

namespace Operation

def run (r : Registry) : Operation → Registry
  | configure config => { r with config }
  | intern text user => (r.intern text user).2
  | declare m name => r.declareModule m name
  | markInitialized m => r.markInitialized m
  | addFunction owner name params returnType callable =>
    (r.addFunction owner name params returnType callable).2
  | unregister m => (r.unregisterModule m).2
  | merge exports bytes options => (r.merge exports bytes options).2
  | skeleton u type owner => (r.insertSkeleton u type owner).2
  | commit h draft => r.commit h draft
  | discard h => r.discardPending h

/-- A skeleton is only added for a type that is not there. -/
def Fresh (r : Registry) : Operation → Prop
  | skeleton u type _ => r.anyByHash? (u.hash type) = none
  | _ => True

/-- Whether a change may end published rows. -/
def IsOverhaul : Operation → Prop
  | merge _ _ _ => True
  | unregister _ => True
  | _ => False

variable {r : Registry}

theorem run_consistent (consistent : r.Consistent) {op : Operation} (fresh : op.Fresh r) :
    (op.run r).Consistent := by
  cases op with
  | configure config => exact consistent.congr rfl rfl rfl
  | intern text user => exact consistent.withNames _
  | declare m name => exact consistent.congr rfl rfl rfl
  | markInitialized m => exact consistent.congr rfl rfl rfl
  | addFunction owner name params returnType callable =>
    obtain ⟨types, byHash, byName, _⟩ := r.addFunction_frame owner name params returnType callable
    exact consistent.congr types byHash byName
  | unregister m => exact Registry.unregisterModule_consistent consistent m
  | merge exports bytes options => exact Registry.merge_consistent consistent exports bytes options
  | skeleton u type owner =>
    apply Registry.insertRow_consistent (consistent.withNames _)
    exact consistent.anyByHash?_eq_none fresh
  | commit h draft => exact Registry.commit_consistent consistent h draft
  | discard h => exact Registry.discardPending_consistent consistent h

/-- What a change does to the table of types. -/
inductive Alters (r : Registry) : Operation → Prop where
  | nothing {op : Operation} (quiet : ¬ op.IsOverhaul) (types : (op.run r).types = r.types) :
      Alters r op
  | adds (u : Universe) (type : TypeKey) (owner : ModuleId)
      (types : ((skeleton u type owner).run r).types =
        (r.types.insert (r.skeletonRow u type owner)).2) : Alters r (skeleton u type owner)
  | publishes {h : TypeHandle} {old : Row} (draft : Draft) (alive : r.anyRow? h = some old)
      (types : ((commit h draft).run r).types =
        r.types.modify h.slot.index fun _ => old.publish draft) : Alters r (commit h draft)
  | removes {h : TypeHandle} {old : Row} (alive : r.anyRow? h = some old)
      (types : ((discard h).run r).types = r.types.remove h.slot.index) : Alters r (discard h)
  | sweeps (m : ModuleId) (types : ((unregister m).run r).types = r.types.sweep (·.owner = m)) :
      Alters r (unregister m)
  | merges (exports : ExportTable) (bytes : List UInt8) (options : MergeOptions) :
      Alters r (merge exports bytes options)

theorem alters (r : Registry) (op : Operation) : op.Alters r := by
  cases op with
  | configure config => exact .nothing id rfl
  | intern text user => exact .nothing id rfl
  | declare m name => exact .nothing id rfl
  | markInitialized m => exact .nothing id rfl
  | addFunction owner name params returnType callable =>
    exact .nothing id (r.addFunction_frame owner name params returnType callable).1
  | unregister m => exact .sweeps m (r.types_unregisterModule m)
  | merge exports bytes options => exact .merges exports bytes options
  | skeleton u type owner => exact .adds u type owner (Registry.types_insertRow _ _)
  | commit h draft =>
    cases alive : r.anyRow? h with
    | none => exact .nothing id (by rw [run, Registry.commit_dead alive])
    | some old => exact .publishes draft alive (Registry.types_commit alive draft)
  | discard h =>
    rcases r.types_discardPending h with after | ⟨row, alive, _, after⟩
    · exact .nothing id after
    · exact .removes alive after

/-- Each slot keeps its row, or begins one new generation. -/
theorem types_succeed (consistent : r.Consistent) (op : Operation) :
    r.types.Succeeds Row.Grows (op.run r).types := by
  cases op.alters r with
  | nothing quiet types =>
    rw [types]
    exact .refl Row.Grows.refl _
  | adds u type owner types =>
    rw [types]
    exact SlotTable.insert_succeeds Row.Grows.refl consistent.free _
  | @publishes h old draft alive types =>
    rw [types]
    refine SlotTable.modify_succeeds Row.Grows.refl fun row present => ?_
    cases Option.some.inj (present.symm.trans (SlotTable.get?_eq_some_iff.mp alive).1)
    exact Row.publish_grows old draft
  | removes alive types =>
    rw [types]
    have present := (SlotTable.get?_eq_some_iff.mp alive).1
    exact SlotTable.remove_succeeds Row.Grows.refl (SlotTable.lt_length_of_rowAt? present)
  | sweeps m types =>
    rw [types]
    exact SlotTable.sweep_succeeds Row.Grows.refl _ _
  | merges exports bytes options =>
    obtain ⟨types, replaced⟩ := Registry.merge_replaced consistent exports bytes options
    intro index
    rcases replaced index with ⟨generation, kept⟩ | ⟨generation, _⟩
    · exact .inl ⟨generation, fun row present => ⟨row, kept row present, .refl row⟩⟩
    · exact .inr generation

/-- Apart from overhauls, only giving up a description ends a row. -/
theorem generationAt_run {op : Operation} (quiet : ¬ op.IsOverhaul) (index : Nat) :
    (op.run r).types.generationAt index = r.types.generationAt index ∨
      ∃ h : TypeHandle, op = .discard h ∧ index = h.slot.index := by
  cases op.alters r with
  | nothing _ types => exact .inl (by rw [types])
  | adds u type owner types =>
    rw [types]
    exact .inl (SlotTable.generationAt_insert _ _ _)
  | publishes draft alive types =>
    rw [types]
    exact .inl (SlotTable.generationAt_modify _ _ _ _)
  | @removes h old alive types =>
    by_cases here : index = h.slot.index
    · exact .inr ⟨h, rfl, here⟩
    · have present := (SlotTable.get?_eq_some_iff.mp alive).1
      rw [types, SlotTable.generationAt_remove (SlotTable.lt_length_of_rowAt? present), if_neg here]
      exact .inl rfl
  | sweeps m types => exact absurd trivial quiet
  | merges exports bytes options => exact absurd trivial quiet

/-- Whether a row is that of the function which a change adds. -/
def Adds (row : FunctionRow) : Operation → Prop
  | addFunction _ _ params _ callable => row.params = params ∧ row.callable = callable
  | _ => False

/-- Only adding a function and removing a module change what there is to functions. -/
theorem functionTables_run (consistent : r.Consistent) (op : Operation) :
    (op.run r).functionTables = r.functionTables ∨
      (∃ owner name params returnType callable,
        op = .addFunction owner name params returnType callable) ∨
      ∃ m, op = .unregister m := by
  cases op with
  | addFunction owner name params returnType callable =>
    exact .inr (.inl ⟨owner, name, params, returnType, callable, rfl⟩)
  | unregister m => exact .inr (.inr ⟨m, rfl⟩)
  | merge exports bytes options =>
    exact .inl (Registry.functionTables_merge consistent exports bytes options)
  | skeleton u type owner => exact .inl (Registry.functionTables_insertRow _ _)
  | commit h draft => exact .inl (r.functionTables_commit h draft)
  | discard h => exact .inl (r.functionTables_discardPending h)
  | _ => exact .inl rfl

theorem functions_run (consistent : r.Consistent) (op : Operation) :
    (op.run r).functions = r.functions ∨
      (∃ row, op.Adds row ∧ (op.run r).functions = (r.functions.insert row).2) ∨
      ∃ m, (op.run r).functions = r.functions.sweep (·.owner = m) := by
  rcases functionTables_run consistent op with
    same | ⟨owner, name, params, returnType, callable, rfl⟩ | ⟨m, rfl⟩
  · exact .inl (congrArg Prod.fst same)
  · exact (r.functions_addFunction owner name params returnType callable).imp_right
      fun ⟨row, own, same, after⟩ => .inl ⟨row, ⟨own, same⟩, after⟩
  · exact .inr (.inr ⟨m, r.functions_unregisterModule m⟩)

theorem functions_free (consistent : r.Consistent) (exact : r.functions.FreeExact)
    (op : Operation) : (op.run r).functions.FreeExact := by
  rcases functions_run consistent op with after | ⟨row, _, after⟩ | ⟨m, after⟩
  · rw [after]; assumption
  · rw [after]; exact SlotTable.insert_freeExact exact row
  · rw [after]; exact SlotTable.sweep_freeExact exact _

theorem functions_succeed (consistent : r.Consistent) (exact : r.functions.FreeExact)
    (op : Operation) : r.functions.Succeeds Eq (op.run r).functions := by
  rcases functions_run consistent op with after | ⟨row, _, after⟩ | ⟨m, after⟩
  · rw [after]; exact .refl Eq.refl _
  · rw [after]; exact SlotTable.insert_succeeds Eq.refl exact row
  · rw [after]; exact SlotTable.sweep_succeeds Eq.refl _ _

end Operation

end TypeCatalog
