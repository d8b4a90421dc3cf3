import TypeCatalog.Proofs.Bookkeeping
import TypeCatalog.Proofs.Refusals

/-!
What the modules' entries say of types and functions. In every state that can be reached, each
module's entry counts exactly the published rows and the functions that the module owns. So it is
while a module is being removed and while an image is being merged: each row or function that goes
there was counted, and its owner's count is lowered by one.
-/
namespace TypeCatalog

namespace Registry

variable {r s : Registry}

def FunctionsTallied (r : Registry) : Prop :=
  ∀ m, (r.entry m).functions = r.functions.count (·.owner = m)

theorem functions_of_tables (same : s.functionTables = r.functionTables) :
    s.functions = r.functions := congrArg Prod.fst same

theorem FunctionsTallied.congr (tallied : r.FunctionsTallied) (functions : s.functions = r.functions)
    (counts : ∀ m, (s.entry m).functions = (r.entry m).functions) : s.FunctionsTallied := by
  intro m
  rw [counts, functions]
  exact tallied m

theorem FunctionsTallied.withNames (tallied : r.FunctionsTallied) (names : Interner) :
    Registry.FunctionsTallied { r with names } :=
  tallied.congr rfl fun _ => rfl

@[simp] theorem functions_addTypeTo (r : Registry) (m k : ModuleId) :
    ((r.addTypeTo m).entry k).functions = (r.entry k).functions := by
  apply kept_updateModule ModuleInfo.functions
  exact fun _ => rfl

@[simp] theorem functions_dropTypeFrom (r : Registry) (m k : ModuleId) :
    ((r.dropTypeFrom m).entry k).functions = (r.entry k).functions := by
  rw [dropTypeFrom, entry_modifyModule r m k rfl]
  split
  · rename_i same
    rw [same]
  · rfl

theorem insertRow_functionsTallied (tallied : r.FunctionsTallied) (row : Row) :
    (r.insertRow row).2.FunctionsTallied := by
  apply tallied.congr (functions_of_tables (functionTables_insertRow r row))
  intro m
  rw [insertRow_eq]
  dsimp only
  split
  · rw [functions_addTypeTo, entry_congr (modules_indexName ..)]
    rfl
  · rw [entry_congr (modules_indexName ..)]
    rfl

theorem replaceRow_functionsTallied (tallied : r.FunctionsTallied) {index : Nat} {old : Row}
    (present : r.types.rowAt? index = some old) (row : Row) :
    (r.replaceRow index row).FunctionsTallied := by
  apply tallied.congr (functions_of_tables (functionTables_replaceRow present row))
  intro m
  rw [replaceRow_eq present]
  dsimp only
  split
  · rw [entry_congr (modules_exchange ..)]
  · rw [functions_addTypeTo, functions_dropTypeFrom, entry_congr (modules_exchange ..)]

theorem commit_functionsTallied (tallied : r.FunctionsTallied) (h : TypeHandle) (draft : Draft) :
    (r.commit h draft).FunctionsTallied := by
  apply tallied.congr (functions_of_tables (functionTables_commit r h draft))
  intro m
  cases alive : r.anyRow? h with
  | none => rw [commit_dead alive]
  | some old =>
    rw [commit_eq alive]
    dsimp only
    split
    · rw [entry_congr (modules_exchange ..)]
    · rw [functions_addTypeTo, entry_congr (modules_exchange ..)]

theorem removeRow_functionsTallied (tallied : r.FunctionsTallied) (index : Nat) :
    (r.removeRow index).FunctionsTallied := by
  apply tallied.congr (functions_of_tables (functionTables_removeRow r index))
  intro m
  cases present : r.types.rowAt? index with
  | none => rw [removeRow_empty present]
  | some row =>
    have kept : ∀ s : Registry, s.modules = r.modules →
        ((s.unindexName row.name.id index).entry m).functions = (r.entry m).functions := by
      intro s same
      rw [entry_congr ((modules_unindexName ..).trans same)]
    rw [removeRow_eq present]
    dsimp only
    split
    · rw [functions_dropTypeFrom, kept _ (by split <;> rfl)]
    · exact kept _ (by split <;> rfl)

theorem entry_insertFunction (r : Registry) (row : FunctionRow) (k : ModuleId) :
    ((r.insertFunction row).2.entry k).functions =
      (r.entry k).functions + if k = row.owner then 1 else 0 := by
  rw [insertFunction]
  dsimp only
  rw [entry_updateModule]
  split
  · rename_i own
    rw [own]
    rfl
  · rfl

theorem entry_removeFunction {index : Nat} {row : FunctionRow}
    (present : r.functions.rowAt? index = some row) (k : ModuleId) :
    ((r.removeFunction index).entry k).functions =
      (r.entry k).functions - if k = row.owner then 1 else 0 := by
  rw [removeFunction, present]
  dsimp only
  rw [entry_modifyModule _ _ _ rfl]
  split
  · rename_i own
    rw [own]
    rfl
  · rfl

theorem insertFunction_functionsTallied (tallied : r.FunctionsTallied)
    (free : r.functions.FreeExact) (row : FunctionRow) :
    (r.insertFunction row).2.FunctionsTallied := by
  intro m
  have counted := SlotTable.count_insert (p := fun f : FunctionRow => f.owner = m) free row
  simp only [← tallied m, decide_eq_true_eq] at counted
  simp only [entry_insertFunction, eq_comm (a := m)]
  exact counted.symm

theorem removeFunction_functionsTallied (tallied : r.FunctionsTallied) (index : Nat) :
    (r.removeFunction index).FunctionsTallied := by
  cases present : r.functions.rowAt? index with
  | none =>
    unfold removeFunction
    rw [present]
    exact tallied
  | some row =>
    intro m
    have counted := SlotTable.count_remove (p := fun f : FunctionRow => f.owner = m) present
    simp only [← tallied m, decide_eq_true_eq, eq_comm (a := row.owner)] at counted
    rw [functions_removeFunction present, entry_removeFunction present]
    omega

/-- What holds of both kinds of count. -/
structure Exact (r : Registry) : Prop where
  types : r.Tallied
  functions : r.FunctionsTallied

theorem Exact.foldl_removeRow (exact : r.Exact) (indexes : List Nat) :
    (indexes.foldl removeRow r).Exact := by
  induction indexes generalizing r with
  | nil => exact exact
  | cons first rest ih =>
    exact ih ⟨removeRow_tallied exact.types first, removeRow_functionsTallied exact.functions first⟩

theorem Exact.foldl_removeFunction (exact : r.Exact) (indexes : List Nat) :
    (indexes.foldl removeFunction r).Exact := by
  induction indexes generalizing r with
  | nil => exact exact
  | cons first rest ih =>
    apply ih
    constructor
    · exact removeFunction_tallied exact.types first
    · exact removeFunction_functionsTallied exact.functions first

end Registry

/-- The registries that a change goes through while it removes the rows and functions of a module,
one after another, or merges the types of an image. -/
inductive Operation.Passes (r : Registry) : Operation → Registry → Prop where
  | begins (op : Operation) : Passes r op r
  | emptying {m : ModuleId} {before later : List Nat}
      (listed : r.types.positions (·.owner = m) = before ++ later) :
      Passes r (.unregister m) (before.foldl Registry.removeRow r)
  | clearing {m : ModuleId} {before later : List Nat}
      (listed : r.functions.positions (·.owner = m) = before ++ later) :
      Passes r (.unregister m) (before.foldl Registry.removeFunction
        ((r.types.positions (·.owner = m)).foldl Registry.removeRow r))
  | merging {exports : ExportTable} {bytes : List UInt8} {options : MergeOptions}
      {before later : List Image.ReadType}
      (decoded : Image.decode exports bytes = .ok (before ++ later)) :
      Passes r (.merge exports bytes options) (before.foldl (Registry.mergeType options) (r, {})).1

namespace Registry

variable {r s : Registry}

theorem Merged.functionsTallied {options : MergeOptions} {type : Image.ReadType}
    (tallied : r.FunctionsTallied) (merged : Merged options type r s) : s.FunctionsTallied := by
  cases merged with
  | added fresh => exact insertRow_functionsTallied (tallied.withNames _) _
  | @replaced index old present same published allowed =>
    generalize Image.carryOver (Image.buildRow r.names type (options.owner.getD type.owner)) old =
      draft
    exact replaceRow_functionsTallied (tallied.withNames draft.2) present draft.1
  | kept present same => exact tallied

theorem MergedAll.exact {options : MergeOptions} {exports : ExportTable}
    {types : List Image.ReadType} (consistent : r.Consistent) (exact : r.Exact)
    (merged : MergedAll options exports r types s) : s.Exact := by
  induction merged with
  | none => exact exact
  | next before _ last ih =>
    exact ⟨last.tallied (before.consistent consistent) ih.types, last.functionsTallied ih.functions⟩

theorem unregisterModule_functionsTallied (exact : r.Exact) (m : ModuleId) :
    (r.unregisterModule m).2.FunctionsTallied := by
  have emptied : (r.withoutRowsOf m).FunctionsTallied :=
    ((exact.foldl_removeRow _).foldl_removeFunction _).functions
  have swept := functions_unregisterModule r m
  rw [unregisterModule_eq] at swept ⊢
  intro k
  by_cases same : k = m
  · rw [same, swept, SlotTable.count_eq_zero]
    · simp [entry, moduleInfo?]
    · exact fun index row present => (SlotTable.rowAt?_sweep.mp present).2
  · have kept := emptied k
    rw [entry, moduleInfo?] at kept ⊢
    rw [Index.find?_erase, if_neg same]
    exact kept

end Registry

namespace Operation

open Registry

variable {r s : Registry} {op : Operation}

/-- The counts are exact wherever a change goes through. -/
theorem Passes.exact (consistent : r.Consistent) (exact : r.Exact) (passes : op.Passes r s) :
    s.Exact := by
  cases passes with
  | begins => exact exact
  | emptying listed => exact exact.foldl_removeRow _
  | clearing listed => exact (exact.foldl_removeRow _).foldl_removeFunction _
  | merging decoded =>
    have backed := fun type listed =>
      Image.decode_backed decoded type (List.mem_append_left _ listed)
    exact (foldl_mergeType consistent backed {}).exact consistent exact

theorem run_functionsTallied (consistent : r.Consistent) (free : r.functions.FreeExact)
    (exact : r.Exact) (op : Operation) : (op.run r).FunctionsTallied := by
  have tallied := exact.functions
  cases op with
  | configure config => exact tallied.congr rfl fun _ => rfl
  | intern text user => exact tallied.withNames _
  | declare m name =>
    refine tallied.congr rfl fun k => ?_
    apply kept_updateModule ModuleInfo.functions
    exact fun _ => rfl
  | markInitialized m =>
    refine tallied.congr rfl fun k => ?_
    apply kept_updateModule ModuleInfo.functions
    exact fun _ => rfl
  | addFunction owner name params returnType callable =>
    rw [run, Registry.addFunction]
    dsimp only
    split
    · exact tallied
    · exact insertFunction_functionsTallied (tallied.withNames _) free _
  | unregister m => exact unregisterModule_functionsTallied exact m
  | merge exports bytes options =>
    rw [run]
    rcases merge_merged consistent exports bytes options with same | ⟨types, -, merged⟩
    · rw [same]
      exact tallied
    · exact (merged.exact consistent exact).functions
  | skeleton u type owner => exact insertRow_functionsTallied (tallied.withNames _) _
  | commit h draft => exact commit_functionsTallied tallied h draft
  | discard h =>
    rw [run, discardPending]
    split
    · split
      · exact tallied
      · exact removeRow_functionsTallied tallied _
    · exact tallied

end Operation

namespace Registry

variable {r : Registry} {index : Nat}

theorem removeRow_lowers (tallied : r.Tallied) {row : Row}
    (present : r.types.rowAt? index = some row) (published : row.published = true) :
    ((r.removeRow index).entry row.owner).types + 1 = (r.entry row.owner).types := by
  have counted := SlotTable.count_remove (p := owned row.owner) present
  simp only [owned_of_published published, if_true] at counted
  rw [removeRow_tallied tallied index row.owner, types_removeRow present, tallied, counted]

theorem replaceRow_lowers (tallied : r.Tallied) {old row : Row}
    (present : r.types.rowAt? index = some old) (before : old.published = true)
    (after : row.published = true) (others : row.owner ≠ old.owner) :
    ((r.replaceRow index row).entry old.owner).types + 1 = (r.entry old.owner).types := by
  have counted := SlotTable.count_replace (p := owned old.owner) present row
  simp only [owned_of_published before, owned_of_published after, if_true, others.symm,
    if_false] at counted
  rw [replaceRow_tallied tallied present before after old.owner, types_replaceRow present, tallied]
  exact counted

theorem removeFunction_lowers (tallied : r.FunctionsTallied) {row : FunctionRow}
    (present : r.functions.rowAt? index = some row) :
    ((r.removeFunction index).entry row.owner).functions + 1 = (r.entry row.owner).functions := by
  have counted := SlotTable.count_remove (p := fun f : FunctionRow => f.owner = row.owner) present
  simp only [decide_true, if_true] at counted
  rw [removeFunction_functionsTallied tallied index row.owner, functions_removeFunction present,
    tallied, counted]

theorem length_publishedRows (r : Registry) (m : ModuleId) :
    (r.publishedRows.filter fun (_, row) => row.owner = m).length = r.types.count (owned m) := by
  rw [SlotTable.count_eq_length, publishedRows, List.filter_map, List.length_map,
    List.filter_filter]
  congr 2
  funext item
  simp [owned, Bool.and_comm]

theorem length_functionRows (r : Registry) (m : ModuleId) :
    (r.functionRows.filter fun (_, row) => row.owner = m).length =
      r.functions.count (·.owner = m) := by
  rw [SlotTable.count_eq_length, functionRows, List.filter_map, List.length_map]
  rfl

end Registry

namespace Catalog

variable {u : Universe} {c : Catalog}

theorem Reachable.exact (reachable : Reachable u c) (n : Nat) : (c.registry n).Exact := by
  refine ⟨reachable.tallied n, ?_⟩
  induction reachable generalizing n with
  | refl => exact fun _ => rfl
  | tail before step ih =>
    rcases step.changed n with same | ⟨op, _, _, after⟩
    · exact same ▸ ih n
    · rw [after]
      exact op.run_functionsTallied (Reachable.allConsistent before n)
        (Reachable.functionsHeld before n).free ⟨Reachable.tallied before n, ih n⟩

/-- In every state that can be reached, the entry of each module counts exactly the published rows
and the functions that the module owns; a module without an entry owns none. No count is lowered that
is zero already: wherever a change goes through, a published row that is removed, or replaced by one
of another owner, and a function that is removed was counted in the entry of its owner, where the
count is then less by one. -/
theorem bookkeeping_is_exact (reachable : Reachable u c) (n : Nat) :
    let r := c.registry n
    let rows (m : ModuleId) := r.publishedRows.filter fun (_, row) => row.owner = m
    let functions (m : ModuleId) := r.functionRows.filter fun (_, row) => row.owner = m
    (∀ m, (rows m).length = (r.entry m).types ∧ (functions m).length = (r.entry m).functions ∧
      (r.moduleInfo? m = none → rows m = [] ∧ functions m = [])) ∧
    ∀ op s, Operation.Passes r op s →
      (∀ index row, s.types.rowAt? index = some row → row.published = true →
        ((s.removeRow index).entry row.owner).types + 1 = (s.entry row.owner).types ∧
        ∀ new : Row, new.published = true → new.owner ≠ row.owner →
          ((s.replaceRow index new).entry row.owner).types + 1 = (s.entry row.owner).types) ∧
      ∀ index row, s.functions.rowAt? index = some row →
        ((s.removeFunction index).entry row.owner).functions + 1 =
          (s.entry row.owner).functions := by
  intro r rows functions
  have exact := reachable.exact n
  have types : ∀ m, (rows m).length = (r.entry m).types := fun m =>
    (r.length_publishedRows m).trans (exact.types m).symm
  have counts : ∀ m, (functions m).length = (r.entry m).functions := fun m =>
    (r.length_functionRows m).trans (exact.functions m).symm
  constructor
  · intro m
    refine ⟨types m, counts m, fun absent => ?_⟩
    have zero : r.entry m = {} := by rw [Registry.entry, absent, Option.getD_none]
    exact ⟨List.eq_nil_of_length_eq_zero ((types m).trans (by rw [zero])),
      List.eq_nil_of_length_eq_zero ((counts m).trans (by rw [zero]))⟩
  · intro op s passes
    have within := passes.exact (reachable.allConsistent n) exact
    refine ⟨fun index row present published => ⟨?_, ?_⟩, fun index row present => ?_⟩
    · exact Registry.removeRow_lowers within.types present published
    · exact fun new after others =>
        Registry.replaceRow_lowers within.types present published after others
    · exact Registry.removeFunction_lowers within.functions present

/-- A module that has registered one function has it counted until the function is removed. -/
theorem one_function_counted :
    let c := Script.oneFunction.catalog []
    let m := ModuleId.ofName "one"
    ((c.registry 0).functionRows.filter fun (_, row) => row.owner = m).length = 1 ∧
      (((c.registry 0).removeFunction 0).entry m).functions = 0 := by
  intro c m
  have exact := bookkeeping_is_exact Script.oneFunction_ready.1 0
  have computed : ((c.registry 0).entry m).functions = 1 ∧
      ((c.registry 0).functions.rowAt? 0).any (fun row => row.owner = m) = true := by
    decide +kernel
  obtain ⟨row, present, own⟩ := (Option.any_eq_true _ _).mp computed.2
  have lowered := (exact.2 (.unregister m) _ (.begins _)).2 0 row present
  rw [of_decide_eq_true own, computed.1] at lowered
  exact ⟨(exact.1 m).2.1.trans computed.1, Nat.succ.inj lowered⟩

end Catalog

end TypeCatalog
