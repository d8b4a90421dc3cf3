import TypeCatalog.Proofs.Operation

/-!
Who keeps the names of a row in the table. The owner of a row holds every name in it, so the names
stay as long as the row does: only removing the owner evicts them, and that removes the row too.
-/
namespace TypeCatalog

namespace Registry

theorem Merged.entered {options : MergeOptions} {exports : ExportTable} {type : Image.ReadType}
    {r s : Registry} (backed : type.Backed exports) (merged : Merged options type r s) :
    r.names.Entered (options.owner.getD type.owner) s.names := by
  cases merged with
  | added fresh =>
    have built := Image.buildRow_drafted backed r.names (options.owner.getD type.owner)
    simpa using built.entered
  | @replaced index old present same published allowed =>
    have drafted := (carryOver_facts backed r.names (options.owner.getD type.owner) old).1
    generalize Image.carryOver (Image.buildRow r.names type (options.owner.getD type.owner)) old =
      draft at drafted ⊢
    rw [names_replaceRow (r := { r with names := draft.2 }) present draft.1]
    exact drafted.entered
  | kept present same => exact .none

theorem MergedAll.keeps {options : MergeOptions} {exports : ExportTable} {r s : Registry}
    {types : List Image.ReadType} (merged : MergedAll options exports r types s) :
    r.names.Keeps s.names := by
  induction merged with
  | none => exact .refl _
  | next _ backed last ih => exact ih.trans (last.entered backed).keeps

theorem merge_keeps {r : Registry} (consistent : r.Consistent) (exports : ExportTable)
    (bytes : List UInt8) (options : MergeOptions) :
    r.names.Keeps (r.merge exports bytes options).2.names := by
  rcases merge_merged consistent exports bytes options with same | ⟨types, _, merged⟩
  · rw [same]
    exact .refl _
  · exact merged.keeps

end Registry

namespace Operation

variable {r : Registry}

/-- Every change but the removal of a module keeps all names where they are. -/
theorem keeps_run (consistent : r.Consistent) {op : Operation}
    (stays : ∀ m, op ≠ .unregister m) : r.names.Keeps (op.run r).names := by
  have same : r.names.Keeps r.names := .refl _
  cases op with
  | configure config => exact same
  | intern text user => exact (Interner.Entered.intern .none text).keeps
  | declare m name => exact (Interner.Entered.intern .none name).keeps
  | markInitialized m => exact same
  | addFunction owner name params returnType callable =>
    exact (r.addFunction_frame owner name params returnType callable).2.2.2.keeps
  | unregister m => exact absurd rfl (stays m)
  | merge exports bytes options =>
    exact Registry.merge_keeps consistent exports bytes options
  | skeleton u type owner =>
    rw [run, Registry.insertSkeleton_eq, Registry.names_insertRow]
    exact (Interner.Entered.intern .none _).keeps
  | commit h draft => rw [run, Registry.names_commit]; exact same
  | discard h => rw [run, Registry.names_discardPending]; exact same

/-- A module keeps what it holds until it is removed; the host always does. -/
theorem holds_run (consistent : r.Consistent) {op : Operation} {user : ModuleId} {name : Name}
    (holds : r.names.Holds user name)
    (stays : op = .unregister user → user = .host) : (op.run r).names.Holds user name := by
  by_cases removed : ∃ m, op = .unregister m
  · obtain ⟨m, rfl⟩ := removed
    rw [run, Registry.names_unregisterModule]
    exact holds.evict fun same => same ▸ stays (same ▸ rfl)
  · exact (keeps_run consistent fun m same => removed ⟨m, same⟩).holds holds

end Operation

/-- What lasts while names are entered and while other modules than the row's owner are removed, and
holds of the rows that begin a description or come from an image. -/
structure Row.Lasting (Q : Row → Interner → Prop) : Prop where
  keeps : ∀ {row : Row} {a b : Interner}, Q row a → a.Keeps b → Q row b
  evict : ∀ {row : Row} {names : Interner} {m : ModuleId}, Q row names → row.owner ≠ m →
    Q row (names.evict m).2
  skeleton : ∀ (r : Registry) (u : Universe) (type : TypeKey) (owner : ModuleId),
    Q (r.skeletonRow u type owner) (r.names.intern (canonicalName (u.rawName type)) owner).2
  built : ∀ {exports : ExportTable} {type : Image.ReadType}, type.Backed exports →
    ∀ names owner, Q (Image.buildRow names type owner).1 (Image.buildRow names type owner).2
  carried : ∀ {exports : ExportTable} {type : Image.ReadType}, type.Backed exports →
    ∀ names owner old, Q (Image.carryOver (Image.buildRow names type owner) old).1
      (Image.carryOver (Image.buildRow names type owner) old).2

namespace Registry

variable {Q : Row → Interner → Prop} {r s : Registry}

def RowsAmong (Q : Row → Interner → Prop) (r : Registry) : Prop :=
  ∀ index row, r.types.rowAt? index = some row → Q row r.names

/-- What lasts holds of the rows of a later table if it holds of those that are not old ones. -/
theorem RowsAmong.of_rows (lasting : Row.Lasting Q) (all : r.RowsAmong Q)
    (keeps : r.names.Keeps s.names)
    (rows : ∀ index row, s.types.rowAt? index = some row →
      (∃ slot, r.types.rowAt? slot = some row) ∨ Q row s.names) : s.RowsAmong Q := by
  intro index row present
  rcases rows index row present with ⟨slot, old⟩ | new
  · exact lasting.keeps (all slot row old) keeps
  · exact new

theorem RowsAmong.insertRow (lasting : Row.Lasting Q) (all : r.RowsAmong Q)
    (free : r.types.FreeExact) {names : Interner} (keeps : r.names.Keeps names) {row : Row}
    (new : Q row names) : (Registry.insertRow { r with names } row).2.RowsAmong Q := by
  refine all.of_rows lasting (by simpa using keeps) fun index other present => ?_
  rw [types_insertRow, SlotTable.rowAt?_insert free] at present
  split at present
  · cases Option.some.inj present
    exact .inr (by simpa using new)
  · exact .inl ⟨index, present⟩

theorem RowsAmong.replaceRow (lasting : Row.Lasting Q) (all : r.RowsAmong Q) {index : Nat}
    {old : Row} (there : r.types.rowAt? index = some old) {names : Interner}
    (keeps : r.names.Keeps names) {row : Row} (new : Q row names) :
    (Registry.replaceRow { r with names } index row).RowsAmong Q := by
  have after := names_replaceRow (r := { r with names }) there row
  refine all.of_rows lasting (after.symm ▸ keeps) fun slot other present => ?_
  rw [types_replaceRow (r := { r with names }) there,
    SlotTable.rowAt?_replace (SlotTable.lt_length_of_rowAt? there)] at present
  split at present
  · cases Option.some.inj present
    exact .inr (after.symm ▸ new)
  · exact .inl ⟨slot, present⟩

theorem Merged.rowsAmong {options : MergeOptions} {exports : ExportTable} {type : Image.ReadType}
    (lasting : Row.Lasting Q) (backed : type.Backed exports) (free : r.types.FreeExact)
    (all : r.RowsAmong Q) (merged : Merged options type r s) : s.RowsAmong Q := by
  cases merged with
  | added fresh =>
    have built := Image.buildRow_drafted backed r.names (options.owner.getD type.owner)
    exact all.insertRow lasting free built.entered.keeps (lasting.built backed _ _)
  | @replaced index old present same published allowed =>
    have drafted := (carryOver_facts backed r.names (options.owner.getD type.owner) old).1
    exact all.replaceRow lasting present drafted.entered.keeps (lasting.carried backed _ _ _)
  | kept present same => exact all

theorem merge_rowsAmong (lasting : Row.Lasting Q) (consistent : r.Consistent)
    (all : r.RowsAmong Q) (exports : ExportTable) (bytes : List UInt8) (options : MergeOptions) :
    (r.merge exports bytes options).2.RowsAmong Q := by
  rcases merge_merged consistent exports bytes options with same | ⟨types, -, merged⟩
  · rw [same]
    exact all
  · generalize (r.merge exports bytes options).2 = s at merged
    induction merged with
    | none => exact all
    | next before backed last ih =>
      exact last.rowsAmong lasting backed (before.consistent consistent).free ih

theorem unregisterModule_rowsAmong (lasting : Row.Lasting Q) (all : r.RowsAmong Q) (m : ModuleId) :
    (r.unregisterModule m).2.RowsAmong Q := by
  intro index row present
  rw [types_unregisterModule, SlotTable.rowAt?_sweep] at present
  have others : row.owner ≠ m := by simpa using present.2
  rw [names_unregisterModule]
  exact lasting.evict (all index row present.1) others

end Registry

/-- What lasts holds of all rows after a change if it holds of the row that a description is folded
into. -/
theorem Operation.run_rowsAmong {Q : Row → Interner → Prop} {r : Registry}
    (lasting : Row.Lasting Q) (consistent : r.Consistent) (all : r.RowsAmong Q) {op : Operation}
    (supplied : ∀ h draft old, op = .commit h draft → r.anyRow? h = some old →
      Q old r.names → Q (old.publish draft) r.names) : (op.run r).RowsAmong Q := by
  have keeps : (∀ m, op ≠ .unregister m) → r.names.Keeps (op.run r).names :=
    keeps_run consistent
  cases op.alters r with
  | nothing quiet types =>
    exact all.of_rows lasting (keeps fun m same => quiet (same ▸ trivial)) fun index _ present =>
      .inl ⟨index, types ▸ present⟩
  | adds u type owner types =>
    exact all.insertRow lasting consistent.free (Interner.Entered.intern .none _).keeps
      (lasting.skeleton r u type owner)
  | @publishes h old draft alive types =>
    have there := (SlotTable.get?_eq_some_iff.mp alive).1
    refine all.of_rows lasting (keeps (by simp)) fun index row present => ?_
    rw [types, SlotTable.rowAt?_modify, there] at present
    split at present
    · cases Option.some.inj present
      rw [run, Registry.names_commit]
      exact .inr (supplied h draft old rfl alive (all _ old there))
    · exact .inl ⟨index, present⟩
  | removes alive types =>
    refine all.of_rows lasting (keeps (by simp)) fun index row present => ?_
    rw [types, SlotTable.rowAt?_remove] at present
    split at present
    · contradiction
    · exact .inl ⟨index, present⟩
  | sweeps m types => exact Registry.unregisterModule_rowsAmong lasting all m
  | merges exports bytes options =>
    exact Registry.merge_rowsAmong lasting consistent all exports bytes options

/-- A sound row whose owner holds all of its names. -/
structure Row.HeldIn (row : Row) (names : Interner) : Prop where
  sound : row.Sound
  held : ∀ name ∈ row.names, names.Holds row.owner name

theorem Row.heldIn_lasting : Row.Lasting Row.HeldIn where
  keeps held keeps := ⟨held.sound, fun name listed => keeps.holds (held.held name listed)⟩
  evict held others := by
    refine ⟨held.sound, fun name listed => ?_⟩
    exact (held.held name listed).evict fun same => absurd same.symm others
  skeleton r u type owner := by
    refine ⟨Row.skeleton_sound _ _ _ _ _ _, fun name listed => ?_⟩
    have own : name = (r.skeletonRow u type owner).name := List.mem_singleton.mp listed
    rw [own]
    exact Interner.holds_intern _ _ _
  built backed names owner := by
    have built := Image.buildRow_drafted backed names owner
    exact ⟨built.sound, built.grows.owner ▸ built.held⟩
  carried backed names owner old := by
    obtain ⟨drafted, -, own⟩ := Registry.carryOver_facts backed names owner old
    exact ⟨drafted.sound, own.symm ▸ drafted.held⟩

/-- A draft that may be added to a row of a module. -/
structure Draft.HeldIn (draft : Draft) (owner : ModuleId) (names : Interner) : Prop where
  held : ∀ name ∈ draft.names, names.Holds owner name
  methodArity : ∀ m ∈ draft.methods, m.callable.arity = m.params.length
  constructorArity : ∀ c ∈ draft.constructors, c.callable.arity = c.params.length

theorem Row.HeldIn.publish {row : Row} {names : Interner} (held : row.HeldIn names)
    {draft : Draft} (added : draft.HeldIn row.owner names) : (row.publish draft).HeldIn names := by
  constructor
  · exact publish_sound held.sound added.methodArity added.constructorArity
  · rw [(publish_grows row draft).owner]
    exact publish_names held.held added.held

namespace Registry

/-- Every row is sound, and its names stay as long as its owner does. -/
def RowsHeld (r : Registry) : Prop :=
  ∀ index row, r.types.rowAt? index = some row → row.HeldIn r.names

theorem empty_rowsHeld (config : RegistryConfig) : RowsHeld { config } :=
  fun index row present => by simp at present

theorem unregisterModule_rowsHeld {r : Registry} (held : r.RowsHeld) (m : ModuleId) :
    (r.unregisterModule m).2.RowsHeld :=
  unregisterModule_rowsAmong Row.heldIn_lasting held m

end Registry

namespace Operation

variable {r : Registry}

/-- A description ends with a draft that its row can take. -/
def Supplied (r : Registry) : Operation → Prop
  | commit h draft => ∀ row, r.anyRow? h = some row → draft.HeldIn row.owner r.names
  | _ => True

theorem run_rowsHeld (consistent : r.Consistent) (held : r.RowsHeld) {op : Operation}
    (supplied : op.Supplied r) : (op.run r).RowsHeld := by
  refine run_rowsAmong Row.heldIn_lasting consistent held fun h draft old same alive row => ?_
  subst same
  exact row.publish (supplied old alive)

end Operation

end TypeCatalog
