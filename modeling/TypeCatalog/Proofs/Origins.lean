import TypeCatalog.Proofs.Operation

/-!
Where members come from. Whatever happens to a row, each field, method, constructor and base that it
has then was in it before, in the draft that was added to it, or in the type that an image brought. So
what holds of rows because of their members is kept by every change that brings no others.
-/
namespace TypeCatalog

namespace Row

/-- Whether the fields, methods, constructors and bases of a row are among given ones. -/
structure Within (row : Row) (fields : List Field) (methods : List Method)
    (constructors : List Constructor) (bases : List BaseLink) : Prop where
  fields : row.fields ⊆ fields
  methods : row.methods ⊆ methods
  constructors : row.constructors ⊆ constructors
  bases : row.bases ⊆ bases

section

variable {row : Row} {fields : List Field} {methods : List Method}
  {constructors : List Constructor} {bases : List BaseLink}

theorem within_addField (within : row.Within fields methods constructors bases) {f : Field}
    (listed : f ∈ fields) : (row.addField f).Within fields methods constructors bases := by
  unfold addField
  split
  · exact within
  · exact { within with fields := List.append_subset.mpr ⟨within.fields, by simpa using listed⟩ }

theorem within_addProperty (within : row.Within fields methods constructors bases)
    (p : Property) : (row.addProperty p).Within fields methods constructors bases := by
  unfold addProperty
  split
  · exact within
  · exact { within with }

theorem within_addMethod (within : row.Within fields methods constructors bases) {m : Method}
    (listed : m ∈ methods) : (row.addMethod m).Within fields methods constructors bases := by
  unfold addMethod
  split
  · exact within
  · exact { within with methods := List.append_subset.mpr ⟨within.methods, by simpa using listed⟩ }

theorem within_addConstructor (within : row.Within fields methods constructors bases)
    {c : Constructor} (listed : c ∈ constructors) :
    (row.addConstructor c).Within fields methods constructors bases := by
  unfold addConstructor
  split
  · exact within
  · exact { within with
      constructors := List.append_subset.mpr ⟨within.constructors, by simpa using listed⟩ }

theorem within_addBase (within : row.Within fields methods constructors bases) {b : BaseLink}
    (listed : b ∈ bases) : (row.addBase b).Within fields methods constructors bases := by
  unfold addBase
  split
  · exact within
  · exact { within with bases := List.append_subset.mpr ⟨within.bases, by simpa using listed⟩ }

theorem within_addEnumValue (within : row.Within fields methods constructors bases)
    (e : EnumValue) : (row.addEnumValue e).Within fields methods constructors bases := by
  unfold addEnumValue
  split
  · exact within
  · exact { within with }

end

theorem within_publish (row : Row) (draft : Draft) :
    (row.publish draft).Within (row.fields ++ draft.fields) (row.methods ++ draft.methods)
      (row.constructors ++ draft.constructors) (row.bases ++ draft.bases) := by
  refine publish_induction (P := fun r => r.Within (row.fields ++ draft.fields)
    (row.methods ++ draft.methods) (row.constructors ++ draft.constructors)
    (row.bases ++ draft.bases)) ?_ ?_ ?_ ?_ ?_ ?_ ?_ ?_
  · exact ⟨List.subset_append_left _ _, List.subset_append_left _ _, List.subset_append_left _ _,
      List.subset_append_left _ _⟩
  · exact fun r within f listed => within_addField within (List.mem_append_right _ listed)
  · exact fun r within p _ => within_addProperty within p
  · exact fun r within m listed => within_addMethod within (List.mem_append_right _ listed)
  · exact fun r within c listed => within_addConstructor within (List.mem_append_right _ listed)
  · exact fun r within b listed => within_addBase within (List.mem_append_right _ listed)
  · exact fun r within e _ => within_addEnumValue within e
  · exact fun r within => { within with }

end Row

namespace Image

/-- Whether the fields, methods and constructors of a row are those that were read of a type. -/
structure Built (type : ReadType) (row : Row) : Prop where
  fields : ∀ f ∈ row.fields, ∃ read ∈ type.fields, f.accessor = read.accessor
  methods : ∀ m ∈ row.methods, ∃ read ∈ type.methods,
    m.params = read.params ∧ m.flags = read.flags ∧ m.callable = read.callable
  constructors : ∀ c ∈ row.constructors, ∃ read ∈ type.constructors,
    c.params = read.params ∧ c.callable = read.callable
  bases : row.bases = []

theorem buildRow_built (names : Interner) (type : ReadType) (owner : ModuleId) :
    Built type (buildRow names type owner).1 := by
  have start : Built type (skeleton names type owner) :=
    ⟨by simp [skeleton], by simp [skeleton], by simp [skeleton], rfl⟩
  have members : Built type (buildMembers names type owner).1 := by
    refine buildMembers_induction (P := fun d => Built type d.1) start ?_ ?_ ?_
    · intro d built f listed
      simp only [addReadField, Row.addField]
      split
      · exact built
      · refine { built with fields := fun g there => ?_ }
        rcases List.mem_append.mp there with old | last
        · exact built.fields g old
        · exact ⟨f, listed, by rw [List.mem_singleton.mp last]⟩
    · intro d built m listed
      simp only [addReadMethod, Row.addMethod]
      split
      · exact built
      · refine { built with methods := fun g there => ?_ }
        rcases List.mem_append.mp there with old | last
        · exact built.methods g old
        · exact ⟨m, listed, by rw [List.mem_singleton.mp last]; exact ⟨rfl, rfl, rfl⟩⟩
    · intro d built c listed
      simp only [addReadConstructor, Row.addConstructor]
      split
      · exact built
      · refine { built with constructors := fun g there => ?_ }
        rcases List.mem_append.mp there with old | last
        · exact built.constructors g old
        · exact ⟨c, listed, by rw [List.mem_singleton.mp last]; exact ⟨rfl, rfl⟩⟩
  rw [buildRow_eq]
  exact { members with }

/-- Of the old row only the bases are kept, and members that no one else refers to. -/
theorem within_carryOver (draft : RowDraft) (old : Row) :
    (carryOver draft old).1.Within draft.1.fields draft.1.methods draft.1.constructors
      (draft.1.bases ++ old.bases) := by
  refine carryOver_induction (P := fun d => d.1.Within draft.1.fields draft.1.methods
    draft.1.constructors (draft.1.bases ++ old.bases)) ?_ old ?_ ?_ ?_
  · exact ⟨fun _ => id, fun _ => id, fun _ => id, List.subset_append_left _ _⟩
  · exact fun d within p _ => Row.within_addProperty within _
  · exact fun d within b listed => Row.within_addBase within (List.mem_append_right _ listed)
  · exact fun d within e => Row.within_addEnumValue within _

/-- Whether merging a type makes rows with a property: a new one, or one in the place of a row of
its hash that has the property. -/
structure Yields (Q : Row → Prop) (type : ReadType) : Prop where
  built : ∀ names owner, Q (buildRow names type owner).1
  carried : ∀ names owner old, Q old → old.typeHash = type.typeHash →
    Q (carryOver (buildRow names type owner) old).1

end Image

namespace Registry

variable {Q : Row → Prop} {r s : Registry}

theorem forall_rows_insert (all : ∀ index row, r.types.rowAt? index = some row → Q row)
    (free : r.types.FreeExact) {row : Row} (new : Q row) (types : s.types = (r.types.insert row).2) :
    ∀ index row, s.types.rowAt? index = some row → Q row := by
  intro index other present
  rw [types, SlotTable.rowAt?_insert free] at present
  split at present
  · exact Option.some.inj present ▸ new
  · exact all index other present

/-- Whether merging a type into a registry makes rows with a property: a new one, if no row has the
hash of the type, or one in the place of a row of that hash that has the property. -/
structure Brings (Q : Row → Prop) (options : MergeOptions) (r : Registry) (type : Image.ReadType) :
    Prop where
  built : r.byHash.find? type.typeHash = none → ∀ names,
    Q (Image.buildRow names type (options.owner.getD type.owner)).1
  carried : ∀ names old, Q old → old.typeHash = type.typeHash → old.published = true →
    options.policy = .replace →
    old.owner = options.owner.getD type.owner ∨ options.crossModule = true →
    Q (Image.carryOver (Image.buildRow names type (options.owner.getD type.owner)) old).1

theorem Brings.of_yields {type : Image.ReadType} (yields : Image.Yields Q type)
    (options : MergeOptions) (r : Registry) : Brings Q options r type where
  built _ names := yields.built names _
  carried names old has same _ _ _ := yields.carried names _ old has same

/-- A merge loses no hash. -/
theorem Merged.absent {options : MergeOptions} {exports : ExportTable} {type : Image.ReadType}
    (consistent : r.Consistent) (backed : type.Backed exports) (merged : Merged options type r s)
    {hash : TypeHash} (absent : s.byHash.find? hash = none) : r.byHash.find? hash = none := by
  cases found : r.byHash.find? hash with
  | none => rfl
  | some index =>
    obtain ⟨row, present, rfl⟩ := (consistent.hash_iff _ _).mp found
    have later : ∃ after, s.types.rowAt? index = some after ∧ after.typeHash = row.typeHash := by
      rcases merged.slots backed with
        ⟨new, types⟩ | ⟨slot, old, new, there, same, replaced, types⟩ | types
      · have empty := SlotTable.rowAt?_insert_index consistent.free new
        have elsewhere : index ≠ (r.types.insert new).1.index := by
          rintro rfl
          rw [present] at empty
          contradiction
        rw [types, SlotTable.rowAt?_insert consistent.free, if_neg elsewhere]
        exact ⟨row, present, rfl⟩
      · rw [types, SlotTable.rowAt?_replace (SlotTable.lt_length_of_rowAt? there)]
        split
        · rename_i here
          cases Option.some.inj (present.symm.trans (here ▸ there))
          exact ⟨new, rfl, replaced.trans same.symm⟩
        · exact ⟨row, present, rfl⟩
      · rw [types]
        exact ⟨row, present, rfl⟩
    rw [((merged.consistent backed consistent).hash_iff _ _).mpr later] at absent
    contradiction

theorem MergedAll.absent {options : MergeOptions} {exports : ExportTable}
    {types : List Image.ReadType} (consistent : r.Consistent)
    (merged : MergedAll options exports r types s) {hash : TypeHash}
    (absent : s.byHash.find? hash = .none) : r.byHash.find? hash = .none := by
  induction merged with
  | none => exact absent
  | next before backed last ih =>
    exact ih (last.absent (before.consistent consistent) backed absent)

theorem Merged.forall_rows {options : MergeOptions} {type : Image.ReadType}
    (all : ∀ index row, r.types.rowAt? index = some row → Q row) (free : r.types.FreeExact)
    (brings : Brings Q options r type) (merged : Merged options type r s) :
    ∀ index row, s.types.rowAt? index = some row → Q row := by
  cases merged with
  | added fresh => exact forall_rows_insert all free (brings.built fresh _) (types_insertRow _ _)
  | @replaced index old present same published allowed taken =>
    have new := brings.carried r.names old (all _ _ present) same published allowed taken
    generalize Image.carryOver (Image.buildRow r.names type (options.owner.getD type.owner)) old =
      draft at new ⊢
    intro slot other there
    rw [types_replaceRow (r := { r with names := draft.2 }) present,
      SlotTable.rowAt?_replace (SlotTable.lt_length_of_rowAt? present)] at there
    split at there
    · exact Option.some.inj there ▸ new
    · exact all slot other there
  | kept present same => exact all

theorem MergedAll.forall_rows {options : MergeOptions} {exports : ExportTable}
    {types : List Image.ReadType} (all : ∀ index row, r.types.rowAt? index = some row → Q row)
    (consistent : r.Consistent)
    (brings : ∀ type ∈ types, type.Backed exports → Brings Q options r type)
    (merged : MergedAll options exports r types s) :
    ∀ index row, s.types.rowAt? index = some row → Q row := by
  induction merged with
  | none => exact all
  | @next s t types type before backed last ih =>
    have earlier := ih fun type listed => brings type (List.mem_append_left _ listed)
    have first := brings type (List.mem_append_right _ List.mem_cons_self) backed
    have here : Brings Q options s type :=
      { first with built := fun absent => first.built (before.absent consistent absent) }
    exact last.forall_rows earlier (before.consistent consistent).free here

end Registry

namespace Operation

variable {Q : Row → Prop} {r : Registry}

/-- Whether the rows that a change makes have a property. -/
def Yields (Q : Row → Prop) (r : Registry) : Operation → Prop
  | skeleton u type owner => Q (r.skeletonRow u type owner)
  | commit h draft => ∀ old, r.anyRow? h = some old → Q old → Q (old.publish draft)
  | merge exports bytes options => ∀ types, Image.decode exports bytes = .ok types →
      ∀ type ∈ types, type.Backed exports → Registry.Brings Q options r type
  | _ => True

/-- What all rows have, and the rows that a change makes, all rows have afterwards. -/
theorem forall_rows (consistent : r.Consistent)
    (all : ∀ index row, r.types.rowAt? index = some row → Q row) {op : Operation}
    (yields : op.Yields Q r) : ∀ index row, (op.run r).types.rowAt? index = some row → Q row := by
  cases op.alters r with
  | nothing quiet types => exact fun index row present => all index row (types ▸ present)
  | adds u type owner types =>
    exact Registry.forall_rows_insert all consistent.free yields types
  | @publishes h old draft alive types =>
    have there := (SlotTable.get?_eq_some_iff.mp alive).1
    intro index row present
    rw [types, SlotTable.rowAt?_modify, there] at present
    split at present
    · cases Option.some.inj present
      exact yields old alive (all _ old there)
    · exact all index row present
  | removes alive types =>
    intro index row present
    rw [types, SlotTable.rowAt?_remove] at present
    split at present
    · contradiction
    · exact all index row present
  | sweeps m types =>
    intro index row present
    rw [types, SlotTable.rowAt?_sweep] at present
    exact all index row present.1
  | merges exports bytes options =>
    rcases Registry.merge_merged consistent exports bytes options with same | ⟨types, decoded, merged⟩
    · rw [run, same]
      exact all
    · exact merged.forall_rows all consistent (yields types decoded)

theorem forall_functions {Q : FunctionRow → Prop} (consistent : r.Consistent)
    (free : r.functions.FreeExact)
    (all : ∀ index row, r.functions.rowAt? index = some row → Q row) {op : Operation}
    (added : ∀ row, op.Adds row → Q row) :
    ∀ index row, (op.run r).functions.rowAt? index = some row → Q row := by
  intro index row present
  rcases functions_run consistent op with after | ⟨new, adds, after⟩ | ⟨m, after⟩
  · exact all index row (after ▸ present)
  · rw [after, SlotTable.rowAt?_insert free] at present
    split at present
    · exact Option.some.inj present ▸ added new adds
    · exact all index row present
  · rw [after, SlotTable.rowAt?_sweep] at present
    exact all index row present.1

end Operation

end TypeCatalog
