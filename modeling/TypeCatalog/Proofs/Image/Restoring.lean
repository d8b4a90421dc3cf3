import TypeCatalog.Proofs.Image.Reading
import TypeCatalog.Proofs.Merging

/-!
Merging what has been read of rows into a registry without types. No member is taken for a repeated
one, since the names and the signatures of a row are distinct, and no type for one that is present;
so there is one new row for each row, in their order, and it has all that an image carries.
-/
namespace TypeCatalog

namespace Image

theorem internAttribute_read (names : Interner) (a : ReadAttribute) (owner : ModuleId) :
    ReadAttribute.of (names.internAttribute a.key a.value owner).1 = a := by
  obtain ⟨key, value⟩ := a
  cases value <;> simp [Interner.internAttribute, ReadAttribute.of]

theorem internAttributes_read (owner : ModuleId) (names : Interner)
    (attributes : List ReadAttribute) :
    (internAttributes owner names attributes).1.map ReadAttribute.of = attributes := by
  induction attributes generalizing names with
  | nil => rfl
  | cons a rest ih =>
    simp only [internAttributes, List.map_cons, ih, internAttribute_read]

variable {owner : ModuleId} {start : Row} {before : Interner} {draft : RowDraft}

/-- Adding one after another what has distinct keys. -/
theorem foldl_adds {α κ : Type} {P : RowDraft → Prop} {step : RowDraft → α → RowDraft}
    (view : RowDraft → List α) (key : α → κ) {xs : List α}
    (one : ∀ x ∈ xs, ∀ d, P d → key x ∉ (view d).map key →
      P (step d x) ∧ view (step d x) = view d ++ [x])
    {d : RowDraft} (holds : P d) (distinct : ((view d ++ xs).map key).Nodup) :
    P (xs.foldl step d) ∧ view (xs.foldl step d) = view d ++ xs := by
  induction xs generalizing d with
  | nil => exact ⟨holds, (List.append_nil _).symm⟩
  | cons x xs ih =>
    have fresh : key x ∉ (view d).map key := by
      rw [List.map_append, List.nodup_append] at distinct
      exact fun listed => distinct.2.2 _ listed _ List.mem_cons_self rfl
    obtain ⟨kept, added⟩ := one x List.mem_cons_self d holds fresh
    have rest := ih (fun y listed => one y (List.mem_cons_of_mem x listed)) kept
      (by rwa [added, List.append_assoc, List.singleton_append])
    rwa [added, List.append_assoc, List.singleton_append] at rest

/-- Members of one kind with distinct keys are added one after another to a row that has none of the
kind. It has just these then, and is as it was apart from them. -/
theorem Drafted.foldl_adds {α κ : Type} {step : RowDraft → α → RowDraft} (view : Row → List α)
    (key : α → κ) (part : Row → Row → Row) {xs : List α}
    (one : ∀ x ∈ xs, ∀ d, Drafted owner start before d → d.1 = part draft.1 d.1 →
      key x ∉ (view d.1).map key →
        Drafted owner start before (step d x) ∧ (step d x).1 = part draft.1 (step d x).1 ∧
          view (step d x).1 = view d.1 ++ [x])
    (drafted : Drafted owner start before draft) (whole : draft.1 = part draft.1 draft.1)
    (empty : view draft.1 = []) (distinct : (xs.map key).Nodup) :
    let after := xs.foldl step draft
    Drafted owner start before after ∧ view after.1 = xs ∧ after.1 = part draft.1 after.1 := by
  obtain ⟨⟨kept, frame⟩, added⟩ := Image.foldl_adds
    (P := fun d => Drafted owner start before d ∧ d.1 = part draft.1 d.1) (fun d => view d.1) key
    (fun x listed d holds fresh => by
      obtain ⟨kept, frame, added⟩ := one x listed d holds.1 holds.2 fresh
      exact ⟨⟨kept, frame⟩, added⟩)
    ⟨drafted, whole⟩ (by rwa [empty])
  rw [empty, List.nil_append] at added
  exact ⟨kept, added, frame⟩

theorem fields_addReadField (drafted : Drafted owner start before draft) {f : ReadField}
    (fresh : f.name ∉ (draft.1.fields.map ReadField.of).map ReadField.name) :
    (addReadField owner draft f).1.fields.map ReadField.of =
      draft.1.fields.map ReadField.of ++ [f] := by
  rw [List.map_map] at fresh
  obtain ⟨entered, holds⟩ := entered_member owner draft.2 f.name f.attributes
  have absent : draft.1.fieldPosition? (draft.2.intern f.name owner).1.id = none := by
    cases known : draft.1.fieldPosition? (draft.2.intern f.name owner).1.id with
    | none => rfl
    | some position =>
      have id := (drafted.sound.fields.find?_iff _ position).mp known
      rw [List.getElem?_map, Option.map_eq_some_iff] at id
      obtain ⟨g, present, same⟩ := id
      have listed := List.mem_of_getElem? present
      have held := drafted.held g.name (Row.name_of_field listed)
      have name := (entered.keeps.holds held).eq_of_id holds same
      have text := congrArg Name.text name
      rw [Interner.intern_text] at text
      exact absurd (List.mem_map.mpr ⟨g, listed, text⟩) fresh
  simp only [addReadField, Row.addField, absent, List.map_append, List.map_cons, List.map_nil,
    ReadField.of, Interner.intern_text, internAttributes_read]

theorem methods_addReadMethod {m : ReadMethod}
    (fresh : m.signature ∉ (draft.1.methods.map ReadMethod.of).map ReadMethod.signature) :
    (addReadMethod owner draft m).1.methods.map ReadMethod.of =
      draft.1.methods.map ReadMethod.of ++ [m] := by
  have new : ¬ draft.1.methods.any (·.signature = m.signature) = true := by
    simpa [ReadMethod.of] using fresh
  simp only [addReadMethod, Row.addMethod, if_neg new, List.map_append, List.map_cons,
    List.map_nil, ReadMethod.of, Interner.intern_text, internAttributes_read]

theorem constructors_addReadConstructor {c : ReadConstructor}
    (fresh : c.signature ∉
      (draft.1.constructors.map ReadConstructor.of).map ReadConstructor.signature) :
    (addReadConstructor owner draft c).1.constructors.map ReadConstructor.of =
      draft.1.constructors.map ReadConstructor.of ++ [c] := by
  have new : ¬ draft.1.constructors.any (·.signature = c.signature) = true := by
    simpa [ReadConstructor.of] using fresh
  simp only [addReadConstructor, Row.addConstructor, if_neg new, List.map_append, List.map_cons,
    List.map_nil, ReadConstructor.of, internAttributes_read]

end Image

namespace Row

def withFields (row other : Row) : Row :=
  { row with fields := other.fields, fieldIndex := other.fieldIndex }

def withMethods (row other : Row) : Row :=
  { row with methods := other.methods, methodIndex := other.methodIndex }

def withConstructors (row other : Row) : Row := { row with constructors := other.constructors }

theorem addField_frame (row : Row) (field : Field) :
    row.addField field = row.withFields (row.addField field) := by
  unfold addField withFields
  split <;> rfl

theorem addMethod_frame (row : Row) (method : Method) :
    row.addMethod method = row.withMethods (row.addMethod method) := by
  unfold addMethod withMethods
  split <;> rfl

theorem addConstructor_frame {row : Row} {constructor : Constructor}
    (flagged : constructor.params = [] → row.flags.isDefaultConstructible = true) :
    row.addConstructor constructor = row.withConstructors (row.addConstructor constructor) := by
  unfold addConstructor withConstructors
  split
  · rfl
  · cases params : constructor.params with
    | nil =>
      have same : { row.flags with isDefaultConstructible := true } = row.flags := by
        rw [← flagged params]
      simp [same]
    | cons => rfl

theorem withFields_trans {a b c : Row} (first : b = a.withFields b) (second : c = b.withFields c) :
    c = a.withFields c := by
  rw [first] at second
  exact second

theorem withMethods_trans {a b c : Row} (first : b = a.withMethods b)
    (second : c = b.withMethods c) : c = a.withMethods c := by
  rw [first] at second
  exact second

theorem withConstructors_trans {a b c : Row} (first : b = a.withConstructors b)
    (second : c = b.withConstructors c) : c = a.withConstructors c := by
  rw [first] at second
  exact second

end Row

namespace Image

/-- What is read of a sound row: its members are distinct and its callables fit. -/
structure ReadType.Sound (type : ReadType) : Prop where
  fields : (type.fields.map ReadField.name).Nodup
  methods : (type.methods.map ReadMethod.signature).Nodup
  constructors : (type.constructors.map ReadConstructor.signature).Nodup
  methodArity : ∀ m ∈ type.methods, m.callable.arity = m.params.length
  constructorArity : ∀ c ∈ type.constructors, c.callable.arity = c.params.length
  defaultFlag : ∀ c ∈ type.constructors, c.params = [] → type.flags.isDefaultConstructible = true

theorem ReadType.of_sound {row : Row} (sound : row.Sound)
    (distinct : (row.fields.map (·.name.text)).Nodup) : (ReadType.of row).Sound where
  fields := by
    rw [ReadType.of, List.map_map]
    exact distinct
  methods := by
    rw [ReadType.of, List.map_map]
    exact sound.signatures
  constructors := by
    rw [ReadType.of, List.map_map]
    exact sound.constructors
  methodArity m listed := by
    obtain ⟨own, member, rfl⟩ := List.mem_map.mp listed
    exact sound.methodArity own member
  constructorArity c listed := by
    obtain ⟨own, member, rfl⟩ := List.mem_map.mp listed
    exact sound.constructorArity own member
  defaultFlag c listed := by
    obtain ⟨own, member, rfl⟩ := List.mem_map.mp listed
    exact sound.defaultFlag own member

variable {owner : ModuleId} {start : Row} {before : Interner} {draft : RowDraft}

theorem foldl_addReadField (drafted : Drafted owner start before draft) (none : draft.1.fields = [])
    {fields : List ReadField} (distinct : (fields.map ReadField.name).Nodup) :
    let after := fields.foldl (addReadField owner) draft
    Drafted owner start before after ∧ after.1.fields.map ReadField.of = fields ∧
      after.1 = draft.1.withFields after.1 := by
  refine drafted.foldl_adds (fun row => row.fields.map ReadField.of) ReadField.name Row.withFields
    ?_ rfl (List.map_eq_nil_iff.mpr none) distinct
  intro f listed d drafted frame fresh
  refine ⟨addReadField_drafted drafted f, ?_, fields_addReadField drafted fresh⟩
  exact Row.withFields_trans frame (Row.addField_frame _ _)

theorem foldl_addReadMethod (drafted : Drafted owner start before draft)
    (none : draft.1.methods = []) {methods : List ReadMethod}
    (distinct : (methods.map ReadMethod.signature).Nodup)
    (arity : ∀ m ∈ methods, m.callable.arity = m.params.length) :
    let after := methods.foldl (addReadMethod owner) draft
    Drafted owner start before after ∧ after.1.methods.map ReadMethod.of = methods ∧
      after.1 = draft.1.withMethods after.1 := by
  refine drafted.foldl_adds (fun row => row.methods.map ReadMethod.of) ReadMethod.signature
    Row.withMethods ?_ rfl (List.map_eq_nil_iff.mpr none) distinct
  intro m listed d drafted frame fresh
  refine ⟨addReadMethod_drafted drafted (arity m listed), ?_, methods_addReadMethod fresh⟩
  exact Row.withMethods_trans frame (Row.addMethod_frame _ _)

theorem foldl_addReadConstructor (drafted : Drafted owner start before draft)
    (none : draft.1.constructors = []) {constructors : List ReadConstructor}
    (distinct : (constructors.map ReadConstructor.signature).Nodup)
    (arity : ∀ c ∈ constructors, c.callable.arity = c.params.length)
    (flagged : ∀ c ∈ constructors, c.params = [] →
      draft.1.flags.isDefaultConstructible = true) :
    let after := constructors.foldl (addReadConstructor owner) draft
    Drafted owner start before after ∧
      after.1.constructors.map ReadConstructor.of = constructors ∧
      after.1 = draft.1.withConstructors after.1 := by
  refine drafted.foldl_adds (fun row => row.constructors.map ReadConstructor.of)
    ReadConstructor.signature Row.withConstructors ?_ rfl (List.map_eq_nil_iff.mpr none) distinct
  intro c listed d drafted frame fresh
  have flags : c.params = [] → d.1.flags.isDefaultConstructible = true := by
    intro params
    rw [frame]
    exact flagged c listed params
  refine ⟨addReadConstructor_drafted drafted (arity c listed), ?_,
    constructors_addReadConstructor fresh⟩
  exact Row.withConstructors_trans frame (Row.addConstructor_frame flags)

theorem buildMembers_restored {type : ReadType} (sound : type.Sound) (names : Interner)
    (owner : ModuleId) :
    let after := buildMembers names type owner
    Drafted owner (skeleton names type owner) names after ∧
      after.1.fields.map ReadField.of = type.fields ∧
      after.1.methods.map ReadMethod.of = type.methods ∧
      after.1.constructors.map ReadConstructor.of = type.constructors ∧
      after.1 = (((skeleton names type owner).withFields after.1).withMethods
        after.1).withConstructors after.1 := by
  obtain ⟨first, fields, ofFields⟩ :=
    foldl_addReadField (skeleton_drafted names type owner) rfl sound.fields
  rw [buildMembers]
  generalize type.fields.foldl (addReadField owner)
    (skeleton names type owner, (names.intern type.name owner).2) = a at *
  obtain ⟨second, methods, ofMethods⟩ :=
    foldl_addReadMethod first (by rw [ofFields]; rfl) sound.methods sound.methodArity
  generalize type.methods.foldl (addReadMethod owner) a = b at *
  obtain ⟨third, constructors, ofConstructors⟩ :=
    foldl_addReadConstructor second (by rw [ofMethods, ofFields]; rfl) sound.constructors
      sound.constructorArity (fun c listed params => by
        rw [ofMethods, ofFields]
        exact sound.defaultFlag c listed params)
  generalize type.constructors.foldl (addReadConstructor owner) b = d at *
  refine ⟨third, ?_, ?_, constructors, ?_⟩
  · rw [ofConstructors, ofMethods]
    exact fields
  · rw [ofConstructors]
    exact methods
  · rw [ofConstructors, ofMethods, ofFields]
    rfl

end Image

/-- A row that an image has brought back, as the row of a module. -/
structure Row.Restores (new old : Row) (owner : ModuleId) : Prop where
  published : new.published = true
  name : new.name.text = old.name.text
  typeHash : new.typeHash = old.typeHash
  owner : new.owner = owner
  size : new.size = old.size
  align : new.align = old.align
  flags : new.flags = old.flags
  fields : new.fields.map Image.ReadField.of =
    old.fields.map fun f => (Image.ReadField.of f).stored
  methods : new.methods.map Image.ReadMethod.of = old.methods.map Image.ReadMethod.of
  constructors : new.constructors.map Image.ReadConstructor.of =
    old.constructors.map Image.ReadConstructor.of
  attributes : new.attributes.map Image.ReadAttribute.of =
    old.attributes.map Image.ReadAttribute.of
  properties : new.properties = []
  bases : new.bases = []
  enumValues : new.enumValues = []

/-- What an image can be written of: a sound row whose fields have distinct names. -/
structure Row.Storable (row : Row) : Prop where
  sound : row.Sound
  distinct : (row.fields.map (·.name.text)).Nodup

theorem Image.buildRow_restores {old : Row} (storable : old.Storable) (names : Interner)
    (owner : ModuleId) : (buildRow names (ReadType.of old) owner).1.Restores old owner := by
  obtain ⟨_, fields, methods, constructors, frame⟩ :=
    buildMembers_restored (ReadType.of_sound storable.sound storable.distinct) names owner
  rw [buildRow_eq]
  generalize buildMembers names (ReadType.of old) owner = draft at *
  have others : ∀ {α : Type} (f : Row → α), f draft.1 = f ((((skeleton names (ReadType.of old)
      owner).withFields draft.1).withMethods draft.1).withConstructors draft.1) :=
    fun f => congrArg f frame
  exact {
    published := rfl
    name := (others (·.name.text)).trans (Interner.intern_text _ _ _)
    typeHash := others Row.typeHash
    owner := others Row.owner
    size := others Row.size
    align := others Row.align
    flags := others Row.flags
    fields
    methods
    constructors
    attributes := internAttributes_read owner draft.2 _
    properties := others Row.properties
    bases := others Row.bases
    enumValues := others Row.enumValues }

theorem SlotTable.rows_insert_of_full {ρ : Type} {t : SlotTable ρ} (full : t.free = []) (row : ρ) :
    (t.insert row).2.rows = t.rows ++ [((t.insert row).1, row)] := by
  rw [insert_of_full full]
  simp [rows, List.zipIdx_append]

namespace Registry

/-- The type of an image is not there yet. -/
theorem mergeType_fresh {r : Registry} (type : Image.ReadType)
    (fresh : r.byHash.find? type.typeHash = none) (options : MergeOptions) (report : MergeReport) :
    mergeType options (r, report) type =
      (({ r with names := (Image.buildRow r.names type (options.owner.getD type.owner)).2 }.insertRow
        (Image.buildRow r.names type (options.owner.getD type.owner)).1).2,
        { report with added := report.added + 1 }) := by
  simp only [mergeType, fresh, Option.bind_none]

/-- A registry that has been filled with rows, one slot after another. -/
structure Restored (options : MergeOptions) (r : Registry) (rows : List Row) : Prop where
  consistent : r.Consistent
  full : r.types.free = []
  rows : List.Forall₂ (fun new old => new.2.Restores old (options.owner.getD old.owner))
    r.types.rows rows

theorem Restored.hashes {options : MergeOptions} {r : Registry} {rows : List Row}
    (restored : Restored options r rows) :
    r.types.rows.map (·.2.typeHash) = rows.map Row.typeHash := by
  have all := restored.rows
  clear restored
  generalize r.types.rows = news at all ⊢
  induction all with
  | nil => rfl
  | cons first _ ih => rw [List.map_cons, List.map_cons, first.typeHash, ih]

theorem Restored.published {options : MergeOptions} {r : Registry} {rows : List Row}
    (restored : Restored options r rows) {index : Nat} {row : Row}
    (present : r.types.rowAt? index = some row) : row.published = true := by
  have listed : (⟨index, r.types.generationAt index⟩, row) ∈ r.types.rows :=
    SlotTable.mem_rows.mpr (SlotTable.get?_eq_some_iff.mpr ⟨present, rfl⟩)
  obtain ⟨position, within, here⟩ := List.mem_iff_getElem.mp listed
  have restores := restored.rows.get within (restored.rows.length_eq ▸ within)
  rw [List.get_eq_getElem, here] at restores
  exact restores.published

theorem Restored.publishedRows {options : MergeOptions} {r : Registry}
    {rows : List (TypeHandle × Row)} (restored : Restored options r (rows.map (·.2))) :
    List.Forall₂ (fun new old => new.2.Restores old.2 (options.owner.getD old.2.owner))
      r.publishedRows rows := by
  have all : ∀ new ∈ r.types.rows, new.2.published = true := fun _ listed =>
    restored.published (SlotTable.get?_eq_some_iff.mp (SlotTable.mem_rows.mp listed)).1
  rw [Registry.publishedRows, List.filter_eq_self.mpr all, List.forall₂_map_left_iff]
  exact List.forall₂_map_right_iff.mp restored.rows

theorem Restored.fresh {options : MergeOptions} {r : Registry} {rows : List Row}
    (restored : Restored options r rows) {hash : TypeHash} (absent : hash ∉ rows.map Row.typeHash) :
    r.byHash.find? hash = none := by
  cases found : r.byHash.find? hash with
  | none => rfl
  | some index =>
    obtain ⟨new, present, same⟩ := (restored.consistent.hash_iff hash index).mp found
    have listed : (⟨index, r.types.generationAt index⟩, new) ∈ r.types.rows :=
      SlotTable.mem_rows.mpr (SlotTable.get?_eq_some_iff.mpr ⟨present, rfl⟩)
    rw [← restored.hashes] at absent
    exact absurd (List.mem_map.mpr ⟨_, listed, same⟩) absent

theorem Restored.next {options : MergeOptions} {r : Registry} {rows : List Row}
    (restored : Restored options r rows) {row : Row} (storable : row.Storable)
    (absent : row.typeHash ∉ rows.map Row.typeHash) (report : MergeReport) :
    let s := mergeType options (r, report) (Image.ReadType.of row)
    Restored options s.1 (rows ++ [row]) ∧ s.2 = { report with added := report.added + 1 } := by
  have fresh := restored.fresh absent
  have restores : (Image.buildRow r.names (Image.ReadType.of row) (options.owner.getD
      (Image.ReadType.of row).owner)).1.Restores row (options.owner.getD row.owner) :=
    Image.buildRow_restores storable r.names _
  have added := mergeType_fresh (Image.ReadType.of row) fresh options report
  rw [added]
  generalize Image.buildRow r.names _ _ = built at restores ⊢
  refine ⟨⟨?_, ?_, ?_⟩, rfl⟩
  · apply insertRow_consistent (restored.consistent.withNames _)
    rw [restores.typeHash]
    exact fresh
  · rw [types_insertRow, SlotTable.insert_of_full restored.full]
    exact restored.full
  · rw [types_insertRow, SlotTable.rows_insert_of_full restored.full]
    exact List.rel_append restored.rows (.cons restores .nil)

theorem foldl_mergeType_restored {r : Registry} (consistent : r.Consistent)
    (empty : r.types = .empty) (options : MergeOptions) {rows : List Row}
    (storable : ∀ row ∈ rows, row.Storable) (distinct : (rows.map Row.typeHash).Nodup) :
    let s := (rows.map Image.ReadType.of).foldl (mergeType options) (r, {})
    Restored options s.1 rows ∧ s.2 = { added := rows.length } := by
  induction rows using List.reverseRecOn with
  | nil =>
    refine ⟨⟨consistent, ?_, ?_⟩, rfl⟩
    · rw [List.map_nil, List.foldl_nil, empty]
      rfl
    · rw [List.map_nil, List.foldl_nil, empty]
      exact .nil
  | append_singleton rows row ih =>
    rw [List.map_append, List.nodup_append] at distinct
    obtain ⟨restored, report⟩ := ih (fun x listed => storable x (List.mem_append_left _ listed))
      distinct.1
    have absent : row.typeHash ∉ rows.map Row.typeHash := fun listed =>
      distinct.2.2 _ listed _ List.mem_cons_self rfl
    rw [List.map_append, List.foldl_append]
    generalize (rows.map Image.ReadType.of).foldl (mergeType options) (r, {}) = state at *
    obtain ⟨s, before⟩ := state
    obtain ⟨next, counted⟩ := restored.next (storable row (by simp)) absent before
    refine ⟨next, counted.trans ?_⟩
    rw [show before = { added := rows.length } from report, List.length_append]
    rfl

/-- A registry without types has nothing that an image could repeat. -/
theorem merge_of_empty {r : Registry} (consistent : r.Consistent) (empty : r.types = .empty)
    {exports : ExportTable} {bytes : List UInt8} {types : List Image.ReadType}
    (read : Image.decode exports bytes = .ok types) (options : MergeOptions) :
    let s := types.foldl (mergeType options) (r, {})
    r.merge exports bytes options = (.ok s.2, s.1) := by
  have none : ∀ hash, r.byHash.find? hash = none := by
    have start : Restored options r [] :=
      ⟨consistent, by rw [empty]; rfl, by rw [empty]; exact .nil⟩
    exact fun hash => start.fresh List.not_mem_nil
  have clean : r.conflicting types = [] := by
    simp [conflicting, none]
  simp only [merge, read, clean]
  cases options.policy <;> rfl

/-- An image of rows is merged into a registry without types under any options. -/
theorem merge_restored {r : Registry} (consistent : r.Consistent) (empty : r.types = .empty)
    {exports : ExportTable} {bytes : List UInt8} {rows : List Row}
    (read : Image.decode exports bytes = .ok (rows.map .of)) (storable : ∀ row ∈ rows, row.Storable)
    (distinct : (rows.map Row.typeHash).Nodup) (options : MergeOptions) :
    let s := r.merge exports bytes options
    s.1 = .ok { added := rows.length } ∧ Restored options s.2 rows := by
  obtain ⟨restored, report⟩ := foldl_mergeType_restored consistent empty options storable distinct
  rw [merge_of_empty consistent empty read options]
  exact ⟨congrArg Except.ok report, restored⟩

end Registry

end TypeCatalog
