import TypeCatalog.Proofs.Aliases
import TypeCatalog.Proofs.Notes
import TypeCatalog.Proofs.Rebuilding
import TypeCatalog.Proofs.RoundTrip

/-!
Merging the image of a registry into the registry itself, where types that are present are replaced.
Each type is read as it is, its names and those in its attributes are in the table and its owner
holds them, so entering them again gives the same names and changes no entry; and its members are no
repetitions of each other, so each is added again. Hence each row comes back as it was, in its slot,
and only the slot's generation is another.
-/
namespace TypeCatalog

theorem Interner.internAttribute_again {names : Interner} {owner : ModuleId}
    {a : Attribute} (noted : a.Noted (names.Holds owner)) :
    names.internAttribute a.key.text a.value owner = (a, names) := by
  obtain ⟨key, value⟩ := a
  have key := intern_of_holds noted.key
  cases value with
  | string text =>
    obtain ⟨name, held, rfl⟩ := noted.text text rfl
    simp only [internAttribute, key, intern_of_holds held]
  | _ => simp only [internAttribute, key]

namespace Image

variable {names : Interner} {owner : ModuleId}

theorem internAttributes_again {attributes : List Attribute}
    (noted : ∀ a ∈ attributes, a.Noted (names.Holds owner)) :
    internAttributes owner names (attributes.map .of) = (attributes, names) := by
  induction attributes with
  | nil => rfl
  | cons first rest ih =>
    have here : names.internAttribute (ReadAttribute.of first).key (ReadAttribute.of first).value
        owner = (first, names) :=
      Interner.internAttribute_again (noted first List.mem_cons_self)
    have later := ih fun a listed => noted a (List.mem_cons_of_mem first listed)
    simp only [List.map_cons, internAttributes, here, later]

theorem stored_of_known {f : Field} (known : f.offset ≠ some unknownOffset) :
    (ReadField.of f).stored = .of f := by
  have kept : f.offset.filter (· ≠ unknownOffset) = f.offset := by
    cases offset : f.offset with
    | none => rfl
    | some value => simp_all
  simp only [ReadField.stored, ReadField.of, kept]

theorem addReadField_again {f : Field} (held : names.Holds owner f.name)
    (noted : ∀ a ∈ f.attributes, a.Noted (names.Holds owner)) (row : Row) :
    addReadField owner (row, names) (.of f) = (row.addField f, names) := by
  simp only [addReadField, ReadField.of, Interner.intern_of_holds held,
    internAttributes_again noted]

theorem addReadMethod_again {m : Method} (held : names.Holds owner m.name)
    (noted : ∀ a ∈ m.attributes, a.Noted (names.Holds owner)) (row : Row) :
    addReadMethod owner (row, names) (.of m) = (row.addMethod m, names) := by
  simp only [addReadMethod, ReadMethod.of, Interner.intern_of_holds held,
    internAttributes_again noted]

theorem addReadConstructor_again {c : Constructor}
    (noted : ∀ a ∈ c.attributes, a.Noted (names.Holds owner)) (row : Row) :
    addReadConstructor owner (row, names) (.of c) = (row.addConstructor c, names) := by
  simp only [addReadConstructor, ReadConstructor.of, internAttributes_again noted]

theorem carryProperty_again {row : Row} {p : Property}
    (held : names.Holds row.owner p.name) :
    carryProperty (row, names) p = (row.addProperty p, names) := by
  simp only [carryProperty, Interner.intern_of_holds held]

theorem carryEnumValue_again {row : Row} {e : EnumValue}
    (held : names.Holds row.owner e.name) :
    carryEnumValue (row, names) e = (row.addEnumValue e, names) := by
  simp only [carryEnumValue, Interner.intern_of_holds held]

/-- Adding members one by one to a row of a module, when each leaves the names as they are. -/
theorem foldl_again {α : Type} {step : RowDraft → α → RowDraft} {add : Row → α → Row}
    {members : List α}
    (each : ∀ a ∈ members, ∀ row : Row, row.owner = owner →
      step (row, names) a = (add row a, names) ∧ (add row a).owner = owner)
    {row : Row} (own : row.owner = owner) :
    members.foldl step (row, names) = (members.foldl add row, names) ∧
      (members.foldl add row).owner = owner := by
  induction members generalizing row with
  | nil => exact ⟨rfl, own⟩
  | cons first rest ih =>
    obtain ⟨here, kept⟩ := each first List.mem_cons_self row own
    rw [List.foldl_cons, here]
    exact ih (fun a listed => each a (List.mem_cons_of_mem first listed)) kept

end Image

/-- A published row that comes back as it is once it has been read of an image: all that is named in
it is held by its owner, and no offset is the one that stands for none. -/
structure Row.Restorable (row : Row) (names : Interner) : Prop where
  held : row.HeldIn names
  notes : row.NotesHeld names
  composed : row.Composed
  published : row.published = true
  offsets : ∀ f ∈ row.fields, f.offset ≠ some Image.unknownOffset

namespace Image

variable {names : Interner} {row start : Row}
  (restorable : row.Restorable names) (own : start.owner = row.owner)
include restorable own

theorem addReadFields_again :
    row.fields.foldl (fun draft f => addReadField row.owner draft (ReadField.of f).stored)
        (start, names) = (row.fields.foldl Row.addField start, names) ∧
      (row.fields.foldl Row.addField start).owner = row.owner :=
  foldl_again (fun f listed r own => by
    rw [stored_of_known (restorable.offsets f listed)]
    have held := restorable.held.held f.name (Row.name_of_field listed)
    exact ⟨addReadField_again held (restorable.notes.fields f listed) r,
      (Row.addField_grows r f).owner.trans own⟩) own

theorem addReadMethods_again :
    row.methods.foldl (fun draft m => addReadMethod row.owner draft (.of m)) (start, names) =
        (row.methods.foldl Row.addMethod start, names) ∧
      (row.methods.foldl Row.addMethod start).owner = row.owner :=
  foldl_again (fun m listed r own => by
    have held := restorable.held.held m.name (Row.name_of_method listed)
    exact ⟨addReadMethod_again held (restorable.notes.methods m listed) r,
      (Row.addMethod_grows r m).owner.trans own⟩) own

theorem addReadConstructors_again :
    row.constructors.foldl (fun draft c => addReadConstructor row.owner draft (.of c))
        (start, names) = (row.constructors.foldl Row.addConstructor start, names) ∧
      (row.constructors.foldl Row.addConstructor start).owner = row.owner :=
  foldl_again (fun c listed r own =>
    ⟨addReadConstructor_again (restorable.notes.constructors c listed) r,
      (Row.addConstructor_grows r c).owner.trans own⟩) own

theorem carryProperties_again :
    row.properties.foldl carryProperty (start, names) =
        (row.properties.foldl Row.addProperty start, names) ∧
      (row.properties.foldl Row.addProperty start).owner = row.owner :=
  foldl_again (fun p listed r own => by
    have held := restorable.held.held p.name (Row.name_of_property listed)
    exact ⟨carryProperty_again (own ▸ held), (Row.addProperty_grows r p).owner.trans own⟩) own

theorem carryEnumValues_again :
    row.enumValues.foldl carryEnumValue (start, names) =
      (row.enumValues.foldl Row.addEnumValue start, names) :=
  (foldl_again (fun e listed r own => by
    have held := restorable.held.held e.name (Row.name_of_enumValue listed)
    exact ⟨carryEnumValue_again (own ▸ held),
      (Row.addEnumValue_grows r e).owner.trans own⟩) own).1

omit own

/-- What is read of a row is built as the row, apart from the members that no image carries. -/
theorem buildRow_again :
    buildRow names (.of row) row.owner = (row.recalled, names) ∧
      row.recalled.owner = row.owner := by
  have start : names.intern (ReadType.of row).name row.owner = (row.name, names) :=
    Interner.intern_of_holds (restorable.held.held row.name List.mem_cons_self)
  have skeleton : skeleton names (.of row) row.owner = row.bare := by
    rw [Image.skeleton, start]
    rfl
  obtain ⟨fields, own⟩ := addReadFields_again restorable
    (show row.bare.owner = row.owner from rfl)
  obtain ⟨methods, own⟩ := addReadMethods_again restorable own
  obtain ⟨constructors, own⟩ := addReadConstructors_again restorable own
  refine ⟨?_, own⟩
  rw [buildRow_eq, buildMembers, start, skeleton]
  simp only [ReadType.of, List.foldl_map]
  rw [fields, methods, constructors]
  simp only [internAttributes_again restorable.notes.own]
  rfl

/-- A row that takes its own place is the same row. -/
theorem carryOver_again : carryOver (buildRow names (.of row) row.owner) row = (row, names) := by
  obtain ⟨built, own⟩ := buildRow_again restorable
  obtain ⟨properties, own⟩ := carryProperties_again restorable own
  have bases := List.foldlRecOn row.bases Row.addBase (motive := fun r => r.owner = row.owner) own
    fun r own b _ => (Row.addBase_grows r b).owner.trans own
  have values := carryEnumValues_again restorable bases
  simp only [carryOver, built, properties, values]
  exact congrArg (·, names)
    (Row.rebuilt_eq restorable.held.sound restorable.composed restorable.published)

end Image

/-- The conflict of a row with itself. -/
def Row.ownConflict (row : Row) : Conflict :=
  ⟨row.typeHash, row.name.text, row.owner, row.owner, .replaced⟩

namespace Registry

variable {r : Registry} {options : MergeOptions}

/-- What is reported when rows have been replaced by themselves. -/
def ownReport (options : MergeOptions) (rows : List (TypeHandle × Row)) : MergeReport where
  replaced := rows.length
  conflicts := if options.collectConflicts then rows.map fun p => p.2.ownConflict else []

theorem mergeType_again {row : Row} (restorable : row.Restorable r.names)
    {index : Nat} (leads : r.byHash.find? row.typeHash = some index)
    (present : r.types.rowAt? index = some row) (replacing : options.policy = .replace)
    (own : options.owner = none) (report : MergeReport) :
    mergeType options (r, report) (.of row) =
      ({ r with types := r.types.replace index row },
        { report with
          replaced := report.replaced + 1
          conflicts := report.conflicts ++
            if options.collectConflicts then [row.ownConflict] else [] }) := by
  have again := Image.carryOver_again restorable
  have found : r.byHash.find? (Image.ReadType.of row).typeHash = some index := leads
  have allowed : replaces options row row.owner = true := by
    simp [replaces, replacing, restorable.published]
  have owner : options.owner.getD (Image.ReadType.of row).owner = row.owner := by
    rw [own]
    rfl
  simp only [mergeType, found, present, owner, Option.bind_some, Option.map_some, allowed, if_true,
    again, replaceRow]
  rfl

/-- Merging the types of a registry's own rows puts each row in its place again. -/
theorem foldl_mergeType_again (consistent : r.Consistent)
    (replacing : options.policy = .replace) (own : options.owner = none)
    {rows : List (TypeHandle × Row)} (distinct : (rows.map (·.1.slot.index)).Nodup)
    (present : ∀ p ∈ rows, r.types.rowAt? p.1.slot.index = some p.2)
    (restorable : ∀ p ∈ rows, p.2.Restorable r.names) :
    ∃ types, r.types.Renewed (rows.map (·.1.slot.index)) types ∧
      (rows.map fun p => Image.ReadType.of p.2).foldl (mergeType options) (r, {}) =
        ({ r with types }, ownReport options rows) := by
  induction rows using List.reverseRecOn with
  | nil =>
    refine ⟨r.types, r.types.renewed_none, ?_⟩
    simp [ownReport]
  | append_singleton rows last ih =>
    obtain ⟨before, fresh⟩ := Row.nodup_push distinct
    obtain ⟨types, renewed, merged⟩ := ih before
      (fun p listed => present p (List.mem_append_left _ listed))
      (fun p listed => restorable p (List.mem_append_left _ listed))
    have here := present last (by simp)
    have leads := (consistent.hash_iff last.2.typeHash last.1.slot.index).mpr ⟨last.2, here, rfl⟩
    have one := mergeType_again (r := { r with types }) (restorable last (by simp)) leads
      ((renewed.rowAt? _).trans here) replacing own
    refine ⟨types.replace last.1.slot.index last.2, ?_, ?_⟩
    · rw [List.map_append]
      exact renewed.next here (by simpa using fresh)
    · rw [List.map_append, List.foldl_append, merged, List.map_singleton, List.foldl_cons, one]
      cases collected : options.collectConflicts <;> simp [ownReport, collected]

/-- The image of the published rows is merged into their own registry. -/
theorem merge_again {exports : ExportTable} {bytes : List UInt8}
    (read : Image.decode exports bytes = .ok ((r.publishedRows.map (·.2)).map .of))
    (consistent : r.Consistent)
    (restorable : ∀ h row, r.row? h = some row → row.Restorable r.names)
    (replacing : options.policy = .replace) (own : options.owner = none) :
    ∃ types, r.types.Renewed (r.publishedRows.map (·.1.slot.index)) types ∧
      r.merge exports bytes options =
        (.ok (ownReport options r.publishedRows), { r with types }) := by
  have distinct : (r.publishedRows.map (·.1.slot.index)).Nodup := by
    have ascending := List.pairwise_map.mp (SlotTable.pairwise_index_rows r.types)
    rw [publishedRows, List.map_map, List.nodup_iff_pairwise_ne, List.pairwise_map]
    exact (ascending.imp fun less => Nat.ne_of_lt less).filter _
  obtain ⟨types, renewed, merged⟩ := foldl_mergeType_again consistent replacing own distinct
    (fun p listed => rowAt?_of_row? (mem_publishedRows.mp listed))
    (fun p listed => restorable p.1 p.2 (mem_publishedRows.mp listed))
  refine ⟨types, renewed, ?_⟩
  rw [List.map_map] at read
  simp only [merge, read, replacing]
  rw [show r.publishedRows.map (Image.ReadType.of ∘ fun p => p.2) =
    r.publishedRows.map fun p => Image.ReadType.of p.2 from rfl, merged]

end Registry

def TypeHandle.next (h : TypeHandle) : TypeHandle := ⟨h.slot.next⟩

namespace Registry

variable {r : Registry} {types : SlotTable Row} (renewed : r.types.AllRenewed types)
include renewed

theorem row?_next (h : TypeHandle) : ({ r with types } : Registry).row? h.next = r.row? h :=
  congrArg (Option.filter Row.published) (renewed.get?_next h.slot)

theorem row?_eq_none {h : TypeHandle} {row : Row} (found : r.row? h = some row) :
    ({ r with types } : Registry).row? h = none := by
  have dead := renewed.get?_eq_none (Option.filter_eq_some_iff.mp found).1
  rw [row?, anyRow?, dead, Option.filter_none]

theorem typeByName?_renewed (text : String) :
    ({ r with types } : Registry).typeByName? text =
      (r.typeByName? text).map TypeHandle.next := by
  unfold typeByName? byName?
  cases r.names.find? text with
  | none => rfl
  | some id =>
    cases leads : r.byName.find? id with
    | none => simp [leads]
    | some index =>
      cases there : r.types.refAt? index with
      | none => simp [leads, there, renewed.refAt?]
      | some ref =>
        have same : ({ r with types } : Registry).row? ⟨ref.next⟩ = r.row? ⟨ref⟩ :=
          row?_next renewed ⟨ref⟩
        cases shown : r.row? ⟨ref⟩ <;>
          simp [leads, there, renewed.refAt?, same, shown, TypeHandle.next]

theorem typeByHash?_renewed (hash : TypeHash) :
    ({ r with types } : Registry).typeByHash? hash =
      (r.typeByHash? hash).map TypeHandle.next := by
  unfold typeByHash? byHash? anyByHash?
  cases r.byHash.find? hash with
  | none => rfl
  | some index =>
    cases there : r.types.refAt? index with
    | none => simp [there, renewed.refAt?]
    | some ref =>
      cases present : r.types.rowAt? index with
      | none => simp [there, renewed.refAt?, present, renewed.rowAt?]
      | some row =>
        cases published : row.published <;>
          simp [there, renewed.refAt?, present, renewed.rowAt?, published, TypeHandle.next,
            Option.filter]

end Registry

namespace Catalog

variable {u : Universe} {c : Catalog}

theorem AttainedBy.restorable (annotated : AttainedBy Annotates u c) (n : Nat)
    (offsets : ∀ h row, (c.registry n).row? h = some row →
      ∀ f ∈ row.fields, f.offset ≠ some Image.unknownOffset) :
    ∀ h row, (c.registry n).row? h = some row → row.Restorable (c.registry n).names := by
  intro h row found
  obtain ⟨ended, kept⟩ := annotated.attained.kept
  have present := Registry.rowAt?_of_row? found
  exact {
    held := (kept.rows n).of_row? found
    notes := annotated.notesHeld n _ row present
    composed := annotated.attained.reachable.composed n _ row present
    published := (Option.filter_eq_some_iff.mp found).2
    offsets := offsets h row found }

/-- While no type of a registry is being described for the first time, the image of the registry can
be merged into it in place of its types. Every row then is in its slot, in the next generation, as
it was before: with the same names, members, attributes, properties, bases and alternatives in the
same order, and the same indexes. Everything else in the registry is as it was, too, its names,
modules and functions; and look-ups by name and by hash lead to the same slots. -/
theorem self_merge_renews_rows (annotated : AttainedBy Annotates u c) {n : Nat}
    (settled : c.Settled n) (fits : (c.sections n).Fits)
    (aligned : ∀ h row, (c.registry n).row? h = some row → row.align.toNat < UInt32.size)
    (offsets : ∀ h row, (c.registry n).row? h = some row →
      ∀ f ∈ row.fields, f.offset ≠ some Image.unknownOffset)
    {options : MergeOptions} (replacing : options.policy = .replace) (own : options.owner = none)
    {later : ExportTable} (slots : (c.written n).exports.entries <+: later.entries) :
    let r := c.registry n
    let image := (Image.ofRegistry r c.exports).1
    let merged := r.merge later image options
    let s := merged.2
    merged.1 = .ok (Registry.ownReport options r.publishedRows) ∧
      (∀ index, s.types.rowAt? index = r.types.rowAt? index) ∧
      (∀ index, s.types.generationAt index = if (r.types.rowAt? index).isSome then
        r.types.generationAt index + 1 else r.types.generationAt index) ∧
      s.types.free = r.types.free ∧
      (∀ h row, r.row? h = some row → s.row? h = none ∧ s.row? h.next = some row) ∧
      (∀ text, s.typeByName? text = (r.typeByName? text).map TypeHandle.next) ∧
      (∀ hash, s.typeByHash? hash = (r.typeByHash? hash).map TypeHandle.next) ∧
      s = { r with types := s.types } := by
  intro r image merged s
  obtain ⟨ended, kept⟩ := annotated.attained.kept
  obtain ⟨types, renewed, same⟩ := Registry.merge_again
    (decode_written annotated.attained fits aligned slots) (kept.consistent n)
    (annotated.restorable n offsets) replacing own
  have listed : ∀ index, index ∈ r.publishedRows.map (·.1.slot.index) ↔
      (r.types.rowAt? index).isSome = true := by
    intro index
    simp only [List.mem_map, Option.isSome_iff_exists]
    constructor
    · rintro ⟨p, member, rfl⟩
      exact ⟨p.2, Registry.rowAt?_of_row? (Registry.mem_publishedRows.mp member)⟩
    · rintro ⟨row, present⟩
      have published := annotated.attained.reachable.published settled present
      have shown : r.row? ⟨⟨index, r.types.generationAt index⟩⟩ = some row :=
        Option.filter_eq_some_iff.mpr
          ⟨SlotTable.get?_eq_some_iff.mpr ⟨present, rfl⟩, published⟩
      exact ⟨_, Registry.mem_publishedRows.mpr shown, rfl⟩
  have all := renewed.all listed
  have registry : s = { r with types } := congrArg Prod.snd same
  rw [registry]
  exact ⟨congrArg Prod.fst same, all.rowAt?, all.generationAt, all.free,
    fun h row found =>
      ⟨Registry.row?_eq_none all found, (Registry.row?_next all h).trans found⟩,
    Registry.typeByName?_renewed all, Registry.typeByHash?_renewed all, rfl⟩

/-- What a registry shows in which one type has been described, with one field, and that its image
can be written. -/
theorem one_field_written {name : Name} {offset : Option UInt64} {accessor : Accessor} {row : Row}
    (isRow : (Registry.skeletonRow {} Gallery.knownTypes (.user "A") ⟨1⟩).publish
      { fields := [⟨name, Gallery.knownTypes.hash (.primitive .bool), offset, accessor, []⟩] } =
        row)
    (text : name.text = "x") (exports : c.exports = .empty)
    (types : (c.registry 0).types = ⟨[⟨0, some row⟩], []⟩) :
    (c.registry 0).publishedRows = [(⟨0, 0⟩, row)] ∧ (c.sections 0).Fits ∧
      row.align.toNat < UInt32.size := by
  have rows : (c.registry 0).publishedRows = [(⟨0, 0⟩, row)] := by
    rw [Registry.publishedRows, types, ← isRow]
    rfl
  have own : row.name.text = "zoo::A" := by
    have entered : ∀ text, (Interner.empty.intern text ⟨1⟩).1.text = text :=
      fun text => Interner.intern_text _ text ⟨1⟩
    have canonical : canonicalName (Gallery.knownTypes.rawName (.user "A")) = "zoo::A" := by
      decide +kernel
    rw [← canonical, ← isRow]
    exact entered _
  have small : (Gallery.knownTypes.align (.user "A")).toNat < UInt32.size := by decide
  refine ⟨rows, ?_, by rw [← isRow]; exact small⟩
  rw [sections, exports, rows]
  exact fits_of_one_field own text rfl (by rw [← isRow]; rfl) (by rw [← isRow]; rfl)
    (by rw [← isRow]; rfl) (by rw [← isRow]; rfl)

/-- A type that takes its own place is the row of before, at its handle of the next generation. -/
theorem one_field_renewed :
    let u := Gallery.knownTypes
    let h : TypeHandle := ⟨0, 0⟩
    let options : MergeOptions := { policy := .replace }
    ∃ c, AttainedBy Annotates u c ∧ c.Settled 0 ∧ (c.sections 0).Fits ∧
      let r := c.registry 0
      let image := (Image.ofRegistry r c.exports).1
      let merged := r.merge (c.written 0).exports image options
      merged.1 = .ok { replaced := 1 } ∧ merged.2.row? h = none ∧
        ∃ row, r.row? h = some row ∧ merged.2.row? ⟨0, 1⟩ = some row ∧
          row.fields.map (fun f => (f.name.text, f.offset)) = [("x", some 8)] := by
  intro u h options
  obtain ⟨c, name, run, passes, text, exports, -, types⟩ := one_field_run (some 8)
  generalize isRow : (Registry.skeletonRow {} u (.user "A") ⟨1⟩).publish _ = row at types
  obtain ⟨rows, fits, small⟩ := one_field_written isRow text exports types
  have shown : (c.registry 0).row? h = some row :=
    Registry.mem_publishedRows.mp (rows ▸ List.mem_cons_self)
  have only : ∀ k other, (c.registry 0).row? k = some other → other = row := by
    intro k other found
    have listed := Registry.mem_publishedRows.mpr found
    rw [rows] at listed
    exact congrArg Prod.snd (List.mem_singleton.mp listed)
  have fields : row.fields.map (fun f => (f.name.text, f.offset)) = [("x", some 8)] := by
    rw [← isRow, ← text]
    rfl
  have settled : c.Settled 0 := by
    rw [Settled, passes]
    exact fun p listed => nomatch listed
  have offsets : ∀ k other, (c.registry 0).row? k = some other →
      ∀ f ∈ other.fields, f.offset ≠ some Image.unknownOffset := by
    intro k other found f listed
    have here := List.mem_map_of_mem (f := fun f => (f.name.text, f.offset)) listed
    rw [only k other found, fields] at here
    have offset : f.offset = some 8 := congrArg Prod.snd (List.mem_singleton.mp here)
    rw [offset]
    decide
  obtain ⟨answer, -, -, -, renewed, -⟩ := self_merge_renews_rows (.quiet run) settled fits
    (fun k other found => only k other found ▸ small) offsets
    (show options.policy = .replace from rfl) rfl List.prefix_rfl
  rw [rows] at answer
  obtain ⟨dead, alive⟩ := renewed h row shown
  exact ⟨c, .quiet run, settled, fits, answer, dead, row, shown, alive, fields⟩

end Catalog

end TypeCatalog
