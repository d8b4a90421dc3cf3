import TypeCatalog.Proofs.Exports
import TypeCatalog.Proofs.Image.Restoring
import TypeCatalog.Proofs.Lookup

/-!
Writing the types of a registry and merging them elsewhere. What the image of a registry brings to an
empty one is the registry's published rows, in their order, with all that an image carries; the slots
that the image names are never given to something else, so this holds at any later time.
-/
namespace TypeCatalog

namespace Registry

variable {r : Registry}

theorem nodup_hashes (consistent : r.Consistent) :
    ((r.publishedRows.map (·.2)).map Row.typeHash).Nodup := by
  have ascending := List.pairwise_map.mp (SlotTable.pairwise_index_rows r.types)
  have distinct : r.types.rows.Pairwise fun a b => a.2.typeHash ≠ b.2.typeHash := by
    refine ascending.imp_of_mem fun {a b} first second less same => ?_
    have here := SlotTable.get?_eq_some_iff.mp (SlotTable.mem_rows.mp first)
    have there := SlotTable.get?_eq_some_iff.mp (SlotTable.mem_rows.mp second)
    exact Nat.ne_of_lt less (consistent.index_unique here.1 there.1 same)
  rw [publishedRows, List.map_map, List.map_map, List.nodup_iff_pairwise_ne, List.pairwise_map]
  exact distinct.filter _

theorem storable_publishedRows (held : r.RowsHeld) :
    ∀ row ∈ r.publishedRows.map (·.2), row.Storable := by
  intro row listed
  obtain ⟨⟨h, own⟩, member, rfl⟩ := List.mem_map.mp listed
  have found := mem_publishedRows.mp member
  exact ⟨(held.of_row? found).sound, (nodup_texts held found).1⟩

end Registry

namespace Catalog

variable {u : Universe} {c d : Catalog}

def sections (c : Catalog) (n : Nat) : Image.Sections :=
  .ofRows c.exports ((c.registry n).publishedRows.map (·.2))

theorem image_sections (c : Catalog) (n : Nat) :
    (Image.ofRegistry (c.registry n) c.exports).1 = (c.sections n).image := rfl

def written (c : Catalog) (n : Nat) : Catalog := { c with exports := (c.sections n).exports }

/-- The image of a registry whose callables take as many arguments as is shown is read as the
registry's published rows. -/
theorem decode_sections (reachable : Reachable u c) {n : Nat} (arities : ∀ h row,
      (c.registry n).row? h = some row →
        (∀ m ∈ row.methods, m.callable.arity = m.params.length) ∧
          ∀ k ∈ row.constructors, k.callable.arity = k.params.length)
    (fits : (c.sections n).Fits)
    (aligned : ∀ h row, (c.registry n).row? h = some row → row.align.toNat < UInt32.size)
    {later : ExportTable} (slots : (c.sections n).exports.entries <+: later.entries) :
    Image.decode later (c.sections n).image =
      .ok (((c.registry n).publishedRows.map (·.2)).map .of) := by
  obtain ⟨known, numbers⟩ := reachable.numbers
  have shown : ∀ row ∈ (c.registry n).publishedRows.map (·.2),
      ∃ h, (c.registry n).row? h = some row := by
    intro row listed
    obtain ⟨⟨h, own⟩, member, rfl⟩ := List.mem_map.mp listed
    exact ⟨h, Registry.mem_publishedRows.mp member⟩
  refine Image.Sections.decode_ofRows numbers.numbered numbers.slots
    (publishedRows_known (numbers.rows n)) ?_ ?_ (Registry.nodup_hashes (reachable.allConsistent n))
    ?_ fits slots
  · exact fun row listed => (shown row listed).elim fun h own => (arities h row own).1
  · exact fun row listed => (shown row listed).elim fun h own => (arities h row own).2
  · exact fun row listed => (shown row listed).elim fun h own => aligned h row own

theorem decode_written (attained : Attained u c) {n : Nat} (fits : (c.sections n).Fits)
    (aligned : ∀ h row, (c.registry n).row? h = some row → row.align.toNat < UInt32.size)
    {later : ExportTable} (slots : (c.sections n).exports.entries <+: later.entries) :
    Image.decode later (c.sections n).image =
      .ok (((c.registry n).publishedRows.map (·.2)).map .of) := by
  obtain ⟨ended, kept⟩ := attained.kept
  refine decode_sections attained.reachable (fun h row own => ?_) fits aligned slots
  have sound := ((kept.rows n).of_row? own).sound
  exact ⟨sound.methodArity, sound.constructorArity⟩

/-- Whatever has been written of a registry is merged later into an empty registry, under any
options, as one row for each published row, in their order and with all that an image carries. -/
theorem image_restores_rows (attained : Attained u c) {n : Nat} (fits : (c.sections n).Fits)
    (aligned : ∀ h row, (c.registry n).row? h = some row → row.align.toNat < UInt32.size)
    (run : Relation.ReflTransGen (Step u) (c.written n) d) {m : Nat}
    (empty : (d.registry m).types = .empty) (options : MergeOptions) :
    let image := (Image.ofRegistry (c.registry n) c.exports).1
    let merged := (d.registry m).merge d.exports image options
    merged.1 = .ok { added := (c.registry n).publishedRows.length } ∧
      merged.2.types.rows.length = (c.registry n).publishedRows.length ∧
      List.Forall₂ (fun new old => new.2.Restores old.2 (options.owner.getD old.2.owner))
        merged.2.publishedRows (c.registry n).publishedRows := by
  have first : Step u c (c.written n) := .move (.write n)
  have reachable : Reachable u (c.written n) := .tail attained.reachable first
  have read := decode_written attained fits aligned (exports_grow reachable run)
  obtain ⟨ended, kept⟩ := attained.kept
  have later : Reachable u d := Relation.ReflTransGen.trans reachable run
  have storable := Registry.storable_publishedRows (kept.rows n)
  have distinct := Registry.nodup_hashes (kept.consistent n)
  obtain ⟨answer, restored⟩ := Registry.merge_restored (Reachable.allConsistent later m) empty read
    storable distinct options
  rw [List.length_map] at answer
  rw [image_sections]
  refine ⟨answer, ?_, restored.publishedRows⟩
  rw [restored.rows.length_eq, List.length_map]

theorem fits_of_one_field {row : Row} {f : Field} (name : row.name.text = "zoo::A")
    (fieldName : f.name.text = "x") (plain : f.attributes = []) (fields : row.fields = [f])
    (methods : row.methods = []) (constructors : row.constructors = [])
    (attributes : row.attributes = []) : (Image.Sections.ofRows .empty [row]).Fits := by
  have short : "zoo::A".utf8ByteSize + "x".utf8ByteSize < 4294967296 := by decide
  constructor <;> simp [Image.Sections.ofRows, Image.Sections.addType, Image.Sections.addText,
    Image.TextTable.add, Image.Sections.addField, Image.Sections.addAttributes,
    Image.Sections.slotOf, ExportTable.slotOf, ExportTable.empty, name, fieldName, plain, fields,
    methods, constructors, attributes, short, UInt32.size, UInt64.size]

/-- The greatest offset comes back as none, in a row of the module that the merge names. -/
theorem greatest_offset_not_restored :
    let u := Gallery.knownTypes
    let options : MergeOptions := { policy := .reject, owner := some ⟨2⟩ }
    ∃ c, Attained u c ∧ (c.sections 0).Fits ∧
      let image := (Image.ofRegistry (c.registry 0) c.exports).1
      let merged := ((c.written 0).registry 1).merge (c.written 0).exports image options
      merged.1 = .ok { added := 1 } ∧ ∃ new ∈ merged.2.publishedRows, new.2.owner = ⟨2⟩ ∧
        new.2.fields.map (fun f => (f.name.text, f.offset)) = [("x", none)] := by
  intro u options
  obtain ⟨c, name, attained, text, exports, count, types⟩ :=
    one_field_described (some Image.unknownOffset)
  generalize isRow : (Registry.skeletonRow {} u (.user "A") ⟨1⟩).publish _ = row at types
  have rows : (c.registry 0).publishedRows = [(⟨0, 0⟩, row)] := by
    rw [Registry.publishedRows, types, ← isRow]
    rfl
  have own : row.name.text = "zoo::A" := by
    have entered : ∀ text, (Interner.empty.intern text ⟨1⟩).1.text = text :=
      fun text => Interner.intern_text _ text ⟨1⟩
    have canonical : canonicalName (u.rawName (.user "A")) = "zoo::A" := by decide +kernel
    rw [← canonical, ← isRow]
    exact entered _
  have fits : (c.sections 0).Fits := by
    rw [sections, exports, rows]
    exact fits_of_one_field own text rfl (by rw [← isRow]; rfl) (by rw [← isRow]; rfl)
      (by rw [← isRow]; rfl) (by rw [← isRow]; rfl)
  have aligned : ∀ h row, (c.registry 0).row? h = some row → row.align.toNat < UInt32.size := by
    intro h other found
    have listed := Registry.mem_publishedRows.mpr found
    rw [rows] at listed
    cases List.mem_singleton.mp listed
    have small : (u.align (.user "A")).toNat < UInt32.size := by decide
    rw [← isRow]
    exact small
  have empty : ((c.written 0).registry 1).types = .empty := by
    show (c.registry 1).types = .empty
    rw [registry_of_le (Nat.le_of_eq count)]
  obtain ⟨answer, _, restored⟩ := image_restores_rows attained fits aligned .refl empty options
  rw [rows] at answer restored
  refine ⟨c, attained, fits, answer, ?_⟩
  generalize (Registry.merge _ _ _ _).2.publishedRows = news at restored ⊢
  cases restored with
  | @cons new _ rest _ restores none =>
    refine ⟨new, List.mem_cons_self, restores.owner, ?_⟩
    have fields := congrArg (List.map fun f => (f.name, f.offset)) restores.fields
    rw [← isRow, List.map_map] at fields
    rw [← text]
    exact fields

end Catalog

end TypeCatalog
