import TypeCatalog.Proofs.Image.Rewriting
import TypeCatalog.Proofs.RestoredNames

/-!
Writing again what an image has brought back. An image is read as just what it is written from, so
rows that have been brought back as rows of their old owners make the same image again, and all that
they need has its slot from the first time.
-/
namespace TypeCatalog

theorem Image.ReadField.stored_stored (f : ReadField) : f.stored.stored = f.stored := by
  unfold stored
  cases f.offset with
  | none => rfl
  | some offset => by_cases last : offset = unknownOffset <;> simp [Option.filter_some, last]

/-- What is read of a row that an image has brought back is what was read of the old one. -/
theorem Row.Restores.read_eq {new old : Row} (restores : new.Restores old old.owner) :
    Image.ReadType.of new = Image.ReadType.of old := by
  have fields : new.fields.map (fun f => (Image.ReadField.of f).stored) =
      old.fields.map fun f => (Image.ReadField.of f).stored := by
    have stored := congrArg (List.map Image.ReadField.stored) restores.fields
    rw [List.map_map, List.map_map] at stored
    refine stored.trans (List.map_congr_left fun f _ => ?_)
    exact Image.ReadField.stored_stored (.of f)
  simp only [Image.ReadType.of, restores.name, restores.typeHash, restores.owner, restores.size,
    restores.align, restores.flags, fields, restores.methods, restores.constructors,
    restores.attributes]

namespace Catalog

variable {u : Universe} {c d : Catalog}

/-- Once a registry has been written, writing its rows again, or rows of which the same is read,
makes the same image and gives no new slot. -/
theorem ofRows_again (reachable : Reachable u c) {n : Nat}
    (run : Relation.ReflTransGen (Step u) (c.written n) d) {rows : List Row}
    (same : rows.map Image.ReadType.of =
      ((c.registry n).publishedRows.map (·.2)).map Image.ReadType.of) :
    Image.Sections.ofRows d.exports rows = (c.sections n).withExports d.exports := by
  have written : Reachable u (c.written n) := reachable.tail (.move (.write n))
  rw [Image.Sections.ofRows_of_read same]
  exact Image.Sections.ofRows_later (exports_grow written run)

/-- What has been written of a registry is merged later into an empty one, each row for its old
owner. Then writing the filled registry makes the same image, byte for byte, and gives no new slot;
and so does writing the registry itself again, as it was. -/
theorem restored_rows_written_alike (attained : Attained u c) {n : Nat} (fits : (c.sections n).Fits)
    (aligned : ∀ h row, (c.registry n).row? h = some row → row.align.toNat < UInt32.size)
    (run : Relation.ReflTransGen (Step u) (c.written n) d) {m : Nat}
    (empty : (d.registry m).types = .empty) (options : MergeOptions)
    (owners : options.owner = none) :
    let image := (Image.ofRegistry (c.registry n) c.exports).1
    let merged := (d.registry m).merge d.exports image options
    merged.1 = .ok { added := (c.registry n).publishedRows.length } ∧
      Image.ofRegistry merged.2 d.exports = (image, d.exports) ∧
      Image.ofRegistry (c.registry n) d.exports = (image, d.exports) := by
  rw [image_sections]
  intro image merged
  have written : Reachable u (c.written n) := attained.reachable.tail (.move (.write n))
  have reachable : Reachable u d := Relation.ReflTransGen.trans written run
  obtain ⟨ended, kept⟩ := attained.kept
  have read := decode_written attained fits aligned (exports_grow written run)
  obtain ⟨answer, restored⟩ := Registry.merge_restored (reachable.allConsistent m) empty read
    (Registry.storable_publishedRows (kept.rows n)) (Registry.nodup_hashes (kept.consistent n))
    options
  have again : ∀ r : Registry, (r.publishedRows.map (·.2)).map Image.ReadType.of =
      ((c.registry n).publishedRows.map (·.2)).map Image.ReadType.of →
      Image.ofRegistry r d.exports = ((c.sections n).image, d.exports) := by
    intro r same
    have sections := ofRows_again attained.reachable run same
    exact congrArg (fun s : Image.Sections => (s.image, s.exports)) sections
  refine ⟨?_, again _ ?_, again _ rfl⟩
  · rw [answer, List.length_map]
  · rw [List.map_map, List.map_map, ← List.forall₂_eq_eq_eq, List.forall₂_map_left_iff,
      List.forall₂_map_right_iff]
    refine restored.publishedRows.imp fun new old restores => ?_
    rw [owners, Option.getD_none] at restores
    exact restores.read_eq

/-- A field at the greatest offset comes back without its offset, and is written as it was. -/
theorem lost_offset_written_alike :
    let c := bothNamedAlike
    let image := (Image.ofRegistry (c.registry 0) c.exports).1
    let merged := ((c.written 0).registry 1).merge (c.written 0).exports image { policy := .reject }
    Attained Gallery.knownTypes c ∧ (c.sections 0).Fits ∧
      (c.written 0).exports.entries.length = 1 ∧
      merged.2.publishedRows.map (fun row => row.2.fields.map Field.offset) = [[none], []] ∧
      Image.ofRegistry merged.2 (c.written 0).exports = (image, (c.written 0).exports) := by
  refine ⟨attained_bothNamedAlike, fits_bothNamedAlike, ?_, ?_, ?_⟩
  · decide +kernel
  · decide +kernel
  · have again := restored_rows_written_alike attained_bothNamedAlike fits_bothNamedAlike
      aligned_bothNamedAlike .refl (d := bothNamedAlike.written 0) (m := 1) rfl
      { policy := .reject } rfl
    exact again.2.1

end Catalog

end TypeCatalog
