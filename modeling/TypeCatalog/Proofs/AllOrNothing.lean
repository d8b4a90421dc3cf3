import TypeCatalog.Proofs.Descriptions
import TypeCatalog.Proofs.Image.Restoring

/-!
A merge does all that it is asked for or nothing. It fails only before it changes anything: on bytes
that are no image, or, where conflicts are refused, on an image with a type that is there already.
What counts as there is any row of the type's hash, one that is still being described included, and
the look-up by hash that the refusal goes by finds exactly these.
-/
namespace TypeCatalog

namespace Registry

/-- Whether some row, pending or published, has a hash. -/
def holds (r : Registry) (hash : TypeHash) : Bool := r.types.rows.any (·.2.typeHash = hash)

theorem holds_eq_true {r : Registry} {hash : TypeHash} :
    r.holds hash = true ↔ ∃ index row, r.types.rowAt? index = some row ∧ row.typeHash = hash := by
  simp only [holds, List.any_eq_true, decide_eq_true_eq, Prod.exists, SlotTable.mem_rows,
    SlotTable.get?_eq_some_iff]
  constructor
  · rintro ⟨ref, row, ⟨present, _⟩, same⟩
    exact ⟨ref.index, row, present, same⟩
  · rintro ⟨index, row, present, same⟩
    exact ⟨⟨index, r.types.generationAt index⟩, row, ⟨present, rfl⟩, same⟩

theorem Consistent.find?_eq_none {r : Registry} (consistent : r.Consistent) {hash : TypeHash} :
    r.byHash.find? hash = none ↔ r.holds hash = false := by
  rw [← Bool.not_eq_true, holds_eq_true, Option.eq_none_iff_forall_ne_some, not_exists]
  exact forall_congr' fun index => not_congr (consistent.hash_iff hash index)

/-- The types that a refusal counts are those whose hash some row has. -/
theorem Consistent.conflicting {r : Registry} (consistent : r.Consistent)
    (types : List Image.ReadType) :
    r.conflicting types =
      (types.filter fun type => r.holds type.typeHash).map Image.ReadType.typeHash := by
  rw [Registry.conflicting, List.filter_map]
  congr 2
  funext type
  have absent : r.byHash.find? type.typeHash = none ↔ r.holds type.typeHash = false :=
    consistent.find?_eq_none
  cases held : r.holds type.typeHash with
  | true => exact Option.isSome_iff_ne_none.mpr fun none => by simp [absent.mp none] at held
  | false => exact Option.isSome_eq_false_iff.mpr (Option.isNone_iff_eq_none.mpr (absent.mpr held))

/-- A registry to which types of an image have been added: the rows of `r` are as they were, each
type has a new published row, and there are no others. -/
structure Extended (options : MergeOptions) (r s : Registry) (types : List Image.ReadType) :
    Prop where
  consistent : s.Consistent
  kept : ∀ h row, r.anyRow? h = some row → s.anyRow? h = some row
  added : ∀ type ∈ types, ∃ h names, r.anyRow? h = none ∧
    s.row? h = some (Image.buildRow names type (options.owner.getD type.owner)).1
  others : ∀ h row, s.anyRow? h = some row →
    r.anyRow? h = some row ∨ ∃ type ∈ types, row.typeHash = type.typeHash

theorem Extended.refl {options : MergeOptions} {r : Registry} (consistent : r.Consistent) :
    Extended options r r [] where
  consistent
  kept _ _ found := found
  added := by simp
  others _ _ found := .inl found

theorem Extended.fresh {options : MergeOptions} {r s : Registry} {types : List Image.ReadType}
    (extended : Extended options r s types) {hash : TypeHash} (absent : r.holds hash = false)
    (other : hash ∉ types.map Image.ReadType.typeHash) : s.byHash.find? hash = none := by
  rw [extended.consistent.find?_eq_none, ← Bool.not_eq_true, holds_eq_true]
  rintro ⟨index, row, present, same⟩
  have found : s.anyRow? ⟨index, s.types.generationAt index⟩ = some row :=
    SlotTable.get?_eq_some_iff.mpr ⟨present, rfl⟩
  rcases extended.others _ _ found with old | ⟨type, listed, here⟩
  · have there : r.holds hash = true :=
      holds_eq_true.mpr ⟨index, row, (SlotTable.get?_eq_some_iff.mp old).1, same⟩
    rw [absent] at there
    contradiction
  · exact other (List.mem_map.mpr ⟨type, listed, here.symm.trans same⟩)

/-- The rows before are not in the slot of the new one. -/
theorem Extended.inserted {options : MergeOptions} {r s : Registry} {types : List Image.ReadType}
    (extended : Extended options r s types) {type : Image.ReadType}
    (hash : (Image.buildRow s.names type (options.owner.getD type.owner)).1.typeHash =
      type.typeHash)
    (fresh : s.byHash.find? type.typeHash = none) :
    let built := Image.buildRow s.names type (options.owner.getD type.owner)
    Extended options r ({ s with names := built.2 }.insertRow built.1).2 (types ++ [type]) := by
  intro built
  have free : ({ s with names := built.2 } : Registry).types.FreeExact := extended.consistent.free
  have empty : s.anyRow? ({ s with names := built.2 }.insertRow built.1).1 = none :=
    anyRow?_insertRow_new free built.1
  have rows := anyRow?_insertRow free built.1
  have earlier : ∀ h old, s.anyRow? h = some old →
      ({ s with names := built.2 }.insertRow built.1).2.anyRow? h = some old := by
    intro h old found
    have elsewhere : h ≠ ({ s with names := built.2 }.insertRow built.1).1 := by
      rintro rfl
      rw [empty] at found
      contradiction
    rwa [rows, if_neg elsewhere]
  refine {
    consistent := insertRow_consistent (extended.consistent.withNames built.2) (hash ▸ fresh)
    kept := fun h old found => earlier h old (extended.kept h old found)
    added := ?_
    others := ?_ }
  · intro one listed
    rcases List.mem_append.mp listed with before | last
    · obtain ⟨h, used, unfound, found⟩ := extended.added one before
      have any := Option.filter_eq_some_iff.mp found
      exact ⟨h, used, unfound, Option.filter_eq_some_iff.mpr ⟨earlier h _ any.1, any.2⟩⟩
    · cases List.mem_singleton.mp last
      refine ⟨_, s.names, ?_, Option.filter_eq_some_iff.mpr ⟨(rows _).trans (if_pos rfl), rfl⟩⟩
      refine Option.eq_none_iff_forall_ne_some.mpr fun old there => ?_
      rw [extended.kept _ _ there] at empty
      contradiction
  · intro h old found
    rw [rows] at found
    split at found
    · cases found
      exact .inr ⟨type, by simp, hash⟩
    · rcases extended.others h old found with before | ⟨one, listed, same⟩
      · exact .inl before
      · exact .inr ⟨one, List.mem_append_left _ listed, same⟩

/-- One more type, whose hash no row has and no type before it. -/
theorem Extended.next {exports : ExportTable} {options : MergeOptions} {r s : Registry}
    {types : List Image.ReadType} (extended : Extended options r s types) {type : Image.ReadType}
    (backed : type.Backed exports) (absent : r.holds type.typeHash = false)
    (other : type.typeHash ∉ types.map Image.ReadType.typeHash) (report : MergeReport) :
    let t := mergeType options (s, report) type
    Extended options r t.1 (types ++ [type]) ∧ t.2 = { report with added := report.added + 1 } := by
  have fresh := extended.fresh absent other
  rw [mergeType_fresh type fresh]
  refine ⟨extended.inserted ?_ ?_, rfl⟩
  · exact typeHash_buildRow backed s.names (options.owner.getD type.owner)
  · exact fresh

/-- Types with hashes of their own, none of which a row has, are all added. -/
theorem foldl_mergeType_extended {exports : ExportTable} {r : Registry}
    (consistent : r.Consistent) (options : MergeOptions) {types : List Image.ReadType}
    (backed : ∀ t ∈ types, t.Backed exports)
    (distinct : (types.map Image.ReadType.typeHash).Nodup)
    (absent : ∀ t ∈ types, r.holds t.typeHash = false) :
    let s := types.foldl (mergeType options) (r, {})
    Extended options r s.1 types ∧ s.2 = { added := types.length } := by
  induction types using List.reverseRecOn with
  | nil => exact ⟨.refl consistent, rfl⟩
  | append_singleton types type ih =>
    rw [List.map_append, List.nodup_append] at distinct
    obtain ⟨extended, report⟩ := ih (fun t listed => backed t (List.mem_append_left _ listed))
      distinct.1 (fun t listed => absent t (List.mem_append_left _ listed))
    have other : type.typeHash ∉ types.map Image.ReadType.typeHash := fun listed =>
      distinct.2.2 _ listed _ List.mem_cons_self rfl
    rw [List.foldl_append]
    generalize types.foldl (mergeType options) (r, {}) = state at *
    obtain ⟨s, before⟩ := state
    obtain ⟨next, counted⟩ :=
      extended.next (backed type (by simp)) (absent type (by simp)) other before
    refine ⟨next, counted.trans ?_⟩
    rw [show before = { added := types.length } from report, List.length_append]
    rfl

theorem merge_failed {r : Registry} {exports : ExportTable} {bytes : List UInt8}
    {options : MergeOptions} {e : MergeError}
    (failed : (r.merge exports bytes options).1 = .error e) :
    (r.merge exports bytes options).2 = r := by
  unfold merge at failed ⊢
  split
  · rfl
  · split
    · rfl
    · rename_i types decoded _ _ accepted
      simp [decoded] at failed

/-- What a merge that refuses conflicts does with an image that can be read. -/
theorem merge_refusing {r : Registry} (consistent : r.Consistent) {exports : ExportTable}
    {bytes : List UInt8} {types : List Image.ReadType}
    (read : Image.decode exports bytes = .ok types) {options : MergeOptions}
    (refusing : options.policy = .reject) :
    let s := r.merge exports bytes options
    match types.filter fun type => r.holds type.typeHash with
    | first :: rest => s.1 = .error (.duplicateType first.typeHash (rest.length + 1))
    | [] => s.1 = .ok { added := types.length } ∧ Extended options r s.2 types := by
  intro s
  have conflicts := consistent.conflicting types
  split
  · rename_i first rest present
    rw [present, List.map_cons] at conflicts
    simp only [s, merge, read, refusing, conflicts, List.length_map]
  · rename_i none
    rw [none, List.map_nil] at conflicts
    have absent : ∀ t ∈ types, r.holds t.typeHash = false := by
      simpa [List.filter_eq_nil_iff] using none
    obtain ⟨extended, report⟩ := foldl_mergeType_extended consistent options
      (Image.decode_backed read) (Image.decode_nodup read) absent
    have merged : s = (.ok (types.foldl (mergeType options) (r, {})).2,
        (types.foldl (mergeType options) (r, {})).1) := by
      simp only [s, merge, read, refusing, conflicts]
    rw [merged]
    exact ⟨congrArg Except.ok report, extended⟩

end Registry

namespace Catalog

variable {u : Universe} {c : Catalog}

/-- In every state that can be reached, for all bytes and options: a merge that fails leaves the
registry exactly as it was. Where conflicts are refused and the bytes are an image, the merge fails
exactly when a row, pending or published, has the hash of one of the image's types, and tells the
first such type in the order of the image and the number of them; otherwise it adds every type. -/
theorem merge_all_or_nothing (reachable : Reachable u c) (n : Nat) (exports : ExportTable)
    (bytes : List UInt8) (options : MergeOptions) :
    let r := c.registry n
    let s := r.merge exports bytes options
    (∀ e, s.1 = .error e → s.2 = r) ∧
    ∀ types, Image.decode exports bytes = .ok types → options.policy = .reject →
      match types.filter fun type => r.holds type.typeHash with
      | first :: rest => s.1 = .error (.duplicateType first.typeHash (rest.length + 1))
      | [] => s.1 = .ok { added := types.length } ∧ Registry.Extended options r s.2 types := by
  intro r s
  have consistent := reachable.allConsistent n
  exact ⟨fun e failed => Registry.merge_failed failed,
    fun types read refusing => Registry.merge_refusing consistent read refusing⟩

/-- A type that one registry is just describing keeps an image of it from another one out. -/
theorem pending_type_refuses_image :
    let u := Gallery.knownTypes
    let type := TypeKey.user "A"
    ∃ c, Reachable u c ∧ (c.registry 0).typeByHash? (u.hash type) = none ∧
      let image := (Image.ofRegistry (c.registry 1) c.exports).1
      let s := (c.registry 0).merge c.exports image { policy := .reject }
      s.1 = .error (.duplicateType (u.hash type) 1) ∧ s.2 = c.registry 0 := by
  intro u type
  let empty : Catalog := { registries := [{}, {}] }
  let p := empty.firstPass u 1 type .host
  let begun : Catalog := { empty.change 1 (.skeleton u type .host) with passes := [p] }
  let published : Catalog := { begun.change 1 (.commit p.pass.handle {}) with passes := [] }
  let c : Catalog := { published.change 0 (.skeleton u type .host) with
    passes := [published.firstPass u 0 type .host] }
  have one : Step u {} { registries := [{}] } := .move (.create {})
  have two : Step u { registries := [{}] } empty := .move (.create {})
  have three : Step u empty begun := .move (.register .host (by decide) rfl)
  have four : Step u begun published := .move (.commit (p := p) rfl (Draft.empty_madeOf p))
  have five : Step u published c := .move (.register .host (by decide) rfl)
  have reachable : Reachable u c :=
    ((((Relation.ReflTransGen.single one).tail two).tail three).tail four).tail five
  let image := (Image.ofRegistry (c.registry 1) c.exports).1
  have read : (Image.decode c.exports image).toOption.map (List.map Image.ReadType.typeHash) =
      some [u.hash type] := by decide +kernel
  obtain ⟨failed, refused⟩ := merge_all_or_nothing reachable 0 c.exports image { policy := .reject }
  cases decoded : Image.decode c.exports image with
  | error e =>
    rw [decoded] at read
    contradiction
  | ok types =>
    rw [decoded] at read
    obtain ⟨first, rest, rfl, same, nil⟩ := List.map_eq_cons_iff.mp (Option.some.inj read)
    cases List.map_eq_nil_iff.mp nil
    have pending : (c.registry 0).holds (u.hash type) = true :=
      Registry.holds_eq_true.mpr ⟨0, _, rfl, rfl⟩
    have answer := refused [first] decoded rfl
    simp only [List.filter_cons, same, pending, if_true, List.filter_nil] at answer
    exact ⟨c, reachable, by decide +kernel, answer, failed _ answer⟩

end Catalog

end TypeCatalog
