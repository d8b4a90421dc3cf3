import TypeCatalog.Proofs.Aliases
import TypeCatalog.Proofs.RoundTrip

/-!
Names in a registry that an image has filled. Several rows may carry one name, and which of them the
name leads to depends on what has happened to the registry. An image has the rows in the order of
their slots and nothing of that, so after a merge a name leads to the first of its rows.
-/
namespace TypeCatalog

namespace Registry

variable {r : Registry} {text : String}

/-- Every name leads to the lowest slot whose row carries it. -/
def FirstNamed (r : Registry) : Prop :=
  ∀ id index other, r.byName.find? id = some index → r.Carries other id → index ≤ other

theorem firstNamed_of_empty (empty : r.types = .empty) : r.FirstNamed := by
  rintro id index other - ⟨row, present, -⟩
  rw [empty, SlotTable.rowAt?_empty] at present
  contradiction

theorem byName_insertRow (r : Registry) (row : Row) :
    (r.insertRow row).2.byName = if (r.byName.find? row.name.id).isSome then r.byName
      else r.byName.insert row.name.id (r.types.insert row).1.index := by
  have named : ∀ s : Registry, (s.indexName row.name.id (r.types.insert row).1.index).byName =
      if (s.byName.find? row.name.id).isSome then s.byName
        else s.byName.insert row.name.id (r.types.insert row).1.index := by
    intro s
    unfold indexName
    cases s.byName.find? row.name.id <;> rfl
  rw [insertRow_eq]
  dsimp only
  split
  · exact named _
  · exact named _

/-- A row that goes behind all others takes no name from them. -/
theorem insertRow_firstNamed (consistent : r.Consistent) (full : r.types.free = [])
    (first : r.FirstNamed) (row : Row) : (r.insertRow row).2.FirstNamed := by
  have last : (r.types.insert row).1.index = r.types.slots.length := by
    rw [SlotTable.insert_of_full full]
  have carries : ∀ slot id, (r.insertRow row).2.Carries slot id →
      (slot = r.types.slots.length ∧ row.name.id = id) ∨ r.Carries slot id := by
    rintro slot id ⟨other, present, same⟩
    rw [types_insertRow, SlotTable.rowAt?_insert consistent.free, last] at present
    split at present
    · cases Option.some.inj present
      exact .inl ⟨‹_›, same⟩
    · exact .inr ⟨other, present, same⟩
  have before : ∀ {slot id}, r.Carries slot id → slot < r.types.slots.length :=
    fun ⟨_, present, _⟩ => SlotTable.lt_length_of_rowAt? present
  have kept : ∀ {id index other}, r.byName.find? id = some index →
      (r.insertRow row).2.Carries other id → index ≤ other := by
    intro id index other found carried
    rcases carries other id carried with ⟨rfl, -⟩ | old
    · exact Nat.le_of_lt (before (consistent.leads id index found))
    · exact first id index other found old
  intro id index other found carried
  rw [byName_insertRow, last] at found
  split at found
  · exact kept found carried
  · rename_i unknown
    rw [Index.find?_insert] at found
    split at found
    · rename_i same
      cases Option.some.inj found
      rcases carries other id carried with ⟨rfl, -⟩ | old
      · exact Nat.le_refl _
      · obtain ⟨slot, leads⟩ := (consistent.name_iff id).mpr ⟨other, old⟩
        rw [← same, leads] at unknown
        exact absurd rfl unknown
    · exact kept found carried

/-- The published rows are in the order of their slots. -/
theorem pairwise_publishedRows (r : Registry) :
    r.publishedRows.Pairwise fun a b => a.1.slot.index < b.1.slot.index := by
  have ascending := List.pairwise_map.mp (SlotTable.pairwise_index_rows r.types)
  exact List.pairwise_map.mpr (ascending.filter _)

/-- The hash of the type that a name leads to. -/
def hashNamed? (r : Registry) (text : String) : Option TypeHash :=
  (r.byName? text).map (·.2.typeHash)

/-- The first published row of a name, in the order of the slots. -/
def firstOfName? (r : Registry) (text : String) : Option (TypeHandle × Row) :=
  r.publishedRows.find? (·.2.name.text = text)

/-- Where no row is pending, a name is found if a row carries it, and leads to such a row. -/
theorem byName?_of_shown (held : r.RowsHeld) (consistent : r.Consistent)
    (shown : ∀ index row, r.types.rowAt? index = some row → row.published = true) :
    (r.firstOfName? text = none ∧ r.byName? text = none) ∨
      ∃ first other, r.firstOfName? text = some first ∧ r.byName? text = some other ∧
        r.row? first.1 = some first.2 ∧ first.2.name.text = text ∧
        r.row? other.1 = some other.2 ∧ other.2.name.text = text := by
  cases found : r.firstOfName? text with
  | none =>
    refine .inl ⟨rfl, ?_⟩
    cases looked : r.byName? text with
    | none => rfl
    | some pair =>
      have answered : r.typeByName? text = some pair.1 := by
        rw [typeByName?, looked, Option.map_some]
      obtain ⟨other, there, same⟩ := text_of_typeByName? held consistent answered
      have missed := List.find?_eq_none.mp found _ (mem_publishedRows.mpr there)
      simp [same] at missed
  | some first =>
    have there := mem_publishedRows.mp (List.mem_of_find?_eq_some found)
    have named := (List.find?_eq_some_iff_append.mp found).1
    obtain rfl : first.2.name.text = text := of_decide_eq_true named
    obtain ⟨k, answered⟩ := typeByName?_of_row? held consistent there
      fun index other present _ => shown index other present
    obtain ⟨other, looked, rfl⟩ := Option.map_eq_some_iff.mp answered
    obtain ⟨row, present, same⟩ := text_of_typeByName? held consistent answered
    obtain ⟨_, _, _, shown⟩ := byName?_eq_some_iff.mp looked
    cases Option.some.inj (shown.symm.trans present)
    exact .inr ⟨first, other, rfl, looked, there, rfl, present, same⟩

/-- Where each name also leads to its lowest slot, it leads to the first row. -/
theorem byName?_eq_firstOfName? (held : r.RowsHeld) (consistent : r.Consistent)
    (lowest : r.FirstNamed)
    (shown : ∀ index row, r.types.rowAt? index = some row → row.published = true) (text : String) :
    r.byName? text = r.firstOfName? text := by
  rcases byName?_of_shown held consistent shown with ⟨none, absent⟩ | found
  · rw [none, absent]
  · obtain ⟨⟨h, row⟩, ⟨k, other⟩, found, looked, there, named, present, same⟩ := found
    obtain ⟨id, known, leads, _⟩ := byName?_eq_some_iff.mp looked
    have id_eq := (named ▸ held.find?_name (rowAt?_of_row? there)).symm.trans known
    have carried : r.Carries h.slot.index id :=
      ⟨row, rowAt?_of_row? there, Option.some.inj id_eq⟩
    have below := lowest id _ _ leads carried
    obtain ⟨_, earlier, later, split, missed⟩ := List.find?_eq_some_iff_append.mp found
    have listed := mem_publishedRows.mpr present
    have ascending := pairwise_publishedRows r
    rw [split] at listed ascending
    rw [looked, found]
    rcases List.mem_append.mp listed with before | here
    · exact absurd same (by simpa using missed _ before)
    · rcases List.mem_cons.mp here with same | after
      · rw [same]
      · have above := (List.pairwise_cons.mp (List.pairwise_append.mp ascending).2.1).1 _ after
        exact absurd above (Nat.not_lt_of_le below)

theorem foldl_mergeType_firstNamed (consistent : r.Consistent) (empty : r.types = .empty)
    (options : MergeOptions) {rows : List Row} (storable : ∀ row ∈ rows, row.Storable)
    (distinct : (rows.map Row.typeHash).Nodup) :
    ((rows.map Image.ReadType.of).foldl (mergeType options) (r, {})).1.FirstNamed := by
  induction rows using List.reverseRecOn with
  | nil => exact firstNamed_of_empty empty
  | append_singleton rows row ih =>
    rw [List.map_append, List.nodup_append] at distinct
    have fewer := fun x listed => storable x (List.mem_append_left [row] listed)
    have first := ih fewer distinct.1
    obtain ⟨restored, -⟩ := foldl_mergeType_restored consistent empty options fewer distinct.1
    have absent : row.typeHash ∉ rows.map Row.typeHash := fun listed =>
      distinct.2.2 _ listed _ List.mem_cons_self rfl
    rw [List.map_append, List.foldl_append]
    generalize (rows.map Image.ReadType.of).foldl (mergeType options) (r, {}) = state at *
    obtain ⟨s, report⟩ := state
    have added := mergeType_fresh (Image.ReadType.of row) (restored.fresh absent) options report
    rw [List.map_singleton, List.foldl_cons, List.foldl_nil, added]
    generalize Image.buildRow _ _ _ = built
    have before : FirstNamed { s with names := built.2 } := first
    exact insertRow_firstNamed (restored.consistent.withNames built.2) restored.full before built.1

theorem merge_firstNamed (consistent : r.Consistent) (empty : r.types = .empty)
    {exports : ExportTable} {bytes : List UInt8} {rows : List Row}
    (read : Image.decode exports bytes = .ok (rows.map .of)) (storable : ∀ row ∈ rows, row.Storable)
    (distinct : (rows.map Row.typeHash).Nodup) (options : MergeOptions) :
    (r.merge exports bytes options).2.FirstNamed := by
  rw [merge_of_empty consistent empty read options]
  exact foldl_mergeType_firstNamed consistent empty options storable distinct

/-- A row is told from the others by its hash. -/
theorem Consistent.eq_of_hash (consistent : r.Consistent) {h k : TypeHandle} {a b : Row}
    (first : r.row? h = some a) (second : r.row? k = some b) (same : a.typeHash = b.typeHash) :
    h = k := by
  have here := consistent.anyByHash?_of_anyRow? (Option.filter_eq_some_iff.mp first).1
  have there := consistent.anyByHash?_of_anyRow? (Option.filter_eq_some_iff.mp second).1
  rw [same] at here
  exact congrArg Prod.fst (Option.some.inj (here.symm.trans there))

/-- Where each item of a list stands for one of another, so do the first ones of a kind. -/
theorem find?_of_forall₂ {α β : Type} {R : α → β → Prop} {p : α → Bool} {q : β → Bool}
    (same : ∀ a b, R a b → p a = q b) {as : List α} {bs : List β} (all : List.Forall₂ R as bs) :
    Option.Rel R (as.find? p) (bs.find? q) := by
  induction all with
  | nil => exact .none
  | @cons a b as bs first rest ih =>
    rw [List.find?_cons, List.find?_cons, same a b first]
    cases q b with
    | true => exact .some first
    | false => exact ih

/-- A registry in which names lead to the first rows, and whose rows have the names and the hashes
of the rows of another one, compared with that one: which names are found, and what they lead to. -/
theorem compare_names {s : Registry} (held : r.RowsHeld) (consistent : r.Consistent)
    (shown : ∀ index row, r.types.rowAt? index = some row → row.published = true)
    (leads : s.byName? text = s.firstOfName? text)
    (rows : List.Forall₂
      (fun new old => new.2.name.text = old.2.name.text ∧ new.2.typeHash = old.2.typeHash)
      s.publishedRows r.publishedRows) :
    s.hashNamed? text = (r.firstOfName? text).map (·.2.typeHash) ∧
      (s.typeByName? text = none ↔ r.typeByName? text = none) ∧
      (s.hashNamed? text = r.hashNamed? text ↔
        r.typeByName? text = (r.firstOfName? text).map (·.1)) ∧
      ((∀ h k a b, r.row? h = some a → r.row? k = some b → a.name.text = text →
        b.name.text = text → h = k) → s.hashNamed? text = r.hashNamed? text) := by
  have there := find?_of_forall₂ (p := (·.2.name.text = text)) (q := (·.2.name.text = text))
    (fun new old same => by rw [same.1]) rows
  have looked : s.byName? text = s.publishedRows.find? (·.2.name.text = text) := leads
  rw [← looked] at there
  change Option.Rel _ _ (r.firstOfName? text) at there
  rcases byName?_of_shown held consistent shown with
    ⟨none, absent⟩ | ⟨first, other, found, present, here, named, shownOther, carries⟩
  · rw [none] at there
    have gone : s.byName? text = Option.none := by
      cases looked : s.byName? text with
      | none => rfl
      | some _ => rw [looked] at there; cases there
    simp [hashNamed?, typeByName?, gone, none, absent]
  · rw [found] at there
    obtain ⟨new, answered, -, hash⟩ : ∃ new, s.byName? text = some new ∧
        new.2.name.text = first.2.name.text ∧ new.2.typeHash = first.2.typeHash := by
      cases looked : s.byName? text with
      | none => rw [looked] at there; cases there
      | some new =>
        rw [looked] at there
        cases there with
        | some same => exact ⟨new, rfl, same⟩
    have means : s.hashNamed? text = some first.2.typeHash := by
      rw [hashNamed?, answered, Option.map_some, hash]
    have meant : r.hashNamed? text = some other.2.typeHash := by
      rw [hashNamed?, present, Option.map_some]
    have handle : r.typeByName? text = some other.1 := by
      rw [typeByName?, present, Option.map_some]
    have known : s.typeByName? text = some new.1 := by
      rw [typeByName?, answered, Option.map_some]
    have agree : first.1 = other.1 → first.2.typeHash = other.2.typeHash := by
      intro same
      rw [same] at here
      exact congrArg Row.typeHash (Option.some.inj (here.symm.trans shownOther))
    rw [means, meant, handle, known, found, Option.map_some, Option.map_some]
    refine ⟨rfl, by simp, ⟨fun same => ?_, fun same => ?_⟩, fun only => ?_⟩
    · exact congrArg some (consistent.eq_of_hash here shownOther (Option.some.inj same)).symm
    · exact congrArg some (agree (Option.some.inj same).symm)
    · exact congrArg some (agree (only _ _ _ _ here shownOther named carries))

end Registry

namespace Catalog

variable {u : Universe} {c d : Catalog}

theorem Reachable.merged_rowsHeld (reachable : Reachable u c) {n : Nat}
    (empty : (c.registry n).types = .empty) (bytes : List UInt8) (options : MergeOptions) :
    ((c.registry n).merge c.exports bytes options).2.RowsHeld := by
  have held : (c.registry n).RowsHeld := by
    intro index row present
    rw [empty, SlotTable.rowAt?_empty] at present
    contradiction
  let merges : Operation := .merge c.exports bytes options
  have supplied : merges.Supplied (c.registry n) := trivial
  exact Operation.run_rowsHeld (Reachable.allConsistent reachable n) held supplied

/-- What has been written of a registry, while no type of it was being described, is merged later
into an empty one. Then a name is found exactly if it was found in the registry, and it leads to the
type of the first row that carried it. So it leads to the same type exactly if it led to that row,
and so it does where no other published row carries it. -/
theorem merged_name_leads_to_first_row (attained : Attained u c) {n : Nat} (settled : c.Settled n)
    (fits : (c.sections n).Fits)
    (aligned : ∀ h row, (c.registry n).row? h = some row → row.align.toNat < UInt32.size)
    (run : Relation.ReflTransGen (Step u) (c.written n) d) {m : Nat}
    (empty : (d.registry m).types = .empty) (options : MergeOptions) (text : String) :
    let r := c.registry n
    let image := (Image.ofRegistry (c.registry n) c.exports).1
    let merged := ((d.registry m).merge d.exports image options).2
    merged.hashNamed? text = (r.firstOfName? text).map (·.2.typeHash) ∧
      (merged.typeByName? text = none ↔ r.typeByName? text = none) ∧
      (merged.hashNamed? text = r.hashNamed? text ↔
        r.typeByName? text = (r.firstOfName? text).map (·.1)) ∧
      ((∀ h k a b, r.row? h = some a → r.row? k = some b → a.name.text = text →
        b.name.text = text → h = k) → merged.hashNamed? text = r.hashNamed? text) := by
  rw [image_sections]
  intro r image merged
  have written : Reachable u (c.written n) := attained.reachable.tail (.move (.write n))
  have reachable : Reachable u d := Relation.ReflTransGen.trans written run
  obtain ⟨ended, kept⟩ := attained.kept
  have read := decode_written attained fits aligned (exports_grow written run)
  have consistent := Reachable.allConsistent reachable m
  have storable := Registry.storable_publishedRows (kept.rows n)
  have distinct := Registry.nodup_hashes (kept.consistent n)
  -- The merged registry has the rows in their order, and its names lead to the first of them.
  have restored := (Registry.merge_restored consistent empty read storable distinct options).2
  have lowest := Registry.merge_firstNamed consistent empty read storable distinct options
  have held := reachable.merged_rowsHeld empty (c.sections n).image options
  have leads := Registry.byName?_eq_firstOfName? held restored.consistent lowest
    fun _ _ present => restored.published present
  refine Registry.compare_names (kept.rows n) (kept.consistent n) ?_ (leads text) ?_
  · exact fun index row present => attained.reachable.published settled present
  · exact restored.publishedRows.imp fun new old restores => ⟨restores.name, restores.typeHash⟩

/-- The one field of the type A below, at the greatest offset. -/
def onlyField (name : Name) : Field :=
  let type := TypeKey.primitive .bool
  ⟨name, Gallery.knownTypes.hash type, some Image.unknownOffset, ⟨0, ⟨.user "A", type, .whole⟩⟩, []⟩

/-- A registry in which the type A has been described with a field in it. -/
def firstDescribed : Catalog :=
  let begun := Catalog.begun { registries := [{}] } Gallery.knownTypes 0 (.user "A") .host
  let field := onlyField ((begun.registry 0).intern "x" .host).1
  { (begun.change 0 (.intern "x" .host)).change 0 (.commit ⟨0, 0⟩ { fields := [field] }) with
    nextNumber := 1, passes := [] }

/-- The same registry once the type B has been described. -/
def bothDescribed : Catalog :=
  { (firstDescribed.begun Gallery.knownTypes 0 (.user "B") .host).change 0 (.commit ⟨1, 0⟩ {}) with
    passes := [] }

/-- The same registry once A has been given the name of B. -/
def bothNamedAlike : Catalog :=
  let name := ((bothDescribed.registry 0).intern "zoo::B" .host).1
  { (bothDescribed.change 0 (.intern "zoo::B" .host)).change 0 (.commit ⟨0, 0⟩ { name := some name })
    with passes := [] }

theorem run_firstDescribed :
    Relation.ReflTransGen (QuietStep Gallery.knownTypes) {} firstDescribed := by
  let u := Gallery.knownTypes
  let empty : Catalog := { registries := [{}] }
  let begun := empty.begun u 0 (.user "A") .host
  let p := empty.firstPass u 0 (.user "A") .host
  let name := ((begun.registry 0).intern "x" .host).1
  let accessor := Exported.accessor (onlyField name).accessor
  let q : OpenPass := { p with names := [name] }
  let entered : Catalog := { begun.change 0 (.intern "x" .host) with passes := [q] }
  let s : OpenPass := { q with made := [accessor] }
  let made : Catalog := { entered with nextNumber := 1, passes := [s] }
  have created : QuietStep u {} empty := .move (.create {})
  have begins : QuietStep u empty begun := .move (.register .host (by decide) rfl)
  have enters : QuietStep u begun entered := .move (.enter (p := p) rfl "x")
  have makes : QuietStep u entered made := .move (.make (p := q) rfl (e := accessor) rfl)
  have collected : Draft.MadeOf { fields := [onlyField name] } s :=
    ⟨by simp [Draft.names, onlyField, s, q], by simp [s, accessor], by simp, by simp⟩
  have ends : QuietStep u made firstDescribed := .move (.commit (p := s) rfl collected)
  exact ((((Relation.ReflTransGen.single created).tail begins).tail enters).tail makes).tail ends

theorem attained_bothNamedAlike : Attained Gallery.knownTypes bothNamedAlike := by
  let u := Gallery.knownTypes
  let begun := firstDescribed.begun u 0 (.user "B") .host
  let b := firstDescribed.firstPass u 0 (.user "B") .host
  let p := bothDescribed.laterPass 0 (.user "A") ⟨0, 0⟩
  let extended : Catalog := { bothDescribed with passes := [p] }
  let name := ((bothDescribed.registry 0).intern "zoo::B" .host).1
  let q : OpenPass := { p with names := [name] }
  let entered : Catalog := { extended.change 0 (.intern "zoo::B" .host) with passes := [q] }
  have begins : QuietStep u firstDescribed begun :=
    .move (.register .host (by decide +kernel) (by decide +kernel))
  have handle : b.pass.handle = ⟨1, 0⟩ := by decide +kernel
  have ends : QuietStep u begun bothDescribed := by
    have step : Move u begun _ := .commit (p := b) rfl (Draft.empty_madeOf b)
    rw [handle] at step
    exact .move step
  have again : QuietStep u bothDescribed extended :=
    .move (.extend (.user "A") ⟨0, 0⟩ (by decide +kernel))
  have owner : p.pass.owner = .host := by decide +kernel
  have enters : QuietStep u extended entered := by
    have step : Move u extended _ := .enter (p := p) rfl "zoo::B"
    rw [owner] at step
    exact .move step
  have collected : Draft.MadeOf { name := some name } q :=
    ⟨by simp [Draft.names, q], by simp, by simp, by simp⟩
  have named : QuietStep u entered bothNamedAlike := .move (.commit (p := q) rfl collected)
  exact .quiet (((((run_firstDescribed.tail begins).tail ends).tail again).tail enters).tail named)

theorem fits_bothNamedAlike : (bothNamedAlike.sections 0).Fits := by
  constructor <;> decide +kernel

theorem aligned_bothNamedAlike : ∀ h row, (bothNamedAlike.registry 0).row? h = some row →
    row.align.toNat < UInt32.size := by
  have all : (bothNamedAlike.registry 0).publishedRows.all
      (fun shown => shown.2.align.toNat < UInt32.size) = true := by decide +kernel
  intro h row found
  exact of_decide_eq_true (List.all_eq_true.mp all _ (Registry.mem_publishedRows.mpr found))

/-- A name that led to the second of two rows leads to the first of them after a merge. -/
theorem shared_name_leads_elsewhere :
    let u := Gallery.knownTypes
    let c := bothNamedAlike
    let image := (Image.ofRegistry (c.registry 0) c.exports).1
    let merged := (((c.written 0).registry 1).merge (c.written 0).exports image
      { policy := .reject }).2
    Attained u c ∧ c.passes = [] ∧ ((c.written 0).registry 1).types = .empty ∧
      (c.registry 0).hashNamed? "zoo::B" = some (u.hash (.user "B")) ∧
      merged.hashNamed? "zoo::B" = some (u.hash (.user "A")) ∧
      u.hash (.user "A") ≠ u.hash (.user "B") := by
  refine ⟨attained_bothNamedAlike, rfl, rfl, ?_, ?_, ?_⟩
  · decide +kernel
  · decide +kernel
  · decide +kernel

/-- A name that two rows carried is found after a merge, and leads to the first of them. -/
theorem shared_name_restored :
    let c := bothNamedAlike
    let image := (Image.ofRegistry (c.registry 0) c.exports).1
    let merged := (((c.written 0).registry 1).merge (c.written 0).exports image
      { policy := .reject }).2
    Attained Gallery.knownTypes c ∧ c.Settled 0 ∧ (c.sections 0).Fits ∧
      merged.typeByName? "zoo::B" ≠ none ∧
      merged.hashNamed? "zoo::B" ≠ (c.registry 0).hashNamed? "zoo::B" := by
  intro c image merged
  have settled : c.Settled 0 := nofun
  obtain ⟨-, found, same, -⟩ := merged_name_leads_to_first_row attained_bothNamedAlike settled
    fits_bothNamedAlike aligned_bothNamedAlike .refl (d := c.written 0) (m := 1) rfl
    { policy := .reject } "zoo::B"
  refine ⟨attained_bothNamedAlike, settled, fits_bothNamedAlike, mt found.mp ?_, mt same.mp ?_⟩
  · decide +kernel
  · decide +kernel

end Catalog

end TypeCatalog
