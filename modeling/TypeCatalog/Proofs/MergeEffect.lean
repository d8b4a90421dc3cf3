import TypeCatalog.Proofs.NearestDeclaration
import TypeCatalog.Proofs.SelfMerge

/-!
What a merge does when it succeeds. The types of an image have distinct hashes, and merging one of
them leaves the rows of all other hashes where they are; so each type is decided by the row that had
its hash before the merge. It is added if there was none, it takes the place of a row that gives
way, and any other row stays as it is. A row that gives way hands on the members that no image
carries. The report counts the three cases, and tells the conflicts in the order of the image.
-/
namespace TypeCatalog

/-- A text that someone holds is the same name for everyone. -/
theorem Interner.intern_of_known {names : Interner} {user : ModuleId}
    {name : Name} (held : names.Holds user name) (other : ModuleId) :
    (names.intern name.text other).1 = name := by
  rw [intern_of_found held.find?]

/-- A row with those members of another one that no image carries. -/
def Row.carrying (row old : Row) : Row :=
  { row with
    properties := old.properties
    propertyIndex := old.propertyIndex
    bases := old.bases
    enumValues := old.enumValues
    flags := if old.enumValues.isEmpty then row.flags else { row.flags with isEnum := true } }

/-- Whether a row has only members that an image carries. -/
structure Row.Plain (row : Row) : Prop where
  properties : row.properties = []
  propertyIndex : row.propertyIndex = .empty
  bases : row.bases = []
  enumValues : row.enumValues = []

namespace Image

theorem buildRow_plain (names : Interner) (type : ReadType) (owner : ModuleId) :
    (buildRow names type owner).1.Plain := by
  have members : (buildMembers names type owner).1.Plain := by
    refine buildMembers_induction (P := fun d => d.1.Plain) ⟨rfl, rfl, rfl, rfl⟩ ?_ ?_ ?_
    · intro d plain f _
      simp only [addReadField, Row.addField]
      split <;> exact { plain with }
    · intro d plain m _
      simp only [addReadMethod, Row.addMethod]
      split <;> exact { plain with }
    · intro d plain c _
      simp only [addReadConstructor, Row.addConstructor]
      split <;> exact { plain with }
  rw [buildRow_eq]
  exact { members with }

variable {names : Interner} {old : Row}

/-- Adding members one by one among names that keep those of an earlier table, when each is added as
it is. -/
theorem foldl_carried {α : Type} (step : RowDraft → α → RowDraft) (add : Row → α → Row)
    (members : List α)
    (each : ∀ a ∈ members, ∀ d : RowDraft, names.Keeps d.2 →
      (step d a).1 = add d.1 a ∧ names.Keeps (step d a).2)
    {d : RowDraft} (keeps : names.Keeps d.2) :
    (members.foldl step d).1 = members.foldl add d.1 ∧ names.Keeps (members.foldl step d).2 := by
  induction members generalizing d with
  | nil => exact ⟨rfl, keeps⟩
  | cons first rest ih =>
    obtain ⟨here, kept⟩ := each first List.mem_cons_self d keeps
    rw [List.foldl_cons, List.foldl_cons, ← here]
    exact ih (fun a listed => each a (List.mem_cons_of_mem first listed)) kept

theorem carryProperty_known {user : ModuleId} {p : Property}
    (held : names.Holds user p.name) {d : RowDraft} (keeps : names.Keeps d.2) :
    (carryProperty d p).1 = d.1.addProperty p ∧ names.Keeps (carryProperty d p).2 := by
  have same := Interner.intern_of_known (keeps.holds held) d.1.owner
  have entered : d.2.Entered d.1.owner (d.2.intern p.name.text d.1.owner).2 := .intern .none _
  simp only [carryProperty, same]
  exact ⟨trivial, keeps.trans entered.keeps⟩

theorem carryEnumValue_known {user : ModuleId} {e : EnumValue}
    (held : names.Holds user e.name) {d : RowDraft} (keeps : names.Keeps d.2) :
    (carryEnumValue d e).1 = d.1.addEnumValue e ∧ names.Keeps (carryEnumValue d e).2 := by
  have same := Interner.intern_of_known (keeps.holds held) d.1.owner
  have entered : d.2.Entered d.1.owner (d.2.intern e.name.text d.1.owner).2 := .intern .none _
  simp only [carryEnumValue, same]
  exact ⟨trivial, keeps.trans entered.keeps⟩

/-- A row that replaces another one, whoever owns them, has all that the other one had and no image
carries. -/
theorem carryOver_eq (held : old.HeldIn names) (composed : old.Composed)
    {draft : RowDraft} (keeps : names.Keeps draft.2) (plain : draft.1.Plain) :
    (carryOver draft old).1 = draft.1.carrying old := by
  obtain ⟨properties, kept⟩ := foldl_carried carryProperty Row.addProperty old.properties
    (fun p listed _ keeps =>
      carryProperty_known (held.held p.name (Row.name_of_property listed)) keeps) keeps
  obtain ⟨values, -⟩ := foldl_carried carryEnumValue Row.addEnumValue old.enumValues
    (d := (old.bases.foldl Row.addBase (old.properties.foldl carryProperty draft).1,
      (old.properties.foldl carryProperty draft).2))
    (fun e listed _ keeps =>
      carryEnumValue_known (held.held e.name (Row.name_of_enumValue listed)) keeps) kept
  -- The row after the properties, and after the bases.
  let r₁ : Row := { draft.1 with
    properties := old.properties, propertyIndex := old.propertyIndex }
  let r₂ : Row := { r₁ with bases := old.bases }
  have bare : draft.1 = { draft.1 with properties := [], propertyIndex := .empty } := by
    rw [← plain.properties, ← plain.propertyIndex]
  have first : old.properties.foldl Row.addProperty draft.1 = r₁ := by
    rw [bare, Row.foldl_addProperty _ held.sound.properties.nodup, ← composed.properties]
  have second : old.bases.foldl Row.addBase r₁ = r₂ := by
    rw [show r₁ = { r₁ with bases := [] } by rw [← plain.bases],
      Row.foldl_addBase r₁ composed.bases]
  have third : old.enumValues.foldl Row.addEnumValue r₂ = draft.1.carrying old := by
    rw [show r₂ = { r₂ with enumValues := [] } by rw [← plain.enumValues],
      Row.foldl_addEnumValue_flags r₂ held.sound.enumValues]
    rfl
  calc (carryOver draft old).1
    _ = old.enumValues.foldl Row.addEnumValue
        (old.bases.foldl Row.addBase (old.properties.foldl carryProperty draft).1) := values
    _ = draft.1.carrying old := by rw [properties, first, second, third]

end Image

namespace MergeOptions

/-- The module that gets a type of an image. -/
def incoming (options : MergeOptions) (type : Image.ReadType) : ModuleId :=
  options.owner.getD type.owner

/-- Whether a row gives way to a type that comes in for a module. -/
def GivesWay (options : MergeOptions) (old : Row) (incoming : ModuleId) : Prop :=
  options.policy = .replace ∧ old.published = true ∧
    (old.owner = incoming ∨ options.crossModule = true)

instance (options : MergeOptions) (old : Row) (incoming : ModuleId) :
    Decidable (options.GivesWay old incoming) := by
  unfold GivesWay
  infer_instance

/-- The conflict of a type with a row of its hash. -/
def conflict (options : MergeOptions) (type : Image.ReadType) (old : Row) : Conflict where
  typeHash := type.typeHash
  name := old.name.text
  existing := old.owner
  incoming := options.incoming type
  resolution := if options.GivesWay old (options.incoming type) then .replaced else .skipped

end MergeOptions

namespace Registry

variable {r s t : Registry} {options : MergeOptions} {type : Image.ReadType}

theorem replaces_iff {old : Row} {incoming : ModuleId} :
    replaces options old incoming = true ↔ options.GivesWay old incoming := by
  simp [replaces, MergeOptions.GivesWay, and_assoc]

/-- The conflict of a type with the row of its hash, if there is one, pending or published. -/
def conflict? (r : Registry) (options : MergeOptions) (type : Image.ReadType) : Option Conflict :=
  (r.anyByHash? type.typeHash).map fun (_, old) => options.conflict type old

/-- What is to be reported of a merge, by the rows that were there before it. -/
def reportOf (r : Registry) (options : MergeOptions) (types : List Image.ReadType) : MergeReport :=
  let conflicts := types.filterMap (r.conflict? options)
  { added := types.countP fun type => (r.anyByHash? type.typeHash).isNone
    conflicted := conflicts.countP (·.resolution = .skipped)
    replaced := conflicts.countP (·.resolution = .replaced)
    conflicts := if options.collectConflicts then conflicts else [] }

/-- Each type is counted once. -/
theorem reportOf_total (r : Registry) (options : MergeOptions) (types : List Image.ReadType) :
    let report := r.reportOf options types
    report.added + report.conflicted + report.replaced = types.length := by
  induction types with
  | nil => rfl
  | cons type rest ih =>
    simp only [reportOf, List.countP_cons, List.filterMap_cons, conflict?] at ih ⊢
    cases r.anyByHash? type.typeHash with
    | none => simp; omega
    | some found =>
      by_cases gives : options.GivesWay found.2 (options.incoming type)
      · simp [MergeOptions.conflict, gives]; omega
      · simp [MergeOptions.conflict, gives]; omega

/-- A report with one more conflict. -/
def withConflict (options : MergeOptions) (report : MergeReport) (conflict : Conflict) :
    MergeReport where
  added := report.added
  conflicted := report.conflicted + if conflict.resolution = .skipped then 1 else 0
  replaced := report.replaced + if conflict.resolution = .replaced then 1 else 0
  conflicts := report.conflicts ++ if options.collectConflicts then [conflict] else []

theorem reportOf_append_absent {types : List Image.ReadType}
    (absent : r.anyByHash? type.typeHash = none) :
    r.reportOf options (types ++ [type]) =
      { r.reportOf options types with added := (r.reportOf options types).added + 1 } := by
  simp [reportOf, conflict?, absent, List.countP_append]

theorem reportOf_append_present {types : List Image.ReadType} {h : TypeHandle} {old : Row}
    (present : r.anyByHash? type.typeHash = some (h, old)) :
    r.reportOf options (types ++ [type]) =
      withConflict options (r.reportOf options types) (options.conflict type old) := by
  cases collected : options.collectConflicts <;>
    simp [reportOf, withConflict, conflict?, present, List.countP_append, List.countP_cons,
      collected]

/-- What has become of a type, by the row that had its hash before the merge. -/
inductive Settled (options : MergeOptions) (r s : Registry) (type : Image.ReadType) : Prop where
  /-- A new published row, in a slot that was empty. -/
  | added {h : TypeHandle} {row : Row} {names : Interner}
      (absent : r.anyByHash? type.typeHash = none)
      (empty : r.types.rowAt? h.slot.index = none)
      (shown : s.row? h = some row)
      (built : row = (Image.buildRow names type (options.incoming type)).1)
      (hash : row.typeHash = type.typeHash)
      (owner : row.owner = options.incoming type)
  /-- The slot of the row that was there has begun its next generation. -/
  | replaced {h : TypeHandle} {old row : Row} {names : Interner}
      (present : r.anyByHash? type.typeHash = some (h, old))
      (gives : options.GivesWay old (options.incoming type))
      (stale : s.anyRow? h = none)
      (shown : s.row? h.next = some row)
      (built : row = (Image.buildRow names type (options.incoming type)).1.carrying old)
      (hash : row.typeHash = type.typeHash)
      (owner : row.owner = options.incoming type)
  | kept {h : TypeHandle} {old : Row}
      (present : r.anyByHash? type.typeHash = some (h, old))
      (stays : ¬ options.GivesWay old (options.incoming type))
      (untouched : s.anyRow? h = some old)

/-- A type whose row gives way takes its place. -/
theorem Settled.of_gives (settled : Settled options r s type) {h : TypeHandle} {old : Row}
    (present : r.anyByHash? type.typeHash = some (h, old))
    (gives : options.GivesWay old (options.incoming type)) :
    s.anyRow? h = none ∧ ∃ row names, s.row? h.next = some row ∧
      row = (Image.buildRow names type (options.incoming type)).1.carrying old ∧
      row.owner = options.incoming type := by
  cases settled with
  | added absent =>
    rw [present] at absent
    contradiction
  | replaced found _ stale shown built _ owner =>
    cases present.symm.trans found
    exact ⟨stale, _, _, shown, built, owner⟩
  | kept found stays =>
    cases present.symm.trans found
    exact absurd gives stays

/-- Whether all rows but those of one hash are the same, at their handles. -/
def Spares (s : Registry) (hash : TypeHash) (t : Registry) : Prop :=
  ∀ h row, row.typeHash ≠ hash → (t.anyRow? h = some row ↔ s.anyRow? h = some row)

theorem anyRow?_of_next {h : TypeHandle} {row : Row} (shown : s.row? h.next = some row) :
    s.anyRow? h = none := by
  have current : s.types.generationAt h.slot.index = h.slot.generation + 1 :=
    (SlotTable.get?_eq_some_iff.mp (Option.filter_eq_some_iff.mp shown).1).2
  cases found : s.anyRow? h with
  | none => rfl
  | some old =>
    have before := (SlotTable.get?_eq_some_iff.mp found).2
    exact absurd (current.trans (congrArg (· + 1) before.symm)) (SlotTable.generationAt_ne rfl)

/-- What has become of a type stays while only rows of another hash change. -/
theorem Settled.spared {hash : TypeHash} (settled : Settled options r s type)
    (spares : s.Spares hash t) (other : type.typeHash ≠ hash) (consistent : r.Consistent) :
    Settled options r t type := by
  have shows : ∀ h row, row.typeHash = type.typeHash → s.row? h = some row →
      t.row? h = some row := by
    intro h row same shown
    obtain ⟨found, published⟩ := Option.filter_eq_some_iff.mp shown
    have later := (spares h row (same ▸ other)).mpr found
    exact Option.filter_eq_some_iff.mpr ⟨later, published⟩
  cases settled with
  | added absent empty shown built hash owner =>
    exact .added absent empty (shows _ _ hash shown) built hash owner
  | replaced present gives stale shown built hash owner =>
    have later := shows _ _ hash shown
    exact .replaced present gives (anyRow?_of_next later) later built hash owner
  | kept present stays untouched =>
    have same := (consistent.of_anyByHash? present).2
    exact .kept present stays ((spares _ _ (same ▸ other)).mpr untouched)

theorem Consistent.anyByHash?_eq_some_iff (consistent : r.Consistent) {hash : TypeHash}
    {h : TypeHandle} {row : Row} :
    r.anyByHash? hash = some (h, row) ↔ r.anyRow? h = some row ∧ row.typeHash = hash := by
  constructor
  · exact consistent.of_anyByHash?
  · rintro ⟨there, rfl⟩
    exact consistent.anyByHash?_of_anyRow? there

/-- A new row is in a slot that was empty, and all other rows stay. -/
theorem insertRow_spares (consistent : s.Consistent) (names : Interner) (row : Row) :
    let inserted := { s with names }.insertRow row
    s.Spares row.typeHash inserted.2 ∧ inserted.2.anyRow? inserted.1 = some row ∧
      s.types.rowAt? inserted.1.slot.index = none := by
  intro inserted
  have free : ({ s with names } : Registry).types.FreeExact := consistent.free
  refine ⟨fun h other differs => ?_, ?_, SlotTable.rowAt?_insert_index free row⟩
  · rw [anyRow?_insertRow free]
    split
    · rename_i here
      have empty : s.anyRow? h = none := here ▸ anyRow?_insertRow_new free row
      rw [empty]
      have apart : row ≠ other := fun same => differs (same ▸ rfl)
      simp [apart]
    · rfl
  · rw [anyRow?_insertRow free, if_pos rfl]

/-- A row that takes the place of another is in the next generation of its slot. -/
theorem replaceRow_spares (names : Interner) {h : TypeHandle} {old row : Row}
    (there : s.anyRow? h = some old) (same : row.typeHash = old.typeHash) :
    let replaced := { s with names }.replaceRow h.slot.index row
    s.Spares old.typeHash replaced ∧ replaced.anyRow? h.next = some row := by
  intro replaced
  obtain ⟨present, generation⟩ := SlotTable.get?_eq_some_iff.mp there
  have within := SlotTable.lt_length_of_rowAt? present
  have types : replaced.types = s.types.replace h.slot.index row :=
    types_replaceRow (r := { s with names }) present row
  refine ⟨fun k other differs => ?_, ?_⟩
  · rw [anyRow?, anyRow?, types, SlotTable.get?_eq_some_iff, SlotTable.get?_eq_some_iff,
      SlotTable.rowAt?_replace within, SlotTable.generationAt_replace within]
    by_cases here : k.slot.index = h.slot.index
    · have apart : row ≠ other := fun equal => differs (equal ▸ same)
      have before : old ≠ other := fun equal => differs (equal ▸ rfl)
      simp [here, present, apart, before]
    · simp [here]
  · rw [anyRow?, types, SlotTable.get?_eq_some_iff, SlotTable.rowAt?_replace within,
      SlotTable.generationAt_replace within]
    simp [TypeHandle.next, SlotRef.next, generation]

/-- What merging one type does if some row has its hash. -/
theorem mergeType_present (consistent : s.Consistent) {h : TypeHandle} {old : Row}
    (found : s.anyByHash? type.typeHash = some (h, old)) (report : MergeReport) :
    let built := Image.carryOver (Image.buildRow s.names type (options.incoming type)) old
    mergeType options (s, report) type =
      (if options.GivesWay old (options.incoming type) then
          { s with names := built.2 }.replaceRow h.slot.index built.1
        else s,
        withConflict options report (options.conflict type old)) := by
  intro built
  obtain ⟨there, same⟩ := consistent.of_anyByHash? found
  have present := (SlotTable.get?_eq_some_iff.mp there).1
  have leads := (consistent.hash_iff type.typeHash h.slot.index).mpr ⟨old, present, same⟩
  have rule : replaces options old (options.owner.getD type.owner) = true ↔
      options.GivesWay old (options.incoming type) := replaces_iff
  simp only [mergeType, leads, present, Option.bind_some, Option.map_some, rule]
  by_cases gives : options.GivesWay old (options.incoming type)
  · simp only [withConflict, MergeOptions.conflict, gives, if_true]
    rfl
  · simp only [withConflict, MergeOptions.conflict, gives, if_false]
    rfl

/-- What the types that have been merged so far have done to a registry. -/
structure Effect (options : MergeOptions) (r s : Registry) (types : List Image.ReadType) :
    Prop where
  consistent : s.Consistent
  names : r.names.Keeps s.names
  functions : s.functionTables = r.functionTables
  settled : ∀ type ∈ types, Settled options r s type
  others : ∀ h row, row.typeHash ∉ types.map Image.ReadType.typeHash →
    (s.anyRow? h = some row ↔ r.anyRow? h = some row)

namespace Effect

variable {types : List Image.ReadType} (effect : Effect options r s types)
  (consistent : r.Consistent)

include effect consistent

/-- No slot is emptied. -/
theorem occupied {index : Nat} (empty : s.types.rowAt? index = none) :
    r.types.rowAt? index = none := by
  cases present : r.types.rowAt? index with
  | none => rfl
  | some row =>
    have there : r.anyRow? ⟨⟨index, r.types.generationAt index⟩⟩ = some row :=
      SlotTable.get?_eq_some_iff.mpr ⟨present, rfl⟩
    have found := consistent.anyByHash?_of_anyRow? there
    have later : ∃ other, s.types.rowAt? index = some other := by
      by_cases listed : row.typeHash ∈ types.map Image.ReadType.typeHash
      · obtain ⟨type, member, same⟩ := List.mem_map.mp listed
        rw [← same] at found
        cases effect.settled type member with
        | added absent =>
          rw [found] at absent
          contradiction
        | replaced here _ _ shown =>
          cases found.symm.trans here
          exact ⟨_, rowAt?_of_row? shown⟩
        | kept here _ untouched =>
          cases found.symm.trans here
          exact ⟨_, (SlotTable.get?_eq_some_iff.mp untouched).1⟩
      · have kept := (effect.others _ row listed).mpr there
        exact ⟨row, (SlotTable.get?_eq_some_iff.mp kept).1⟩
    obtain ⟨other, held⟩ := later
    rw [empty] at held
    contradiction

/-- A type that is still to come finds what it would have found at first. -/
theorem anyByHash?_eq {hash : TypeHash} (fresh : hash ∉ types.map Image.ReadType.typeHash) :
    s.anyByHash? hash = r.anyByHash? hash := by
  ext ⟨h, row⟩
  rw [effect.consistent.anyByHash?_eq_some_iff, consistent.anyByHash?_eq_some_iff]
  refine and_congr_left fun same => effect.others h row (same ▸ fresh)

/-- One more type, which changes rows of its own hash only. -/
theorem extend (fresh : type.typeHash ∉ types.map Image.ReadType.typeHash)
    (spares : s.Spares type.typeHash t) (after : t.Consistent) (names : s.names.Keeps t.names)
    (functions : t.functionTables = s.functionTables) (last : Settled options r t type) :
    Effect options r t (types ++ [type]) where
  consistent := after
  names := effect.names.trans names
  functions := functions.trans effect.functions
  settled one listed := by
    rcases List.mem_append.mp listed with before | new
    · refine (effect.settled one before).spared spares ?_ consistent
      exact fun same => fresh (same ▸ List.mem_map_of_mem before)
    · exact List.mem_singleton.mp new ▸ last
  others h row other := by
    simp only [List.map_append, List.map_singleton, List.mem_append, List.mem_singleton,
      not_or] at other
    exact (spares h row other.2).trans (effect.others h row other.1)

/-- A type whose hash no row had. -/
theorem next_added {exports : ExportTable} (backed : type.Backed exports)
    (fresh : type.typeHash ∉ types.map Image.ReadType.typeHash)
    (absent : r.anyByHash? type.typeHash = none) (report : MergeReport) :
    Effect options r (mergeType options (s, report) type).1 (types ++ [type]) ∧
      (mergeType options (s, report) type).2 = { report with added := report.added + 1 } := by
  have merged := mergeType_merged effect.consistent options report type
  have gone := effect.consistent.anyByHash?_eq_none
    ((effect.anyByHash?_eq consistent fresh).trans absent)
  rw [mergeType_fresh type gone] at merged ⊢
  have hash := typeHash_buildRow backed s.names (options.incoming type)
  have owner :=
    (Image.buildRow_drafted backed s.names (options.incoming type)).grows.owner
  have published : (Image.buildRow s.names type (options.incoming type)).1.published = true := rfl
  obtain ⟨spares, shown, empty⟩ := insertRow_spares effect.consistent
    (Image.buildRow s.names type (options.incoming type)).2
    (Image.buildRow s.names type (options.incoming type)).1
  refine ⟨effect.extend consistent fresh (hash ▸ spares) (merged.consistent backed
    effect.consistent) (merged.entered backed).keeps merged.functionTables ?_, rfl⟩
  exact .added absent (effect.occupied consistent empty)
    (Option.filter_eq_some_iff.mpr ⟨shown, published⟩) rfl hash owner

/-- A type whose hash some row had, which gives way or stays. -/
theorem next_present {exports : ExportTable} (backed : type.Backed exports)
    (fresh : type.typeHash ∉ types.map Image.ReadType.typeHash) (held : r.RowsHeld)
    (composed : ∀ index row, r.types.rowAt? index = some row → row.Composed)
    {h : TypeHandle} {old : Row} (present : r.anyByHash? type.typeHash = some (h, old))
    (report : MergeReport) :
    Effect options r (mergeType options (s, report) type).1 (types ++ [type]) ∧
      (mergeType options (s, report) type).2 =
        withConflict options report (options.conflict type old) := by
  have merged := mergeType_merged effect.consistent options report type
  have found := (effect.anyByHash?_eq consistent fresh).trans present
  obtain ⟨there, same⟩ := effect.consistent.of_anyByHash? found
  rw [mergeType_present effect.consistent found] at merged ⊢
  refine ⟨?_, rfl⟩
  by_cases gives : options.GivesWay old (options.incoming type)
  · simp only [if_pos gives] at merged ⊢
    obtain ⟨-, hash, owner⟩ := carryOver_facts backed s.names (options.incoming type) old
    have before := (SlotTable.get?_eq_some_iff.mp (consistent.of_anyByHash? present).1).1
    have built := Image.buildRow_drafted backed s.names (options.incoming type)
    have carried := Image.carryOver_eq (held _ _ before) (composed _ _ before)
      (effect.names.trans built.entered.keeps) (Image.buildRow_plain _ _ _)
    generalize Image.carryOver (Image.buildRow s.names type (options.incoming type)) old = draft
      at merged hash owner carried
    obtain ⟨spares, shown⟩ := replaceRow_spares draft.2 there (hash.trans same.symm)
    have published : draft.1.published = true := carried ▸ rfl
    have visible := Option.filter_eq_some_iff.mpr ⟨shown, published⟩
    refine effect.extend consistent fresh (same ▸ spares)
      (merged.consistent backed effect.consistent) (merged.entered backed).keeps
      merged.functionTables ?_
    exact .replaced present gives (anyRow?_of_next visible) visible carried hash owner
  · simp only [if_neg gives]
    exact effect.extend consistent fresh (fun _ _ _ => Iff.rfl) effect.consistent (.refl _) rfl
      (.kept present gives there)

end Effect

/-- Merging all types of an image, whose hashes are distinct. -/
theorem foldl_mergeType_effect (options : MergeOptions) {exports : ExportTable}
    (consistent : r.Consistent) (held : r.RowsHeld)
    (composed : ∀ index row, r.types.rowAt? index = some row → row.Composed)
    {types : List Image.ReadType} (backed : ∀ type ∈ types, type.Backed exports)
    (distinct : (types.map Image.ReadType.typeHash).Nodup) :
    Effect options r (types.foldl (mergeType options) (r, {})).1 types ∧
      (types.foldl (mergeType options) (r, {})).2 = r.reportOf options types := by
  induction types using List.reverseRecOn with
  | nil =>
    refine ⟨⟨consistent, .refl _, rfl, by simp, fun _ _ _ => Iff.rfl⟩, ?_⟩
    simp [reportOf]
  | append_singleton types type ih =>
    obtain ⟨before, others⟩ := Row.nodup_push distinct
    obtain ⟨effect, report⟩ := ih (fun t listed => backed t (List.mem_append_left _ listed)) before
    have fresh : type.typeHash ∉ types.map Image.ReadType.typeHash := by
      intro listed
      obtain ⟨other, member, same⟩ := List.mem_map.mp listed
      exact others other member same
    have last : type.Backed exports := backed type (by simp)
    rw [List.foldl_append, List.foldl_cons, List.foldl_nil]
    generalize types.foldl (mergeType options) (r, {}) = state at *
    obtain ⟨s, told⟩ := state
    obtain rfl : told = r.reportOf options types := report
    cases found : r.anyByHash? type.typeHash with
    | none =>
      rw [reportOf_append_absent found]
      exact effect.next_added consistent last fresh found _
    | some there =>
      rw [reportOf_append_present found]
      exact effect.next_present consistent last fresh held composed found _

/-- A merge that succeeds has merged all types of the image. -/
theorem merge_eq_ok {exports : ExportTable} {bytes : List UInt8} {types : List Image.ReadType}
    (read : Image.decode exports bytes = .ok types) {report : MergeReport}
    (succeeded : (r.merge exports bytes options).1 = .ok report) :
    r.merge exports bytes options =
      (.ok (types.foldl (mergeType options) (r, {})).2,
        (types.foldl (mergeType options) (r, {})).1) := by
  unfold merge at succeeded ⊢
  simp only [read] at succeeded ⊢
  split at succeeded
  · cases succeeded
  · rfl

end Registry

/-- What a merge that succeeds does to a registry in any state, for all images and options. Each
type of the image is added, replaced or kept by the row that had its hash before; the rows of other
types stay at their handles, and so do all functions. The report counts each type once and tells its
conflict, if it has one, as it was found before the merge. -/
theorem Catalog.merge_settles_types {u : Universe} {c : Catalog} (attained : Attained u c) (n : Nat)
    {exports : ExportTable} {bytes : List UInt8} {options : MergeOptions}
    {types : List Image.ReadType} (read : Image.decode exports bytes = .ok types)
    {report : MergeReport}
    (succeeded : ((c.registry n).merge exports bytes options).1 = .ok report) :
    let r := c.registry n
    let s := (r.merge exports bytes options).2
    (∀ type ∈ types, Registry.Settled options r s type) ∧
      (∀ h row, row.typeHash ∉ types.map Image.ReadType.typeHash →
        (s.anyRow? h = some row ↔ r.anyRow? h = some row)) ∧
      (∀ h, s.functionRow? h = r.functionRow? h) ∧
      report = r.reportOf options types ∧
      report.added + report.conflicted + report.replaced = types.length := by
  intro r s
  obtain ⟨ended, kept⟩ := attained.kept
  obtain ⟨effect, told⟩ := Registry.foldl_mergeType_effect options (kept.consistent n)
    (kept.rows n) (attained.reachable.composed n) (Image.decode_backed read)
    (Image.decode_nodup read)
  have merged := Registry.merge_eq_ok read succeeded
  have after : s = (types.foldl (Registry.mergeType options) (r, {})).1 := congrArg Prod.snd merged
  have functions : s.functions = r.functions := congrArg Prod.fst (after ▸ effect.functions)
  obtain rfl : report = r.reportOf options types := by
    rw [merged, told] at succeeded
    exact (Except.ok.inj succeeded).symm
  rw [after]
  refine ⟨effect.settled, effect.others, fun h => ?_, rfl, Registry.reportOf_total r options types⟩
  rw [← after, Registry.functionRow?, functions, Registry.functionRow?]

/-- The types of a registry's own image are replaced on behalf of another module, and the one that
embeds the other still does. -/
theorem Embedded.replaced_for_module :
    let r := described.registry 0
    let written := Image.ofRegistry r described.exports
    let options : MergeOptions :=
      { policy := .replace, owner := some ⟨7⟩, crossModule := true, collectConflicts := true }
    let s := r.merge written.2 written.1 options
    let h := derivedPass.pass.handle
    (∃ report, s.1 = .ok report ∧ report.replaced = 2 ∧
      report.conflicts.map (fun c => (c.existing, c.incoming)) = [(.host, ⟨7⟩), (.host, ⟨7⟩)]) ∧
    s.2.anyRow? h = none ∧ ∃ row, s.2.row? h.next = some row ∧ row.owner = ⟨7⟩ ∧
      row.bases.map (·.base) = [program.facts.hash (.user "A")] := by
  intro r written options s h
  have answered : s.1.toOption.any (fun report => report.replaced = 2 &&
      report.conflicts.map (fun c => (c.existing, c.incoming)) =
        [(.host, ⟨7⟩), (.host, ⟨7⟩)]) = true := by decide +kernel
  have hashes : (Image.decode written.2 written.1).toOption.any (fun types =>
      types.any fun type => type.typeHash = program.facts.hash (.user "B")) = true := by
    decide +kernel
  have there : (r.anyByHash? (program.facts.hash (.user "B"))).any (fun (k, old) => k = h &&
      old.published && old.bases.map (·.base) = [program.facts.hash (.user "A")]) = true := by
    decide +kernel
  obtain ⟨report, succeeded, told⟩ := Except.eq_ok_of_any answered
  obtain ⟨types, read, listed⟩ := Except.eq_ok_of_any hashes
  obtain ⟨⟨k, old⟩, present, facts⟩ := (Option.any_eq_true _ _).mp there
  simp only [Bool.and_eq_true, decide_eq_true_eq] at facts told
  obtain ⟨⟨same, published⟩, bases⟩ := facts
  obtain ⟨type, member, hash⟩ := List.any_eq_true.mp listed
  obtain ⟨settled, -⟩ := Catalog.merge_settles_types attained_described 0 read succeeded
  have gives : options.GivesWay old (options.incoming type) := ⟨rfl, published, .inr rfl⟩
  rw [← of_decide_eq_true hash] at present
  obtain ⟨stale, row, names, shown, built, owner⟩ := (settled type member).of_gives present gives
  rw [same] at stale shown
  exact ⟨⟨report, succeeded, told⟩, stale, row, shown, owner, by rw [built]; exact bases⟩

end TypeCatalog
