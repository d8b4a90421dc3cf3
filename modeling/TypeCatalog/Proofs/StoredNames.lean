import TypeCatalog.Proofs.Notes
import TypeCatalog.Proofs.RoundTrip

/-!
The names that a row stores: its own, those of its members, and the keys of all attributes. The id of
each leads back to the name, because the owner of the row holds it. A merge that hands a row to
another module enters all of them again but one kind: properties are carried over with the attributes
that they had, and the keys of these stay with the module that had the row before. They are lost when
it is removed.
-/
namespace TypeCatalog

namespace Row

/-- The keys of a row's attributes, and of those of its fields, methods and constructors. -/
def keys (row : Row) : List Name :=
  row.attributes.map (·.key) ++ row.fields.flatMap (·.attributes.map (·.key)) ++
    row.methods.flatMap (·.attributes.map (·.key)) ++
    row.constructors.flatMap (·.attributes.map (·.key))

/-- The keys of the attributes of a row's properties. -/
def propertyKeys (row : Row) : List Name := row.properties.flatMap (·.attributes.map (·.key))

theorem mem_propertyKeys {row : Row} {key : Name} :
    key ∈ row.propertyKeys ↔ ∃ p ∈ row.properties, ∃ a ∈ p.attributes, a.key = key := by
  simp [propertyKeys]

theorem Noted.keys {given : Name → Prop} {row : Row} (noted : row.Noted given) :
    ∀ key ∈ row.keys, given key := by
  intro key listed
  simp only [Row.keys, List.mem_append, List.mem_flatMap, List.mem_map] at listed
  rcases listed with ((⟨a, member, rfl⟩ | ⟨f, there, a, member, rfl⟩) | ⟨m, there, a, member, rfl⟩) |
    ⟨c, there, a, member, rfl⟩
  · exact (noted.own a member).key
  · exact (noted.fields f there a member).key
  · exact (noted.methods m there a member).key
  · exact (noted.constructors c there a member).key

variable {row : Row}

@[simp] theorem propertyKeys_addField (row : Row) (f : Field) :
    (row.addField f).propertyKeys = row.propertyKeys := by
  unfold addField
  split <;> rfl

@[simp] theorem propertyKeys_addMethod (row : Row) (m : Method) :
    (row.addMethod m).propertyKeys = row.propertyKeys := by
  unfold addMethod
  split <;> rfl

@[simp] theorem propertyKeys_addConstructor (row : Row) (c : Constructor) :
    (row.addConstructor c).propertyKeys = row.propertyKeys := by
  unfold addConstructor
  split <;> rfl

@[simp] theorem propertyKeys_addBase (row : Row) (b : BaseLink) :
    (row.addBase b).propertyKeys = row.propertyKeys := by
  unfold addBase
  split <;> rfl

@[simp] theorem propertyKeys_addEnumValue (row : Row) (e : EnumValue) :
    (row.addEnumValue e).propertyKeys = row.propertyKeys := by
  unfold addEnumValue
  split <;> rfl

theorem mem_propertyKeys_addProperty {p : Property} {key : Name}
    (listed : key ∈ (row.addProperty p).propertyKeys) :
    key ∈ row.propertyKeys ∨ key ∈ p.attributes.map (·.key) := by
  unfold addProperty at listed
  split at listed
  · exact .inl listed
  · simpa [propertyKeys] using listed

/-- Folding a draft into a row adds at most the keys of the draft's properties. -/
theorem propertyKeys_publish {given : Name → Prop} (held : ∀ key ∈ row.propertyKeys, given key)
    {draft : Draft} (noted : PropertiesNoted given draft.properties) :
    ∀ key ∈ (row.publish draft).propertyKeys, given key := by
  apply publish_induction (P := fun r => ∀ key ∈ r.propertyKeys, given key) held
  · simp +contextual
  · intro r before p member key listed
    rcases mem_propertyKeys_addProperty listed with old | new
    · exact before key old
    · obtain ⟨a, there, rfl⟩ := List.mem_map.mp new
      exact (noted p member a there).key
  · simp +contextual
  · simp +contextual
  · simp +contextual
  · simp +contextual
  · exact fun r before => before

end Row

namespace Image

theorem propertyKeys_buildRow (names : Interner) (type : ReadType) (owner : ModuleId) :
    (buildRow names type owner).1.propertyKeys = [] := by
  rw [buildRow_eq]
  show (buildMembers names type owner).1.propertyKeys = []
  apply buildMembers_induction (P := fun d => d.1.propertyKeys = [])
  · rfl
  · intro d none f _
    simp [addReadField, none]
  · intro d none m _
    simp [addReadMethod, none]
  · intro d none c _
    simp [addReadConstructor, none]

/-- The keys of the properties of a row that replaces an old one are those of the old one. -/
theorem propertyKeys_carryOver (names : Interner) (type : ReadType) (owner : ModuleId) (old : Row) :
    ∀ key ∈ (carryOver (buildRow names type owner) old).1.propertyKeys, key ∈ old.propertyKeys := by
  apply carryOver_induction (P := fun d => ∀ key ∈ d.1.propertyKeys, key ∈ old.propertyKeys)
  · simp [propertyKeys_buildRow]
  · intro d before p member key listed
    rcases Row.mem_propertyKeys_addProperty listed with kept | carried
    · exact before key kept
    · obtain ⟨a, there, rfl⟩ := List.mem_map.mp carried
      exact Row.mem_propertyKeys.mpr ⟨p, member, a, there, rfl⟩
  · intro d before b _
    simpa using before
  · intro d before e
    simpa [carryEnumValue] using before

end Image

namespace Registry

variable {r s : Registry} {index : Nat} {key : Name}

theorem Merged.propertyKeys {options : MergeOptions} {type : Image.ReadType}
    (free : r.types.FreeExact) (merged : Merged options type r s) {row : Row}
    (present : s.types.rowAt? index = some row) (listed : key ∈ row.propertyKeys) :
    ∃ old, r.types.rowAt? index = some old ∧ key ∈ old.propertyKeys := by
  cases merged with
  | added fresh =>
    rw [types_insertRow, SlotTable.rowAt?_insert free] at present
    split at present
    · cases Option.some.inj present
      simp [Image.propertyKeys_buildRow] at listed
    · exact ⟨row, present, listed⟩
  | @replaced slot old there same published allowed taken =>
    have carried := Image.propertyKeys_carryOver r.names type (options.owner.getD type.owner) old
    generalize Image.carryOver (Image.buildRow r.names type (options.owner.getD type.owner)) old =
      draft at present carried
    rw [types_replaceRow (r := { r with names := draft.2 }) there,
      SlotTable.rowAt?_replace (SlotTable.lt_length_of_rowAt? there)] at present
    split at present
    · subst slot
      cases Option.some.inj present
      exact ⟨old, there, carried key listed⟩
    · exact ⟨row, present, listed⟩
  | kept there same => exact ⟨row, present, listed⟩

theorem MergedAll.propertyKeys {options : MergeOptions} {exports : ExportTable}
    {types : List Image.ReadType} (consistent : r.Consistent)
    (merged : MergedAll options exports r types s) {row : Row}
    (present : s.types.rowAt? index = some row) (listed : key ∈ row.propertyKeys) :
    ∃ old, r.types.rowAt? index = some old ∧ key ∈ old.propertyKeys := by
  induction merged generalizing row with
  | none => exact ⟨row, present, listed⟩
  | next before backed last ih =>
    obtain ⟨middle, there, member⟩ :=
      last.propertyKeys (before.consistent consistent).free present listed
    exact ih there member

/-- Whether the owner of the row in a slot holds the keys of the attributes of its properties. -/
def KeysHeldAt (r : Registry) (index : Nat) : Prop :=
  ∀ row, r.types.rowAt? index = some row → ∀ key ∈ row.propertyKeys, r.names.Holds row.owner key

end Registry

/-- After a change, the key of a property's attribute is one that the row of the slot had before, or
the change has published the row. -/
theorem Operation.propertyKeys_run {r : Registry} (consistent : r.Consistent) (op : Operation)
    {index : Nat} {row : Row} (present : (op.run r).types.rowAt? index = some row) {key : Name}
    (listed : key ∈ row.propertyKeys) :
    (∃ old, r.types.rowAt? index = some old ∧ key ∈ old.propertyKeys) ∨
      ∃ h draft old, op = .commit h draft ∧ r.anyRow? h = some old ∧ h.slot.index = index ∧
        row = old.publish draft := by
  cases op.alters r with
  | nothing quiet types => exact .inl ⟨row, types ▸ present, listed⟩
  | adds u type owner types =>
    rw [types, SlotTable.rowAt?_insert consistent.free] at present
    split at present
    · cases Option.some.inj present
      simp [Registry.skeletonRow, Row.propertyKeys] at listed
    · exact .inl ⟨row, present, listed⟩
  | @publishes h old draft alive types =>
    have there := (SlotTable.get?_eq_some_iff.mp alive).1
    rw [types, SlotTable.rowAt?_modify, there] at present
    split at present
    · rename_i here
      exact .inr ⟨h, draft, old, rfl, alive, here.symm, (Option.some.inj present).symm⟩
    · exact .inl ⟨row, present, listed⟩
  | removes alive types =>
    rw [types, SlotTable.rowAt?_remove] at present
    split at present
    · contradiction
    · exact .inl ⟨row, present, listed⟩
  | sweeps m types =>
    rw [types, SlotTable.rowAt?_sweep] at present
    exact .inl ⟨row, present.1, listed⟩
  | merges exports bytes options =>
    left
    rcases Registry.merge_merged consistent exports bytes options with same | ⟨types, -, merged⟩
    · exact ⟨row, (congrArg Registry.types same) ▸ present, listed⟩
    · exact merged.propertyKeys consistent present listed

/-- The removal of a module leaves no row of the module. -/
theorem Operation.owner_run {r : Registry} {m : ModuleId} {index : Nat} {row : Row}
    (present : ((unregister m).run r).types.rowAt? index = some row) : row.owner ≠ m := by
  rw [run, Registry.types_unregisterModule, SlotTable.rowAt?_sweep] at present
  simpa using present.2

namespace Catalog

variable {u : Universe} {c d : Catalog}

/-- Whether a step leaves the row of a slot to its module, if its properties are annotated. -/
def Retains (n index : Nat) (c d : Catalog) : Prop :=
  ∀ old row, (c.registry n).types.rowAt? index = some old →
    (d.registry n).types.rowAt? index = some row → old.propertyKeys ≠ [] → row.owner = old.owner

theorem AnnotatesAll.keysHeldAt {n index : Nat} (annotates : c.AnnotatesAll d)
    (retains : Retains n index c d) {ended : Script.Pass → Prop} (kept : c.Kept ended)
    (gone : ∀ p ∈ c.passes, ended p.pass →
      (c.registry p.pass.registry).anyRow? p.pass.handle = none)
    (held : (c.registry n).KeysHeldAt index) : (d.registry n).KeysHeldAt index := by
  rcases annotates n with same | ⟨op, declares, permitted, after⟩
  · exact same ▸ held
  · have consistent := kept.consistent n
    intro row present key listed
    rw [after] at present ⊢
    rcases op.propertyKeys_run consistent present listed with
      ⟨old, there, member⟩ | ⟨h, draft, old, rfl, alive, here, rfl⟩
    · have own : row.owner = old.owner :=
        retains old row there (after ▸ present) (List.ne_nil_of_mem member)
      rw [own]
      apply Operation.holds_run consistent (held old there key member)
      rintro rfl
      exact absurd own (Operation.owner_run present)
    · obtain ⟨p, top, rfl, rfl, -⟩ := permitted
      have running : p ∈ c.passes := top ▸ List.mem_cons_self
      have there := (SlotTable.get?_eq_some_iff.mp alive).1
      rcases kept.bound p running with finished | bound
      · rw [gone p running finished] at alive
        contradiction
      · rw [(Row.publish_grows old draft).owner, Operation.run, Registry.names_commit]
        refine Row.propertyKeys_publish (held old (here ▸ there)) ?_ key listed
        exact (declares p _ top).2.mono fun name entered =>
          holds_of_bound bound alive entered

theorem AttainedBy.keysHeldAt {n index : Nat}
    (attained : AttainedBy (fun a b => a.AnnotatesAll b ∧ Retains n index a b) u c) :
    (c.registry n).KeysHeldAt index := by
  apply attained.induction
  · intro row present
    simp [registry] at present
  · exact fun kept gone kind held => kind.1.keysHeldAt kind.2 kept gone held

/-- The ids of the names that a row stores lead back to the names: those of the row and its members,
and the keys of the attributes of the type and of its fields, methods and constructors, whatever has
been merged and removed; and the keys of the attributes of its properties, as long as no merge has
handed a row with such attributes in its slot to another module. -/
theorem stored_names_resolve (attained : AttainedBy AnnotatesAll u c) {n : Nat} {h : TypeHandle}
    {row : Row} (alive : (c.registry n).anyRow? h = some row) :
    let names := (c.registry n).names
    (∀ name ∈ row.names ++ row.keys, names.name? name.id = some name) ∧
      (AttainedBy (fun a b => a.AnnotatesAll b ∧ Retains n h.slot.index a b) u c →
        ∀ key ∈ row.propertyKeys, names.name? key.id = some key) := by
  intro names
  have present := (SlotTable.get?_eq_some_iff.mp alive).1
  constructor
  · obtain ⟨ended, kept⟩ := attained.attained.kept
    have noted := (attained.mono fun _ _ => Collects.mono fun _ _ => And.left).notesHeld n _ row present
    intro name listed
    rcases List.mem_append.mp listed with own | key
    · exact ((kept.rows n _ row present).held name own).name?
    · exact (Row.Noted.keys noted name key).name?
  · intro retained key listed
    exact (retained.keysHeldAt row present key listed).name?

/-- Only a merge can hand a row to another module. -/
theorem Move.retains (move : Move u c d) (consistent : c.Consistent) (n index : Nat) :
    Retains n index c d := by
  intro old row before now _
  rcases move.changed n with same | ⟨op, quiet, -, after⟩
  · rw [same] at now
    cases Option.some.inj (before.symm.trans now)
    rfl
  · rw [after] at now
    rcases Operation.types_succeed (consistent n) op index with ⟨-, kept⟩ | ended
    · obtain ⟨later, there, grown⟩ := kept old before
      cases Option.some.inj (there.symm.trans now)
      exact grown.owner
    · -- The only change of this kind that ends a row takes it out of its slot.
      rcases Operation.generationAt_run quiet index with unended | ⟨h, rfl, rfl⟩
      · exact absurd ended (SlotTable.generationAt_ne unended)
      · rw [Operation.run] at ended now
        rcases Registry.types_discardPending (c.registry n) h with same | ⟨_, _, _, removed⟩
        · exact absurd ended (SlotTable.generationAt_ne (by rw [same]))
        · rw [removed, SlotTable.rowAt?_remove, if_pos rfl] at now
          contradiction

/-- What is attained by moves alone has handed no row to another module. -/
theorem attainedBy_of_moves
    (run : Relation.ReflTransGen (fun a b => Move u a b ∧ a.AnnotatesAll b) {} c) (n index : Nat) :
    AttainedBy (fun a b => a.AnnotatesAll b ∧ Retains n index a b) u c := by
  apply AttainedBy.quiet
  induction run with
  | refl => exact .refl
  | @tail a b before step ih =>
    have reachable : Reachable u a :=
      Relation.ReflTransGen.mono (fun _ _ step => .move step.1) _ _ before
    exact ih.tail ⟨.move step.1, step.2, step.1.retains reachable.allConsistent n index⟩

def afterEntering (c : Catalog) (p : OpenPass) (text : String) : Catalog × OpenPass :=
  let q := { p with
    names := p.names ++ [((c.registry p.pass.registry).intern text p.pass.owner).1] }
  ({ c.change p.pass.registry (.intern text p.pass.owner) with passes := [q] }, q)

/-- A module's type is being described, and two names have been entered. -/
def describingUnit : Catalog × OpenPass :=
  let c : Catalog := { registries := [{}] }
  let m := ModuleId.ofName "plug"
  let p := c.firstPass Gallery.knownTypes 0 (.user "A") m
  let begun := { c.change 0 (.skeleton Gallery.knownTypes (.user "A") m) with passes := [p] }
  let (named, q) := begun.afterEntering p "size"
  named.afterEntering q "unit"

/-- A property called by the first of some names, annotated with the second. -/
def sizeWithUnit (names : List Name) : Draft where
  properties := [{
    name := names.headD default
    type := Gallery.knownTypes.hash Gallery.i32
    computed := ⟨.user "A", Gallery.i32, id, none⟩
    attributes := [⟨names.getLastD default, .int 1⟩] }]

def describedUnit : Catalog :=
  { describingUnit.1.change 0 (.commit ⟨0, 0⟩ (sizeWithUnit describingUnit.2.names)) with
    passes := [] }

theorem describedUnit_run : Relation.ReflTransGen
    (fun a b => Move Gallery.knownTypes a b ∧ a.AnnotatesAll b) {} describedUnit := by
  let u := Gallery.knownTypes
  let m := ModuleId.ofName "plug"
  let one : Catalog := { registries := [{}] }
  let p := one.firstPass u 0 (.user "A") m
  let begun : Catalog := { one.change 0 (.skeleton u (.user "A") m) with passes := [p] }
  let named := begun.afterEntering p "size"
  let draft := sizeWithUnit describingUnit.2.names
  let Goes (a b : Catalog) : Prop := Move u a b ∧ a.AnnotatesAll b
  have goes : ∀ {a b : Catalog}, Move u a b → a.passes.length ≤ b.passes.length → Goes a b :=
    fun move open_ => ⟨move, move.collects open_⟩
  have first : Goes {} one := goes (.create {}) (Nat.le_refl _)
  have second : Goes one begun := goes (.register m (by decide) rfl) (Nat.le_succ _)
  have third : Goes begun named.1 := goes (.enter (p := p) rfl "size") (Nat.le_refl _)
  have fourth : Goes named.1 describingUnit.1 :=
    goes (.enter (p := named.2) rfl "unit") (Nat.le_refl _)
  have entered : ∀ name ∈ draft.names, name ∈ describingUnit.2.names := by decide +kernel
  have collected : draft.MadeOf describingUnit.2 := by
    refine ⟨entered, ?_, ?_, ?_⟩ <;> simp [draft, sizeWithUnit]
  have noted : draft.Noted (· ∈ describingUnit.2.names) := by
    constructor <;> simp [draft, sizeWithUnit]
  have unit : describingUnit.2.names.getLastD default ∈ describingUnit.2.names := by
    decide +kernel
  have properties : PropertiesNoted (· ∈ describingUnit.2.names) draft.properties := by
    intro p member a listed
    cases List.mem_singleton.mp member
    cases List.mem_singleton.mp listed
    exact ⟨unit, fun _ other => nomatch other⟩
  have fifth : Goes describingUnit.1 describedUnit :=
    ⟨.commit (p := describingUnit.2) rfl collected,
      collects_commit (p := describingUnit.2) rfl collected ⟨noted, properties⟩⟩
  exact ((((Relation.ReflTransGen.single first).tail second).tail third).tail fourth).tail fifth

/-- The names that a described property stores, its own and the key of its attribute, are found. -/
theorem unit_found_by_id :
    ∃ row, (describedUnit.registry 0).anyRow? ⟨0, 0⟩ = some row ∧
      (∀ name ∈ row.names ++ row.keys ++ row.propertyKeys,
        (describedUnit.registry 0).names.name? name.id = some name) ∧
      "unit" ∈ row.propertyKeys.map (·.text) := by
  have computed : ((describedUnit.registry 0).anyRow? ⟨0, 0⟩).any
      (fun row => decide ("unit" ∈ row.propertyKeys.map (·.text))) = true := by
    decide +kernel
  obtain ⟨row, alive, unit⟩ := (Option.any_eq_true _ _).mp computed
  have retained := attainedBy_of_moves describedUnit_run 0 0
  have attained := retained.mono fun _ _ => And.left
  obtain ⟨others, properties⟩ := stored_names_resolve attained alive
  refine ⟨row, alive, fun name listed => ?_, of_decide_eq_true unit⟩
  rcases List.mem_append.mp listed with other | key
  · exact others name other
  · exact properties retained name key

/-- The type is written, merged on behalf of another module, and its first module is removed. -/
def inheritedUnit : Catalog :=
  let written := describedUnit.written 0
  let options : MergeOptions :=
    { policy := .replace, crossModule := true, owner := some (.ofName "other") }
  let merged := written.change 0 (.merge written.exports (describedUnit.sections 0).image options)
  merged.change 0 (.unregister (.ofName "plug"))

/-- The row that another module has taken over is there, and the id of its unit leads nowhere. -/
theorem unit_lost_with_former_owner :
    AttainedBy AnnotatesAll Gallery.knownTypes inheritedUnit ∧
      ((inheritedUnit.registry 0).row? ⟨0, 1⟩).any (fun row =>
        row.propertyKeys.map (·.text) = ["unit"] && row.propertyKeys.all fun key =>
          ((inheritedUnit.registry 0).names.name? key.id).isNone) = true := by
  constructor
  · let u := Gallery.knownTypes
    let written := describedUnit.written 0
    let options : MergeOptions :=
      { policy := .replace, crossModule := true, owner := some (.ofName "other") }
    let bytes := (describedUnit.sections 0).image
    let Goes (a b : Catalog) : Prop := QuietStep u a b ∧ a.AnnotatesAll b
    have moved : Relation.ReflTransGen Goes {} describedUnit :=
      Relation.ReflTransGen.mono (fun _ _ step => ⟨.move step.1, step.2⟩) _ _ describedUnit_run
    have writes : Move u describedUnit written := .write 0
    have merges := Overhaul.merge (c := written) (n := 0) bytes options
    have removes := Overhaul.unregister
      (c := written.change 0 (.merge written.exports bytes options)) (n := 0) (.ofName "plug")
    have run := ((moved.tail ⟨.move writes, writes.collects (Nat.le_refl _)⟩).tail
      ⟨.overhaul merges nofun, merges.collects⟩).tail
      ⟨.overhaul removes nofun, removes.collects⟩
    exact .quiet run
  · decide +kernel

end Catalog

end TypeCatalog
