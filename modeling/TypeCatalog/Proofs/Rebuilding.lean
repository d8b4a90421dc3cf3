import TypeCatalog.Proofs.Catalog
import TypeCatalog.Proofs.Origins

/-!
Rows and their members. A row's indexes are what entering its members one after another makes of
empty ones, and its flags are not less than its members ask for; so whoever adds the members of a row
to a bare one again, in their order, gets the same row, with the same indexes.
-/
namespace TypeCatalog

namespace Index

variable {κ : Type} [DecidableEq κ]

/-- The index that numbers keys in their order. -/
def numbering (keys : List κ) : Index κ Nat :=
  keys.zipIdx.foldl (fun m (key, position) => m.insert key position) .empty

theorem numbering_push (keys : List κ) (key : κ) :
    numbering (keys ++ [key]) = (numbering keys).insert key keys.length := by
  rw [numbering, List.zipIdx_append, List.foldl_append, Nat.zero_add]
  rfl

theorem find?_numbering {keys : List κ} {key : κ} (absent : key ∉ keys) :
    (numbering keys).find? key = none := by
  induction keys using List.reverseRecOn with
  | nil => rfl
  | append_singleton keys last ih =>
    rw [List.mem_append, List.mem_singleton, not_or] at absent
    rw [numbering_push, find?_insert, if_neg absent.2, ih absent.1]

/-- The index that lists the positions of each key in their order. -/
def grouping (keys : List κ) : Index κ (List Nat) :=
  keys.zipIdx.foldl (fun m (key, position) => m.update key [] (· ++ [position])) .empty

theorem grouping_push (keys : List κ) (key : κ) :
    grouping (keys ++ [key]) = (grouping keys).update key [] (· ++ [keys.length]) := by
  rw [grouping, List.zipIdx_append, List.foldl_append, Nat.zero_add]
  rfl

end Index

namespace Row

/-- Whether the indexes of a row are what its members make them, no base repeats an earlier one, and
a type with alternatives is flagged so. -/
structure Composed (row : Row) : Prop where
  fields : row.fieldIndex = .numbering (row.fields.map (·.name.id))
  properties : row.propertyIndex = .numbering (row.properties.map (·.name.id))
  methods : row.methodIndex = .grouping (row.methods.map (·.name.id))
  bases : (row.bases.map (·.base)).Nodup
  enumFlag : row.enumValues ≠ [] → row.flags.isEnum = true

variable {row : Row}

theorem addField_composed (composed : row.Composed) (field : Field) :
    (row.addField field).Composed := by
  unfold addField
  split
  · exact composed
  · refine { composed with fields := ?_ }
    dsimp only
    rw [composed.fields, List.map_append, List.map_singleton, Index.numbering_push, List.length_map]

theorem addProperty_composed (composed : row.Composed) (property : Property) :
    (row.addProperty property).Composed := by
  unfold addProperty
  split
  · exact composed
  · refine { composed with properties := ?_ }
    dsimp only
    rw [composed.properties, List.map_append, List.map_singleton, Index.numbering_push,
      List.length_map]

theorem addMethod_composed (composed : row.Composed) (method : Method) :
    (row.addMethod method).Composed := by
  unfold addMethod
  split
  · exact composed
  · refine { composed with methods := ?_ }
    dsimp only
    rw [composed.methods, List.map_append, List.map_singleton, Index.grouping_push, List.length_map]

theorem addConstructor_composed (composed : row.Composed) (constructor : Constructor) :
    (row.addConstructor constructor).Composed := by
  unfold addConstructor
  split
  · exact composed
  · refine { composed with enumFlag := fun some => ?_ }
    dsimp only
    split <;> exact composed.enumFlag some

theorem addBase_composed (composed : row.Composed) (base : BaseLink) :
    (row.addBase base).Composed := by
  unfold addBase
  split
  · exact composed
  · rename_i fresh
    refine { composed with bases := ?_ }
    rw [List.map_append, List.nodup_append]
    refine ⟨composed.bases, List.nodup_singleton _, ?_⟩
    simpa using fresh

theorem addEnumValue_composed (composed : row.Composed) (value : EnumValue) :
    (row.addEnumValue value).Composed := by
  unfold addEnumValue
  split
  · exact composed
  · exact { composed with enumFlag := fun _ => rfl }

theorem skeleton_composed (name : Name) (typeHash : TypeHash) (owner : ModuleId)
    (size align : UInt64) (flags : TypeFlags) :
    Composed { name, typeHash, owner, size, align, flags } where
  fields := rfl
  properties := rfl
  methods := rfl
  bases := List.nodup_nil
  enumFlag none := absurd rfl none

theorem publish_composed (composed : row.Composed) (draft : Draft) :
    (row.publish draft).Composed := by
  refine publish_induction composed ?_ ?_ ?_ ?_ ?_ ?_ ?_
  · exact fun r h f _ => addField_composed h f
  · exact fun r h p _ => addProperty_composed h p
  · exact fun r h m _ => addMethod_composed h m
  · exact fun r h c _ => addConstructor_composed h c
  · exact fun r h b _ => addBase_composed h b
  · exact fun r h e _ => addEnumValue_composed h e
  · exact fun r h => { h with }

-- The members of a kind are added to a row that has none of it. None of them repeats an earlier one,
-- so each is added.
theorem nodup_push {α κ : Type} {key : α → κ} {items : List α} {last : α}
    (distinct : ((items ++ [last]).map key).Nodup) :
    (items.map key).Nodup ∧ ∀ item ∈ items, key item ≠ key last := by
  rw [List.map_append, List.nodup_append] at distinct
  exact ⟨distinct.1, fun item listed =>
    distinct.2.2 _ (List.mem_map_of_mem listed) _ List.mem_cons_self⟩

theorem foldl_addField (row : Row) {fields : List Field}
    (distinct : (fields.map (·.name.id)).Nodup) :
    fields.foldl addField { row with fields := [], fieldIndex := .empty } =
      { row with fields, fieldIndex := .numbering (fields.map (·.name.id)) } := by
  induction fields using List.reverseRecOn with
  | nil => rfl
  | append_singleton fields field ih =>
    obtain ⟨before, fresh⟩ := nodup_push distinct
    rw [List.foldl_append, ih before, List.foldl_cons, List.foldl_nil, addField, fieldPosition?,
      Index.find?_numbering (by simpa using fresh), List.map_append, List.map_singleton,
      Index.numbering_push, List.length_map]

theorem foldl_addProperty (row : Row) {properties : List Property}
    (distinct : (properties.map (·.name.id)).Nodup) :
    properties.foldl addProperty { row with properties := [], propertyIndex := .empty } =
      { row with properties, propertyIndex := .numbering (properties.map (·.name.id)) } := by
  induction properties using List.reverseRecOn with
  | nil => rfl
  | append_singleton properties property ih =>
    obtain ⟨before, fresh⟩ := nodup_push distinct
    rw [List.foldl_append, ih before, List.foldl_cons, List.foldl_nil, addProperty,
      propertyPosition?, Index.find?_numbering (by simpa using fresh), List.map_append,
      List.map_singleton, Index.numbering_push, List.length_map]

theorem foldl_addMethod (row : Row) {methods : List Method}
    (distinct : (methods.map (·.signature)).Nodup) :
    methods.foldl addMethod { row with methods := [], methodIndex := .empty } =
      { row with methods, methodIndex := .grouping (methods.map (·.name.id)) } := by
  induction methods using List.reverseRecOn with
  | nil => rfl
  | append_singleton methods method ih =>
    obtain ⟨before, fresh⟩ := nodup_push distinct
    rw [List.foldl_append, ih before, List.foldl_cons, List.foldl_nil, addMethod,
      if_neg (by simpa using fresh), List.map_append, List.map_singleton, Index.grouping_push,
      List.length_map]

theorem foldl_addConstructor (row : Row) {constructors : List Constructor}
    (distinct : (constructors.map (·.signature)).Nodup)
    (flagged : ∀ c ∈ constructors, c.params = [] → row.flags.isDefaultConstructible = true) :
    constructors.foldl addConstructor { row with constructors := [] } =
      { row with constructors } := by
  induction constructors using List.reverseRecOn with
  | nil => rfl
  | append_singleton constructors constructor ih =>
    obtain ⟨before, fresh⟩ := nodup_push distinct
    have same : (if constructor.params.isEmpty then
        { row.flags with isDefaultConstructible := true } else row.flags) = row.flags := by
      split
      · rename_i none
        rw [← flagged constructor (by simp) (List.isEmpty_iff.mp none)]
      · rfl
    have earlier := ih before fun c listed => flagged c (List.mem_append_left _ listed)
    rw [List.foldl_append, earlier, List.foldl_cons, List.foldl_nil, addConstructor,
      if_neg (by simpa using fresh), same]

theorem foldl_addBase (row : Row) {bases : List BaseLink}
    (distinct : (bases.map (·.base)).Nodup) :
    bases.foldl addBase { row with bases := [] } = { row with bases } := by
  induction bases using List.reverseRecOn with
  | nil => rfl
  | append_singleton bases base ih =>
    obtain ⟨before, fresh⟩ := nodup_push distinct
    rw [List.foldl_append, ih before, List.foldl_cons, List.foldl_nil, addBase,
      if_neg (by simpa using fresh)]

/-- A row becomes one of alternatives with the first of them. -/
theorem foldl_addEnumValue_flags (row : Row) {values : List EnumValue}
    (distinct : (values.map (·.name)).Nodup) :
    values.foldl addEnumValue { row with enumValues := [] } =
      { row with
        enumValues := values
        flags := if values.isEmpty then row.flags else { row.flags with isEnum := true } } := by
  induction values using List.reverseRecOn with
  | nil => rfl
  | append_singleton values value ih =>
    obtain ⟨before, fresh⟩ := nodup_push distinct
    rw [List.foldl_append, ih before, List.foldl_cons, List.foldl_nil, addEnumValue,
      if_neg (by simpa using fresh)]
    cases values <;> simp

theorem foldl_addEnumValue (row : Row) {values : List EnumValue}
    (distinct : (values.map (·.name)).Nodup) (flagged : values ≠ [] → row.flags.isEnum = true) :
    values.foldl addEnumValue { row with enumValues := [] } =
      { row with enumValues := values } := by
  have same : (if values.isEmpty then row.flags else { row.flags with isEnum := true }) =
      row.flags := by
    split
    · rfl
    · rename_i some
      rw [← flagged (by simpa using some)]
  rw [foldl_addEnumValue_flags row distinct, same]

/-- A row without its members. -/
def bare (row : Row) : Row :=
  { name := row.name, typeHash := row.typeHash, owner := row.owner, size := row.size
    align := row.align, flags := row.flags }

/-- The row that is built of those members of a row that an image carries. -/
def recalled (row : Row) : Row :=
  let built := row.constructors.foldl addConstructor
    (row.methods.foldl addMethod (row.fields.foldl addField row.bare))
  { built with attributes := row.attributes, published := true }

/-- The row that is built of all members of a row, first those that an image carries. -/
def rebuilt (row : Row) : Row :=
  row.enumValues.foldl addEnumValue (row.bases.foldl addBase
    (row.properties.foldl addProperty row.recalled))

/-- A published row is built of its members again. -/
theorem rebuilt_eq (sound : row.Sound) (composed : row.Composed)
    (published : row.published = true) : row.rebuilt = row := by
  -- The row after each kind of members.
  let r₁ : Row := { row.bare with fields := row.fields, fieldIndex := row.fieldIndex }
  let r₂ : Row := { r₁ with methods := row.methods, methodIndex := row.methodIndex }
  let r₃ : Row := { r₂ with
    constructors := row.constructors, attributes := row.attributes, published := true }
  let r₄ : Row := { r₃ with properties := row.properties, propertyIndex := row.propertyIndex }
  let r₅ : Row := { r₄ with bases := row.bases }
  have fields : row.fields.foldl addField row.bare = r₁ := by
    rw [show r₁ = { row.bare with fields := row.fields, fieldIndex := row.fieldIndex } from rfl,
      composed.fields]
    exact foldl_addField row.bare sound.fields.nodup
  have methods : row.methods.foldl addMethod r₁ = r₂ := by
    rw [show r₂ = { r₁ with methods := row.methods, methodIndex := row.methodIndex } from rfl,
      composed.methods]
    exact foldl_addMethod r₁ sound.signatures
  have constructors : row.constructors.foldl addConstructor r₂ =
      { r₂ with constructors := row.constructors } :=
    foldl_addConstructor r₂ sound.constructors sound.defaultFlag
  have properties : row.properties.foldl addProperty r₃ = r₄ := by
    rw [show r₄ = { r₃ with properties := row.properties, propertyIndex := row.propertyIndex }
      from rfl, composed.properties]
    exact foldl_addProperty r₃ sound.properties.nodup
  have bases : row.bases.foldl addBase r₄ = r₅ := foldl_addBase r₄ composed.bases
  have values : row.enumValues.foldl addEnumValue r₅ = { r₅ with enumValues := row.enumValues } :=
    foldl_addEnumValue r₅ sound.enumValues composed.enumFlag
  calc row.rebuilt
    _ = row.enumValues.foldl addEnumValue (row.bases.foldl addBase
        (row.properties.foldl addProperty r₃)) := by
          rw [rebuilt, recalled, fields, methods, constructors]
    _ = { r₅ with enumValues := row.enumValues } := by rw [properties, bases, values]
    _ = { row with published := true } := rfl
    _ = row := by rw [← published]

end Row

namespace Image

theorem yields_composed (type : ReadType) : Yields Row.Composed type := by
  have built : ∀ names owner, (buildRow names type owner).1.Composed := by
    intro names owner
    have members : (buildMembers names type owner).1.Composed := by
      refine buildMembers_induction (P := fun d => d.1.Composed) ?_ ?_ ?_ ?_
      · exact Row.skeleton_composed _ _ _ _ _ _
      · exact fun d h f _ => Row.addField_composed h _
      · exact fun d h m _ => Row.addMethod_composed h _
      · exact fun d h c _ => Row.addConstructor_composed h _
    rw [buildRow_eq]
    exact { members with }
  refine ⟨built, fun names owner old _ _ => ?_⟩
  refine carryOver_induction (P := fun d => d.1.Composed) (built names owner) old ?_ ?_ ?_
  · exact fun d h p _ => Row.addProperty_composed h _
  · exact fun d h b _ => Row.addBase_composed h b
  · exact fun d h e => Row.addEnumValue_composed h _

end Image

namespace Catalog

variable {u : Universe} {c : Catalog}

theorem Reachable.composed (reachable : Reachable u c) (n : Nat) :
    ∀ index row, (c.registry n).types.rowAt? index = some row → row.Composed := by
  induction reachable with
  | refl => exact fun index row present => by simp [registry] at present
  | tail before step ih =>
    rcases step.changed n with same | ⟨op, _, _, after⟩
    · exact same ▸ ih
    · rw [after]
      refine Operation.forall_rows (Reachable.allConsistent before n) ih ?_
      cases op with
      | skeleton u type owner => exact Row.skeleton_composed _ _ _ _ _ _
      | commit h draft => exact fun old _ composed => Row.publish_composed composed draft
      | merge exports bytes options =>
        exact fun types _ type _ _ => .of_yields (Image.yields_composed type) _ _
      | _ => trivial

end Catalog

end TypeCatalog
