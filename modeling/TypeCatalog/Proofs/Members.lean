import Mathlib.Data.List.Nodup
import TypeCatalog.Row

/-!
The members of a row. In a sound row the indexes by name tell exactly where the members are, no
member repeats an earlier one, and callables take as many arguments as they declare. Members are
only ever added at the end, so a row that has grown shows all it showed before.
-/
namespace TypeCatalog

namespace Index

variable {κ : Type} [DecidableEq κ]

theorem mem_values_insert {ν : Type} {m : Index κ ν} {key : κ} {value v : ν}
    (h : v ∈ (m.insert key value).values) : v = value ∨ v ∈ m.values := by
  simp only [values, insert, erase, List.map_cons, List.mem_cons, List.mem_map] at h
  rcases h with rfl | ⟨entry, kept, rfl⟩
  · exact .inl rfl
  · exact .inr (List.mem_map_of_mem (List.mem_filter.mp kept).1)

theorem mem_values_of_find? {ν : Type} {m : Index κ ν} {key : κ} {value : ν}
    (found : m.find? key = some value) : value ∈ m.values := by
  obtain ⟨entry, here, rfl⟩ := Option.map_eq_some_iff.mp found
  exact List.mem_map_of_mem (List.mem_of_find?_eq_some here)

/-- An index that tells where each key of a list without repetitions is. -/
structure Numbers (m : Index κ Nat) (keys : List κ) : Prop where
  find?_iff : ∀ key position, m.find? key = some position ↔ keys[position]? = some key
  within : ∀ position ∈ m.values, position < keys.length

theorem Numbers.find?_isSome {m : Index κ Nat} {keys : List κ} (numbers : m.Numbers keys)
    {key : κ} : (m.find? key).isSome ↔ key ∈ keys := by
  simp only [Option.isSome_iff_exists, numbers.find?_iff, List.mem_iff_getElem?]

theorem empty_numbers : Numbers (empty : Index κ Nat) [] :=
  ⟨by simp, by simp [values, empty]⟩

theorem Numbers.push {m : Index κ Nat} {keys : List κ} (numbers : m.Numbers keys) {key : κ}
    (fresh : m.find? key = none) : (m.insert key keys.length).Numbers (keys ++ [key]) := by
  constructor
  · intro other position
    rw [find?_insert, List.getElem?_append]
    have old := numbers.find?_iff other position
    by_cases same : other = key
    · subst same
      have nowhere : keys[position]? ≠ some other := fun h => by simp [old.mpr h] at fresh
      by_cases less : position < keys.length
      · rw [if_pos less]
        simp [nowhere, Nat.ne_of_gt less]
      · by_cases last : position = keys.length
        · simp [last]
        · have after : position - keys.length ≠ 0 := by omega
          simp [less, after, Ne.symm last]
    · rw [if_neg same, old]
      by_cases less : position < keys.length
      · simp [less]
      · rw [if_neg less, List.getElem?_eq_none (Nat.le_of_not_lt less)]
        cases position - keys.length <;> simp [Ne.symm same]
  · intro position listed
    rw [List.length_append, List.length_singleton]
    rcases mem_values_insert listed with rfl | old
    · exact Nat.lt_succ_self _
    · exact Nat.lt_succ_of_lt (numbers.within position old)

theorem Numbers.nodup {m : Index κ Nat} {keys : List κ} (numbers : m.Numbers keys) :
    keys.Nodup := by
  rw [List.nodup_iff_getElem?_ne_getElem?]
  intro i j less within same
  have key := List.getElem?_eq_getElem within
  have first := (numbers.find?_iff _ i).mpr (same.trans key)
  have second := (numbers.find?_iff _ j).mpr key
  exact Nat.ne_of_lt less (Option.some.inj (first.symm.trans second))

/-- An index that tells all places of each key of a list, in ascending order. -/
structure Groups (m : Index κ (List Nat)) (keys : List κ) : Prop where
  find?_eq : ∀ key, (m.find? key).getD [] =
    (List.range keys.length).filter fun position => keys[position]? = some key
  within : ∀ position ∈ m.values.flatten, position < keys.length

theorem empty_groups : Groups (empty : Index κ (List Nat)) [] :=
  ⟨by simp, by simp [values, empty]⟩

theorem Groups.push {m : Index κ (List Nat)} {keys : List κ} (groups : m.Groups keys) (key : κ) :
    (m.update key [] (· ++ [keys.length])).Groups (keys ++ [key]) := by
  constructor
  · intro other
    have before : ∀ position ∈ List.range keys.length,
        decide ((keys ++ [key])[position]? = some other) =
          decide (keys[position]? = some other) := by
      intro position less
      rw [List.getElem?_append_left (List.mem_range.mp less)]
    rw [List.length_append, List.length_singleton, List.range_succ, List.filter_append,
      List.filter_congr before, ← groups.find?_eq, update, find?_insert]
    by_cases same : other = key
    · simp [same]
    · simp [same, Ne.symm same]
  · intro position listed
    rw [List.length_append, List.length_singleton]
    obtain ⟨group, member, inside⟩ := List.mem_flatten.mp listed
    have old : position ∈ m.values.flatten ∨ position = keys.length := by
      rcases mem_values_insert member with rfl | kept
      · rcases List.mem_append.mp inside with earlier | last
        · cases found : m.find? key with
          | none => simp [found] at earlier
          | some positions =>
            rw [found, Option.getD_some] at earlier
            exact .inl (List.mem_flatten.mpr ⟨positions, mem_values_of_find? found, earlier⟩)
        · exact .inr (List.mem_singleton.mp last)
      · exact .inl (List.mem_flatten.mpr ⟨group, kept, inside⟩)
    rcases old with old | rfl
    · exact Nat.lt_succ_of_lt (groups.within position old)
    · exact Nat.lt_succ_self _

end Index

namespace Row

/-- The names of a row: its own, and those of its members. -/
def names (row : Row) : List Name :=
  row.name :: (row.fields.map (·.name) ++ row.properties.map (·.name) ++
    row.methods.map (·.name) ++ row.enumValues.map (·.name))

theorem name_of_field {row : Row} {f : Field} (listed : f ∈ row.fields) : f.name ∈ row.names := by
  simp only [names, List.mem_cons, List.mem_append, List.mem_map]
  exact .inr (.inl (.inl (.inl ⟨f, listed, rfl⟩)))

theorem name_of_property {row : Row} {p : Property} (listed : p ∈ row.properties) :
    p.name ∈ row.names := by
  simp only [names, List.mem_cons, List.mem_append, List.mem_map]
  exact .inr (.inl (.inl (.inr ⟨p, listed, rfl⟩)))

theorem name_of_method {row : Row} {m : Method} (listed : m ∈ row.methods) :
    m.name ∈ row.names := by
  simp only [names, List.mem_cons, List.mem_append, List.mem_map]
  exact .inr (.inl (.inr ⟨m, listed, rfl⟩))

theorem name_of_enumValue {row : Row} {e : EnumValue} (listed : e ∈ row.enumValues) :
    e.name ∈ row.names := by
  simp only [names, List.mem_cons, List.mem_append, List.mem_map]
  exact .inr (.inr ⟨e, listed, rfl⟩)

structure Sound (row : Row) : Prop where
  fields : row.fieldIndex.Numbers (row.fields.map (·.name.id))
  properties : row.propertyIndex.Numbers (row.properties.map (·.name.id))
  methods : row.methodIndex.Groups (row.methods.map (·.name.id))
  signatures : (row.methods.map (·.signature)).Nodup
  constructors : (row.constructors.map (·.signature)).Nodup
  enumValues : (row.enumValues.map (·.name)).Nodup
  methodArity : ∀ m ∈ row.methods, m.callable.arity = m.params.length
  constructorArity : ∀ c ∈ row.constructors, c.callable.arity = c.params.length
  defaultFlag : ∀ c ∈ row.constructors, c.params = [] → row.flags.isDefaultConstructible = true

/-- The same type with at least the same members, each in its place. -/
structure Grows (old new : Row) : Prop where
  typeHash : new.typeHash = old.typeHash
  owner : new.owner = old.owner
  size : new.size = old.size
  align : new.align = old.align
  fields : old.fields <+: new.fields
  properties : old.properties <+: new.properties
  methods : old.methods <+: new.methods
  constructors : old.constructors <+: new.constructors
  bases : old.bases <+: new.bases
  enumValues : old.enumValues <+: new.enumValues
  published : old.published = true → new.published = true

theorem Grows.refl (row : Row) : Grows row row :=
  ⟨rfl, rfl, rfl, rfl, List.prefix_rfl, List.prefix_rfl, List.prefix_rfl, List.prefix_rfl,
    List.prefix_rfl, List.prefix_rfl, id⟩

theorem Grows.trans {a b c : Row} (first : Grows a b) (second : Grows b c) : Grows a c where
  typeHash := second.typeHash.trans first.typeHash
  owner := second.owner.trans first.owner
  size := second.size.trans first.size
  align := second.align.trans first.align
  fields := first.fields.trans second.fields
  properties := first.properties.trans second.properties
  methods := first.methods.trans second.methods
  constructors := first.constructors.trans second.constructors
  bases := first.bases.trans second.bases
  enumValues := first.enumValues.trans second.enumValues
  published := second.published ∘ first.published

/-- A row without members. -/
theorem skeleton_sound (name : Name) (typeHash : TypeHash) (owner : ModuleId) (size align : UInt64)
    (flags : TypeFlags) : Sound { name, typeHash, owner, size, align, flags } where
  fields := Index.empty_numbers
  properties := Index.empty_numbers
  methods := Index.empty_groups
  signatures := List.nodup_nil
  constructors := List.nodup_nil
  enumValues := List.nodup_nil
  methodArity := by simp
  constructorArity := by simp
  defaultFlag := by simp

theorem addField_sound {row : Row} (sound : row.Sound) (field : Field) :
    (row.addField field).Sound := by
  unfold addField
  split
  · exact sound
  · rename_i fresh
    have pushed := sound.fields.push fresh
    rw [List.length_map] at pushed
    exact { sound with fields := by simpa using pushed }

theorem addField_grows (row : Row) (field : Field) : Grows row (row.addField field) := by
  unfold addField
  split
  · exact .refl row
  · exact { Grows.refl row with fields := List.prefix_append _ _ }

theorem addField_names {Q : Name → Prop} {row : Row} (all : ∀ n ∈ row.names, Q n) {field : Field}
    (added : Q field.name) : ∀ n ∈ (row.addField field).names, Q n := by
  unfold addField
  split
  · exact all
  · intro n listed
    by_cases same : n = field.name
    · exact same ▸ added
    · exact all n (by simpa [names, same] using listed)

theorem addProperty_sound {row : Row} (sound : row.Sound) (property : Property) :
    (row.addProperty property).Sound := by
  unfold addProperty
  split
  · exact sound
  · rename_i fresh
    have pushed := sound.properties.push fresh
    rw [List.length_map] at pushed
    exact { sound with properties := by simpa using pushed }

theorem addProperty_grows (row : Row) (property : Property) :
    Grows row (row.addProperty property) := by
  unfold addProperty
  split
  · exact .refl row
  · exact { Grows.refl row with properties := List.prefix_append _ _ }

theorem addProperty_names {Q : Name → Prop} {row : Row} (all : ∀ n ∈ row.names, Q n)
    {property : Property} (added : Q property.name) :
    ∀ n ∈ (row.addProperty property).names, Q n := by
  unfold addProperty
  split
  · exact all
  · intro n listed
    by_cases same : n = property.name
    · exact same ▸ added
    · exact all n (by simpa [names, same] using listed)

theorem addMethod_sound {row : Row} (sound : row.Sound) {method : Method}
    (arity : method.callable.arity = method.params.length) : (row.addMethod method).Sound := by
  unfold addMethod
  split
  · exact sound
  · rename_i fresh
    simp only [List.any_eq_true, decide_eq_true_eq, not_exists, not_and] at fresh
    have pushed := sound.methods.push method.name.id
    rw [List.length_map] at pushed
    refine { sound with
      methods := by simpa using pushed
      signatures := ?_
      methodArity := ?_ }
    · rw [List.map_append, List.nodup_append]
      refine ⟨sound.signatures, List.nodup_singleton _, ?_⟩
      simpa using fresh
    · intro m listed
      rcases List.mem_append.mp listed with old | new
      · exact sound.methodArity m old
      · exact List.mem_singleton.mp new ▸ arity

theorem addMethod_grows (row : Row) (method : Method) : Grows row (row.addMethod method) := by
  unfold addMethod
  split
  · exact .refl row
  · exact { Grows.refl row with methods := List.prefix_append _ _ }

theorem addMethod_names {Q : Name → Prop} {row : Row} (all : ∀ n ∈ row.names, Q n)
    {method : Method} (added : Q method.name) : ∀ n ∈ (row.addMethod method).names, Q n := by
  unfold addMethod
  split
  · exact all
  · intro n listed
    by_cases same : n = method.name
    · exact same ▸ added
    · exact all n (by simpa [names, same] using listed)

theorem addConstructor_sound {row : Row} (sound : row.Sound) {constructor : Constructor}
    (arity : constructor.callable.arity = constructor.params.length) :
    (row.addConstructor constructor).Sound := by
  unfold addConstructor
  split
  · exact sound
  · rename_i fresh
    simp only [List.any_eq_true, decide_eq_true_eq, not_exists, not_and] at fresh
    refine { sound with
      constructors := ?_
      constructorArity := ?_
      defaultFlag := ?_ }
    · rw [List.map_append, List.nodup_append]
      refine ⟨sound.constructors, List.nodup_singleton _, ?_⟩
      simpa using fresh
    · intro c listed
      rcases List.mem_append.mp listed with old | new
      · exact sound.constructorArity c old
      · exact List.mem_singleton.mp new ▸ arity
    · intro c listed none
      rcases List.mem_append.mp listed with old | new
      · have set := sound.defaultFlag c old none
        dsimp only
        split <;> simp [set]
      · rw [List.mem_singleton.mp new] at none
        simp [none]

theorem addConstructor_grows (row : Row) (constructor : Constructor) :
    Grows row (row.addConstructor constructor) := by
  unfold addConstructor
  split
  · exact .refl row
  · exact { Grows.refl row with constructors := List.prefix_append _ _ }

@[simp] theorem names_addConstructor (row : Row) (constructor : Constructor) :
    (row.addConstructor constructor).names = row.names := by
  unfold addConstructor
  split <;> rfl

theorem addBase_sound {row : Row} (sound : row.Sound) (base : BaseLink) :
    (row.addBase base).Sound := by
  unfold addBase
  split
  · exact sound
  · exact { sound with }

theorem addBase_grows (row : Row) (base : BaseLink) : Grows row (row.addBase base) := by
  unfold addBase
  split
  · exact .refl row
  · exact { Grows.refl row with bases := List.prefix_append _ _ }

@[simp] theorem names_addBase (row : Row) (base : BaseLink) :
    (row.addBase base).names = row.names := by
  unfold addBase
  split <;> rfl

theorem addEnumValue_sound {row : Row} (sound : row.Sound) (value : EnumValue) :
    (row.addEnumValue value).Sound := by
  unfold addEnumValue
  split
  · exact sound
  · rename_i fresh
    simp only [List.any_eq_true, decide_eq_true_eq, not_exists, not_and] at fresh
    refine { sound with enumValues := ?_ }
    rw [List.map_append, List.nodup_append]
    refine ⟨sound.enumValues, List.nodup_singleton _, ?_⟩
    simpa using fresh

theorem addEnumValue_grows (row : Row) (value : EnumValue) :
    Grows row (row.addEnumValue value) := by
  unfold addEnumValue
  split
  · exact .refl row
  · exact { Grows.refl row with enumValues := List.prefix_append _ _ }

theorem addEnumValue_names {Q : Name → Prop} {row : Row} (all : ∀ n ∈ row.names, Q n)
    {value : EnumValue} (added : Q value.name) : ∀ n ∈ (row.addEnumValue value).names, Q n := by
  unfold addEnumValue
  split
  · exact all
  · intro n listed
    by_cases same : n = value.name
    · exact same ▸ added
    · exact all n (by simpa [names, same] using listed)

/-- The row under the name that a draft asks for. -/
def renamed (row : Row) (draft : Draft) : Name :=
  match draft.name with
  | some name => if name.id = row.name.id then row.name else name
  | none => row.name

/-- What holds of a row and survives each member of a draft, and the end of the pass, holds of the
published row. -/
theorem publish_induction {P : Row → Prop} {row : Row} {draft : Draft} (start : P row)
    (field : ∀ r, P r → ∀ f ∈ draft.fields, P (r.addField f))
    (property : ∀ r, P r → ∀ p ∈ draft.properties, P (r.addProperty p))
    (method : ∀ r, P r → ∀ m ∈ draft.methods, P (r.addMethod m))
    (constructor : ∀ r, P r → ∀ c ∈ draft.constructors, P (r.addConstructor c))
    (base : ∀ r, P r → ∀ b ∈ draft.bases, P (r.addBase b))
    (enumValue : ∀ r, P r → ∀ e ∈ draft.enumValues, P (r.addEnumValue e))
    (finish : ∀ r, P r → P { r with
      attributes := r.attributes ++ draft.attributes
      name := r.renamed draft
      published := true }) :
    P (row.publish draft) :=
  finish _ (List.foldlRecOn draft.enumValues addEnumValue
    (List.foldlRecOn draft.bases addBase
      (List.foldlRecOn draft.constructors addConstructor
        (List.foldlRecOn draft.methods addMethod
          (List.foldlRecOn draft.properties addProperty
            (List.foldlRecOn draft.fields addField start field) property) method) constructor)
      base) enumValue)

theorem publish_sound {row : Row} (sound : row.Sound) {draft : Draft}
    (methods : ∀ m ∈ draft.methods, m.callable.arity = m.params.length)
    (constructors : ∀ c ∈ draft.constructors, c.callable.arity = c.params.length) :
    (row.publish draft).Sound := by
  refine publish_induction sound ?_ ?_ ?_ ?_ ?_ ?_ ?_
  · exact fun r h f _ => addField_sound h f
  · exact fun r h p _ => addProperty_sound h p
  · exact fun r h m listed => addMethod_sound h (methods m listed)
  · exact fun r h c listed => addConstructor_sound h (constructors c listed)
  · exact fun r h b _ => addBase_sound h b
  · exact fun r h e _ => addEnumValue_sound h e
  · exact fun r h => { h with }

theorem publish_grows (row : Row) (draft : Draft) : Grows row (row.publish draft) := by
  refine publish_induction (.refl row) ?_ ?_ ?_ ?_ ?_ ?_ ?_
  · exact fun r h f _ => h.trans (addField_grows r f)
  · exact fun r h p _ => h.trans (addProperty_grows r p)
  · exact fun r h m _ => h.trans (addMethod_grows r m)
  · exact fun r h c _ => h.trans (addConstructor_grows r c)
  · exact fun r h b _ => h.trans (addBase_grows r b)
  · exact fun r h e _ => h.trans (addEnumValue_grows r e)
  · exact fun r h => { h with published := fun _ => rfl }

end Row

def Draft.names (draft : Draft) : List Name :=
  draft.name.toList ++ draft.fields.map (·.name) ++ draft.properties.map (·.name) ++
    draft.methods.map (·.name) ++ draft.enumValues.map (·.name)

namespace Row

theorem publish_names {Q : Name → Prop} {row : Row} (all : ∀ n ∈ row.names, Q n) {draft : Draft}
    (drafted : ∀ n ∈ draft.names, Q n) : ∀ n ∈ (row.publish draft).names, Q n := by
  have given : ∀ {α : Type} {members : List α} {f : α → Name},
      (∀ n ∈ members.map f, n ∈ draft.names) → ∀ x ∈ members, Q (f x) :=
    fun listed x member => drafted _ (listed _ (List.mem_map_of_mem member))
  refine publish_induction (P := fun r => ∀ n ∈ r.names, Q n) all ?_ ?_ ?_ ?_ ?_ ?_ ?_
  · exact fun r h f member => addField_names h
      (given (f := Field.name) (fun n listed => by simp [Draft.names, listed]) f member)
  · exact fun r h p member => addProperty_names h
      (given (f := Property.name) (fun n listed => by simp [Draft.names, listed]) p member)
  · exact fun r h m member => addMethod_names h
      (given (f := Method.name) (fun n listed => by simp [Draft.names, listed]) m member)
  · exact fun r h c _ => by simpa using h
  · exact fun r h b _ => by simpa using h
  · exact fun r h e member => addEnumValue_names h
      (given (f := EnumValue.name) (fun n listed => by simp [Draft.names, listed]) e member)
  · intro r h n listed
    rcases List.mem_cons.mp listed with own | member
    · rw [own]
      unfold renamed
      cases asked : draft.name with
      | none => exact h _ List.mem_cons_self
      | some name =>
        dsimp only
        split
        · exact h _ List.mem_cons_self
        · exact drafted name (by simp [Draft.names, asked])
    · exact h n (List.mem_cons_of_mem _ member)

end Row

end TypeCatalog
