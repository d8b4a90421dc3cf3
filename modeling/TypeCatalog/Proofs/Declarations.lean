import TypeCatalog.Proofs.Plays
import TypeCatalog.Proofs.Interner
import TypeCatalog.Proofs.Members
import TypeCatalog.Script.Run

/-!
From declarations to members. Running a description puts each declaration that it runs into the
draft, in full; publishing the draft puts the first of its members of each name, signature or base
into the row. So a row that has been described holds what its description declares.
-/
namespace TypeCatalog

section

variable {α κ ρ : Type} [DecidableEq κ] {key : α → κ} {given held : List α}

/-- Whether the first item of each key is among those that are held. -/
def HoldsFirst (key : α → κ) (given held : List α) : Prop :=
  ∀ a ∈ given, ∃ b ∈ held, given.find? (key · = key a) = some b

theorem HoldsFirst.mono {more : List α} (first : HoldsFirst key given held) (sub : held ⊆ more) :
    HoldsFirst key given more := fun a listed => by
  obtain ⟨b, there, found⟩ := first a listed
  exact ⟨b, sub there, found⟩

/-- A key may be told by anything that tells the given items apart in the same way. -/
theorem HoldsFirst.congr {κ' : Type} [DecidableEq κ'] {key' : α → κ'}
    (first : HoldsFirst key given held)
    (same : ∀ a ∈ given, ∀ b ∈ given, key a = key b ↔ key' a = key' b) :
    HoldsFirst key' given held := by
  intro a listed
  obtain ⟨b, there, found⟩ := first a listed
  refine ⟨b, there, ?_⟩
  rw [← found, ← List.head?_filter, ← List.head?_filter]
  refine congrArg List.head? (List.filter_congr fun b member => ?_)
  rw [decide_eq_decide]
  exact (same b member a listed).symm

/-- An item that repeats a key is no first one. -/
theorem HoldsFirst.repeated (first : HoldsFirst key given held) {a b : α} (listed : b ∈ given)
    (same : key b = key a) : HoldsFirst key (given ++ [a]) held := by
  intro x member
  have earlier : ∃ y ∈ given, key y = key x := by
    rcases List.mem_append.mp member with old | new
    · exact ⟨x, old, rfl⟩
    · exact ⟨b, listed, same.trans (congrArg key (List.mem_singleton.mp new).symm)⟩
  obtain ⟨y, old, equal⟩ := earlier
  obtain ⟨z, there, found⟩ := first y old
  rw [equal] at found
  exact ⟨z, there, by rw [List.find?_append, found]; rfl⟩

theorem HoldsFirst.fresh (first : HoldsFirst key given held) {a : α}
    (new : ∀ b ∈ held, key b ≠ key a) : HoldsFirst key (given ++ [a]) (held ++ [a]) := by
  intro x member
  rcases List.mem_append.mp member with old | last
  · obtain ⟨z, there, found⟩ := first x old
    exact ⟨z, List.mem_append_left _ there, by rw [List.find?_append, found]; rfl⟩
  · rw [List.mem_singleton.mp last]
    have absent : given.find? (key · = key a) = none := by
      rw [List.find?_eq_none]
      intro y old same
      obtain ⟨z, there, found⟩ := first y old
      have equal : key z = key y := by simpa using List.find?_some found
      exact new z there (equal.trans (by simpa using same))
    exact ⟨a, by simp, by rw [List.find?_append, absent]; simp⟩

/-- A list to which an item has been added, unless its key was there. -/
def AddsNew (key : α → κ) (before : List α) (a : α) (after : List α) : Prop :=
  ((∃ b ∈ before, key b = key a) ∧ after = before) ∨
    ((∀ b ∈ before, key b ≠ key a) ∧ after = before ++ [a])

theorem addsNew_of_any {before after : List α} {a : α}
    (added : after = if before.any (key · = key a) then before else before ++ [a]) :
    AddsNew key before a after := by
  by_cases repeated : before.any (key · = key a) = true
  · rw [if_pos repeated] at added
    exact .inl ⟨by simpa using repeated, added⟩
  · rw [if_neg repeated] at added
    exact .inr ⟨by simpa using repeated, added⟩

/-- Adding items one after another, each unless its key is there. -/
theorem holdsFirst_foldl {good : ρ → Prop} {add : ρ → α → ρ} {view : ρ → List α}
    (one : ∀ r a, good r → good (add r a) ∧ AddsNew key (view r) a (view (add r a)))
    {r : ρ} (start : good r) (empty : view r = []) (items : List α) :
    HoldsFirst key items (view (items.foldl add r)) := by
  have all : good (items.foldl add r) ∧ view (items.foldl add r) ⊆ items ∧
      HoldsFirst key items (view (items.foldl add r)) := by
    induction items using List.reverseRecOn with
    | nil => exact ⟨start, by simp [empty], by simp [HoldsFirst]⟩
    | append_singleton items a ih =>
      obtain ⟨fine, sub, first⟩ := ih
      rw [List.foldl_append, List.foldl_cons, List.foldl_nil]
      obtain ⟨finer, ⟨⟨b, there, same⟩, kept⟩ | ⟨new, added⟩⟩ := one _ a fine
      · rw [kept]
        exact ⟨finer, List.Subset.trans sub (List.subset_append_left _ _),
          first.repeated (sub there) same⟩
      · rw [added]
        exact ⟨finer, List.append_subset.mpr ⟨List.Subset.trans sub (List.subset_append_left _ _),
          List.subset_append_right _ _⟩, first.fresh new⟩
  exact all.2.2

end

theorem Draft.name_of_field (draft : Draft) {f : Field} (listed : f ∈ draft.fields) :
    f.name ∈ draft.names := by
  simp only [Draft.names, List.mem_append, List.mem_map]
  exact .inl (.inl (.inl (.inr ⟨f, listed, rfl⟩)))

theorem Draft.name_of_property (draft : Draft) {p : Property} (listed : p ∈ draft.properties) :
    p.name ∈ draft.names := by
  simp only [Draft.names, List.mem_append, List.mem_map]
  exact .inl (.inl (.inr ⟨p, listed, rfl⟩))

namespace Row

/-- A row without members. -/
structure Bare (row : Row) : Prop where
  fields : row.fields = []
  properties : row.properties = []
  methods : row.methods = []
  constructors : row.constructors = []
  bases : row.bases = []
  enumValues : row.enumValues = []

/-- Whether a row holds all that a draft adds: of the members that repeat a name, a signature or a
base it holds the first. -/
structure HoldsAll (row : Row) (draft : Draft) : Prop where
  fields : HoldsFirst Field.name draft.fields row.fields
  properties : HoldsFirst Property.name draft.properties row.properties
  methods : HoldsFirst Method.signature draft.methods row.methods
  constructors : HoldsFirst Constructor.signature draft.constructors row.constructors
  bases : HoldsFirst BaseLink.base draft.bases row.bases
  enumValues : HoldsFirst EnumValue.name draft.enumValues row.enumValues
  attributes : draft.attributes ⊆ row.attributes

theorem addField_first {row : Row} (sound : row.Sound) (field : Field) :
    AddsNew (·.name.id) row.fields field (row.addField field).fields := by
  have listed : (row.fieldIndex.find? field.name.id).isSome = true ↔ _ := sound.fields.find?_isSome
  simp only [List.mem_map] at listed
  unfold addField fieldPosition?
  cases found : row.fieldIndex.find? field.name.id with
  | some position => exact .inl ⟨listed.mp (by rw [found]; rfl), rfl⟩
  | none =>
    refine .inr ⟨fun f member same => ?_, rfl⟩
    have there := listed.mpr ⟨f, member, same⟩
    rw [found] at there
    contradiction

theorem addProperty_first {row : Row} (sound : row.Sound) (property : Property) :
    AddsNew (·.name.id) row.properties property (row.addProperty property).properties := by
  have listed : (row.propertyIndex.find? property.name.id).isSome = true ↔ _ :=
    sound.properties.find?_isSome
  simp only [List.mem_map] at listed
  unfold addProperty propertyPosition?
  cases found : row.propertyIndex.find? property.name.id with
  | some position => exact .inl ⟨listed.mp (by rw [found]; rfl), rfl⟩
  | none =>
    refine .inr ⟨fun p member same => ?_, rfl⟩
    have there := listed.mpr ⟨p, member, same⟩
    rw [found] at there
    contradiction

theorem addMethod_first (row : Row) (method : Method) :
    AddsNew Method.signature row.methods method (row.addMethod method).methods :=
  addsNew_of_any (by unfold addMethod; split <;> rfl)

theorem addConstructor_first (row : Row) (constructor : Constructor) :
    AddsNew Constructor.signature row.constructors constructor
      (row.addConstructor constructor).constructors :=
  addsNew_of_any (by unfold addConstructor; split <;> rfl)

theorem addBase_first (row : Row) (base : BaseLink) :
    AddsNew BaseLink.base row.bases base (row.addBase base).bases :=
  addsNew_of_any (by unfold addBase; split <;> rfl)

theorem addEnumValue_first (row : Row) (value : EnumValue) :
    AddsNew EnumValue.name row.enumValues value (row.addEnumValue value).enumValues :=
  addsNew_of_any (by unfold addEnumValue; split <;> rfl)

-- A kind of members is added to a row that has none of that kind yet; the kinds whose turn comes
-- later are left as they are.
theorem addFields_first {row : Row} (sound : row.Sound) (empty : row.fields = [])
    (fields : List Field) :
    HoldsFirst (·.name.id) fields (fields.foldl addField row).fields :=
  holdsFirst_foldl (fun r f (fine : r.Sound) => ⟨addField_sound fine f, addField_first fine f⟩)
    sound empty fields

theorem addFields_others (row : Row) (fields : List Field) :
    let after := fields.foldl addField row
    after.properties = row.properties ∧ after.methods = row.methods ∧
      after.constructors = row.constructors ∧ after.bases = row.bases ∧
      after.enumValues = row.enumValues := by
  refine List.foldlRecOn fields addField (motive := fun r => r.properties = row.properties ∧
    r.methods = row.methods ∧ r.constructors = row.constructors ∧ r.bases = row.bases ∧
    r.enumValues = row.enumValues) ⟨rfl, rfl, rfl, rfl, rfl⟩ fun r same f _ => ?_
  unfold addField
  split <;> exact same

theorem addProperties_first {row : Row} (sound : row.Sound) (empty : row.properties = [])
    (properties : List Property) :
    HoldsFirst (·.name.id) properties (properties.foldl addProperty row).properties :=
  holdsFirst_foldl
    (fun r p (fine : r.Sound) => ⟨addProperty_sound fine p, addProperty_first fine p⟩)
    sound empty properties

theorem addProperties_others (row : Row) (properties : List Property) :
    let after := properties.foldl addProperty row
    after.methods = row.methods ∧ after.constructors = row.constructors ∧
      after.bases = row.bases ∧ after.enumValues = row.enumValues := by
  refine List.foldlRecOn properties addProperty (motive := fun r => r.methods = row.methods ∧
    r.constructors = row.constructors ∧ r.bases = row.bases ∧ r.enumValues = row.enumValues)
    ⟨rfl, rfl, rfl, rfl⟩ fun r same p _ => ?_
  unfold addProperty
  split <;> exact same

theorem addMethods_first {row : Row} (empty : row.methods = []) (methods : List Method) :
    HoldsFirst Method.signature methods (methods.foldl addMethod row).methods :=
  holdsFirst_foldl (fun r m (_ : True) => ⟨trivial, addMethod_first r m⟩) trivial empty methods

theorem addMethods_others (row : Row) (methods : List Method) :
    let after := methods.foldl addMethod row
    after.constructors = row.constructors ∧ after.bases = row.bases ∧
      after.enumValues = row.enumValues := by
  refine List.foldlRecOn methods addMethod (motive := fun r => r.constructors = row.constructors ∧
    r.bases = row.bases ∧ r.enumValues = row.enumValues) ⟨rfl, rfl, rfl⟩ fun r same m _ => ?_
  unfold addMethod
  split <;> exact same

theorem addConstructors_first {row : Row} (empty : row.constructors = [])
    (constructors : List Constructor) :
    HoldsFirst Constructor.signature constructors
      (constructors.foldl addConstructor row).constructors :=
  holdsFirst_foldl (fun r c (_ : True) => ⟨trivial, addConstructor_first r c⟩) trivial empty
    constructors

theorem addConstructors_others (row : Row) (constructors : List Constructor) :
    let after := constructors.foldl addConstructor row
    after.bases = row.bases ∧ after.enumValues = row.enumValues := by
  refine List.foldlRecOn constructors addConstructor (motive := fun r => r.bases = row.bases ∧
    r.enumValues = row.enumValues) ⟨rfl, rfl⟩ fun r same c _ => ?_
  unfold addConstructor
  split <;> exact same

theorem addBases_first {row : Row} (empty : row.bases = []) (bases : List BaseLink) :
    HoldsFirst BaseLink.base bases (bases.foldl addBase row).bases :=
  holdsFirst_foldl (fun r b (_ : True) => ⟨trivial, addBase_first r b⟩) trivial empty bases

theorem addBases_others (row : Row) (bases : List BaseLink) :
    (bases.foldl addBase row).enumValues = row.enumValues := by
  refine List.foldlRecOn bases addBase (motive := fun r => r.enumValues = row.enumValues) rfl
    fun r same b _ => ?_
  unfold addBase
  split <;> exact same

theorem addEnumValues_first {row : Row} (empty : row.enumValues = []) (values : List EnumValue) :
    HoldsFirst EnumValue.name values (values.foldl addEnumValue row).enumValues :=
  holdsFirst_foldl (fun r e (_ : True) => ⟨trivial, addEnumValue_first r e⟩) trivial empty values

/-- Publishing a draft on a row without members. -/
theorem publish_holdsAll {row : Row} (sound : row.Sound) (bare : row.Bare) {draft : Draft}
    (named : ∀ a ∈ draft.names, ∀ b ∈ draft.names, a.id = b.id → a = b) :
    (row.publish draft).HoldsAll draft := by
  -- The row after each kind of members. The rest of the draft is published on top of it.
  let r₁ := draft.fields.foldl addField row
  let r₂ := draft.properties.foldl addProperty r₁
  let r₃ := draft.methods.foldl addMethod r₂
  let r₄ := draft.constructors.foldl addConstructor r₃
  let r₅ := draft.bases.foldl addBase r₄
  let r₆ := draft.enumValues.foldl addEnumValue r₅
  have after₁ : Grows r₁ (row.publish draft) := publish_grows r₁ { draft with fields := [] }
  have after₂ : Grows r₂ (row.publish draft) :=
    publish_grows r₂ { draft with fields := [], properties := [] }
  have after₃ : Grows r₃ (row.publish draft) :=
    publish_grows r₃ { draft with fields := [], properties := [], methods := [] }
  have after₄ : Grows r₄ (row.publish draft) := publish_grows r₄
    { draft with fields := [], properties := [], methods := [], constructors := [] }
  have after₅ : Grows r₅ (row.publish draft) := publish_grows r₅
    { draft with fields := [], properties := [], methods := [], constructors := [], bases := [] }
  obtain ⟨properties₁, methods₁, constructors₁, bases₁, values₁⟩ := addFields_others row draft.fields
  obtain ⟨methods₂, constructors₂, bases₂, values₂⟩ := addProperties_others r₁ draft.properties
  obtain ⟨constructors₃, bases₃, values₃⟩ := addMethods_others r₂ draft.methods
  obtain ⟨bases₄, values₄⟩ := addConstructors_others r₃ draft.constructors
  have values₅ := addBases_others r₄ draft.bases
  have sound₁ : r₁.Sound :=
    List.foldlRecOn draft.fields addField sound fun r sound f _ => addField_sound sound f
  have fields := addFields_first sound bare.fields draft.fields
  have properties := addProperties_first sound₁ (properties₁.trans bare.properties) draft.properties
  have methods := addMethods_first (methods₂.trans (methods₁.trans bare.methods)) draft.methods
  have constructors := addConstructors_first
    (constructors₃.trans (constructors₂.trans (constructors₁.trans bare.constructors)))
    draft.constructors
  have bases := addBases_first
    (bases₄.trans (bases₃.trans (bases₂.trans (bases₁.trans bare.bases)))) draft.bases
  have values := addEnumValues_first
    (values₅.trans (values₄.trans (values₃.trans (values₂.trans (values₁.trans bare.enumValues)))))
    draft.enumValues
  exact {
    fields := (fields.mono after₁.fields.subset).congr fun a first b second =>
      ⟨named _ (draft.name_of_field first) _ (draft.name_of_field second), congrArg Name.id⟩
    properties := (properties.mono after₂.properties.subset).congr fun a first b second =>
      ⟨named _ (draft.name_of_property first) _ (draft.name_of_property second), congrArg Name.id⟩
    methods := methods.mono after₃.methods.subset
    constructors := constructors.mono after₄.constructors.subset
    bases := bases.mono after₅.bases.subset
    enumValues := values
    attributes := List.subset_append_right r₆.attributes draft.attributes }

end Row

open Script

namespace Draft

/-- A draft that goes on from another one. -/
structure Extends (old new : Draft) : Prop where
  fields : old.fields ⊆ new.fields
  properties : old.properties ⊆ new.properties
  methods : old.methods ⊆ new.methods
  constructors : old.constructors ⊆ new.constructors
  bases : old.bases ⊆ new.bases
  enumValues : old.enumValues ⊆ new.enumValues
  attributes : old.attributes ⊆ new.attributes

theorem Extends.refl (d : Draft) : d.Extends d :=
  ⟨fun _ => id, fun _ => id, fun _ => id, fun _ => id, fun _ => id, fun _ => id, fun _ => id⟩

theorem Extends.trans {a b c : Draft} (first : a.Extends b) (second : b.Extends c) :
    a.Extends c where
  fields := List.Subset.trans first.fields second.fields
  properties := List.Subset.trans first.properties second.properties
  methods := List.Subset.trans first.methods second.methods
  constructors := List.Subset.trans first.constructors second.constructors
  bases := List.Subset.trans first.bases second.bases
  enumValues := List.Subset.trans first.enumValues second.enumValues
  attributes := List.Subset.trans first.attributes second.attributes

/-- Attributes with the keys and the values that notes ask for. -/
def Notes (notes : Script.Notes) (attributes : List Attribute) : Prop :=
  attributes.map (fun a => (a.key.text, a.value)) = notes

/-- Whether a draft holds what a declaration of a type asks for. -/
def Records (u : Universe) (type : TypeKey) (d : Draft) : Decl → Prop
  | .annotate key value => ∃ a ∈ d.attributes, a.key.text = key ∧ a.value = value
  | .enumValue name value => ∃ e ∈ d.enumValues, e.name.text = name ∧ e.value = value
  | .field name target lens offset notes => ∃ f ∈ d.fields, f.name.text = name ∧
      f.type = u.hash target ∧ f.offset = offset ∧ f.accessor.part = ⟨type, target, lens⟩ ∧
      Notes notes f.attributes
  | .property name target getter setter notes => ∃ f ∈ d.properties, f.name.text = name ∧
      f.type = u.hash target ∧ f.computed = ⟨type, target, getter, setter⟩ ∧
      Notes notes f.attributes
  | .base target lens => ⟨u.hash target, type, target, lens⟩ ∈ d.bases
  | .method form name params result body notes => ∃ m ∈ d.methods, m.name.text = name ∧
      m.params = params.map u.hash ∧ m.returnType = u.hash result ∧ m.flags = form.flags ∧
      m.signature = .ofMethod (u.hash type) name (params.map u.hash) ∧
      (∃ number, m.callable = ⟨number, form.access type, params, body⟩) ∧ Notes notes m.attributes
  | .constructor params make notes => ∃ c ∈ d.constructors, c.params = params.map u.hash ∧
      c.signature = .ofConstructor (u.hash type) (params.map u.hash) ∧
      (∃ number, c.callable =
        ⟨number, .none, params, fun object args => ⟨make args, object⟩⟩) ∧
      Notes notes c.attributes
  | .setName _ | .probe | .panic | .run _ => True

theorem Records.extends {u : Universe} {type : TypeKey} {d e : Draft} {decl : Decl}
    (records : d.Records u type decl) (more : d.Extends e) : e.Records u type decl := by
  cases decl with
  | annotate key value =>
    obtain ⟨a, there, rest⟩ := records
    exact ⟨a, more.attributes there, rest⟩
  | enumValue name value =>
    obtain ⟨v, there, rest⟩ := records
    exact ⟨v, more.enumValues there, rest⟩
  | field name target lens offset notes =>
    obtain ⟨f, there, rest⟩ := records
    exact ⟨f, more.fields there, rest⟩
  | property name target getter setter notes =>
    obtain ⟨f, there, rest⟩ := records
    exact ⟨f, more.properties there, rest⟩
  | base target lens => exact more.bases records
  | method form name params result body notes =>
    obtain ⟨m, there, rest⟩ := records
    exact ⟨m, more.methods there, rest⟩
  | constructor params make notes =>
    obtain ⟨c, there, rest⟩ := records
    exact ⟨c, more.constructors there, rest⟩
  | setName _ | probe | panic | run _ => trivial

end Draft

namespace Script

namespace Play

variable {α β : Type} {x : Play α} {f : α → Play β} {fits : α → Prop} {fits' : β → Prop}

/-- Whether whatever a computation answers is fit. -/
def Answers (x : Play α) (fits : α → Prop) : Prop := ∀ s a t, x.outcome s = (.ok a, t) → fits a

theorem answers_any (x : Play α) : Answers x fun _ => True := fun _ _ _ _ => trivial

theorem answers_pure {a : α} (fit : fits a) : Answers (pure a) fits := by
  intro s b t done
  cases done
  exact fit

theorem answers_throw (halt : Halt) : Answers (throw halt) fits := fun _ _ _ done => nomatch done

theorem Answers.bind (first : Answers x fits) (next : ∀ a, fits a → Answers (f a) fits') :
    Answers (x >>= f) fits' := by
  intro s b t done
  obtain ⟨a, s', begun, done⟩ := outcome_bind_eq_ok done
  exact next a (first s a s' begun) s' b t done

/-- What is done before does not matter. -/
theorem Answers.after (x : Play α) (next : ∀ a, Answers (f a) fits') : Answers (x >>= f) fits' :=
  (answers_any x).bind fun a _ => next a

end Play

namespace Pass

open Play

variable {p : Pass} {u : Universe} {d : Draft}

theorem answers_intern (text : String) : Answers (p.intern text) fun name => name.text = text := by
  intro s name t done
  rw [Pass.intern, outcome_changeRegistry] at done
  cases done
  exact Interner.intern_text _ _ _

theorem answers_note (key : String) (value : AttributeValue) :
    Answers (p.note key value) fun a => a.key.text = key ∧ a.value = value := by
  intro s a t done
  rw [Pass.note, outcome_changeRegistry] at done
  cases done
  cases value <;> simp [Interner.internAttribute]

theorem answers_notes (notes : Notes) :
    Answers (p.notes notes) fun attributes => Draft.Notes notes attributes := by
  unfold Pass.notes
  induction notes with
  | nil => exact answers_pure rfl
  | cons first rest ih =>
    rw [List.mapM_cons]
    refine (answers_note first.1 first.2).bind fun a same => ?_
    refine ih.bind fun attributes others => answers_pure ?_
    rw [Draft.Notes, List.map_cons, same.1, same.2, others]

end Pass

open Play

/-- A declaration that is run is recorded, and nothing that was recorded before is lost. -/
theorem answers_declare (w : World) (depth : Nat) (p : Pass) (d : Draft) (decl : Decl) :
    Answers (declare w depth p d decl) fun e => d.Extends e ∧ e.Records w.types p.type decl := by
  cases depth with
  | zero =>
    rw [declare.eq_def]
    exact answers_throw _
  | succ depth =>
    rw [declare.eq_def]
    cases decl with
    | setName name =>
      exact .after _ fun _ => answers_pure ⟨{ Draft.Extends.refl d with }, trivial⟩
    | annotate key value =>
      refine (Pass.answers_note key value).bind fun a same => answers_pure ⟨?_, a, by simp, same⟩
      exact { Draft.Extends.refl d with attributes := List.subset_append_left _ _ }
    | enumValue name value =>
      refine (Pass.answers_intern name).bind fun name same =>
        answers_pure ⟨?_, _, List.mem_append_right _ List.mem_cons_self, same, rfl⟩
      exact { Draft.Extends.refl d with enumValues := List.subset_append_left _ _ }
    | field name target lens offset notes =>
      refine .after _ fun _ => (Pass.answers_intern name).bind fun name same => ?_
      refine .after _ fun number => (Pass.answers_notes notes).bind fun attributes noted => ?_
      refine answers_pure
        ⟨?_, _, List.mem_append_right _ List.mem_cons_self, same, rfl, rfl, rfl, noted⟩
      exact { Draft.Extends.refl d with fields := List.subset_append_left _ _ }
    | property name target getter setter notes =>
      refine (Pass.answers_intern name).bind fun name same => .after _ fun _ => ?_
      refine (Pass.answers_notes notes).bind fun attributes noted => ?_
      refine answers_pure
        ⟨?_, _, List.mem_append_right _ List.mem_cons_self, same, rfl, rfl, noted⟩
      exact { Draft.Extends.refl d with properties := List.subset_append_left _ _ }
    | base target lens =>
      refine .after _ fun _ => answers_pure ⟨?_, List.mem_append_right _ List.mem_cons_self⟩
      exact { Draft.Extends.refl d with bases := List.subset_append_left _ _ }
    | method form name params result body notes =>
      refine .after _ fun _ => .after _ fun _ => ?_
      refine (Pass.answers_intern name).bind fun name same => .after _ fun number => ?_
      refine (Pass.answers_notes notes).bind fun attributes noted => ?_
      refine answers_pure ⟨?_, _, List.mem_append_right _ List.mem_cons_self, same, rfl, rfl, rfl,
        rfl, ⟨number, rfl⟩, noted⟩
      exact { Draft.Extends.refl d with methods := List.subset_append_left _ _ }
    | constructor params make notes =>
      refine .after _ fun _ => .after _ fun _ => .after _ fun number => ?_
      refine (Pass.answers_notes notes).bind fun attributes noted => ?_
      refine answers_pure ⟨?_, _, List.mem_append_right _ List.mem_cons_self, rfl, rfl,
        ⟨number, rfl⟩, noted⟩
      exact { Draft.Extends.refl d with constructors := List.subset_append_left _ _ }
    | probe =>
      exact .after _ fun _ => .after _ fun _ => answers_pure ⟨.refl d, trivial⟩
    | panic => exact answers_throw _
    | run steps => exact .after _ fun _ => answers_pure ⟨.refl d, trivial⟩

/-- All that a description declares is recorded. -/
theorem answers_foldlM_declare (w : World) (depth : Nat) (p : Pass) (decls : List Decl)
    (d : Draft) : Answers (decls.foldlM (declare w depth p) d) fun e =>
      d.Extends e ∧ ∀ decl ∈ decls, e.Records w.types p.type decl := by
  induction decls generalizing d with
  | nil => exact answers_pure ⟨.refl d, by simp⟩
  | cons first rest ih =>
    rw [List.foldlM_cons]
    refine (answers_declare w depth p d first).bind fun e ⟨more, recorded⟩ => ?_
    intro s a t done
    obtain ⟨most, others⟩ := ih e s a t done
    exact ⟨more.trans most, List.forall_mem_cons.mpr ⟨recorded.extends most, others⟩⟩

end Script

end TypeCatalog
