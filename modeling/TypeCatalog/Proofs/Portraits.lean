import TypeCatalog.Proofs.Declarations
import TypeCatalog.Proofs.Ownership

/-!
What a row says apart from the numbers in it. The ids of names and the numbers of callables and
accessors depend on what a registry has seen before; all else of a row is drawn from the description
of its type. The portrait of a type is the row that its description asks for, without numbers.
-/
namespace TypeCatalog

def Name.unnumbered (name : Name) : Name := { name with id := ⟨0⟩ }

def Attribute.unnumbered (a : Attribute) : Attribute := { a with key := a.key.unnumbered }

def Accessor.unnumbered (a : Accessor) : Accessor := { a with number := 0 }

def Callable.unnumbered (c : Callable) : Callable := { c with number := 0 }

def Field.unnumbered (f : Field) : Field :=
  { f with
    name := f.name.unnumbered
    accessor := f.accessor.unnumbered
    attributes := f.attributes.map Attribute.unnumbered }

def Property.unnumbered (p : Property) : Property :=
  { p with name := p.name.unnumbered, attributes := p.attributes.map Attribute.unnumbered }

def Method.unnumbered (m : Method) : Method :=
  { m with
    name := m.name.unnumbered
    callable := m.callable.unnumbered
    attributes := m.attributes.map Attribute.unnumbered }

def Constructor.unnumbered (c : Constructor) : Constructor :=
  { c with
    callable := c.callable.unnumbered
    attributes := c.attributes.map Attribute.unnumbered }

def EnumValue.unnumbered (e : EnumValue) : EnumValue := { e with name := e.name.unnumbered }

/-- A row without the ids of names and the numbers of callables, and without the indexes, which are
by the ids of names. -/
def Row.unnumbered (row : Row) : Row :=
  { row with
    name := row.name.unnumbered
    fields := row.fields.map Field.unnumbered
    properties := row.properties.map Property.unnumbered
    methods := row.methods.map Method.unnumbered
    constructors := row.constructors.map Constructor.unnumbered
    enumValues := row.enumValues.map EnumValue.unnumbered
    attributes := row.attributes.map Attribute.unnumbered
    fieldIndex := .empty
    propertyIndex := .empty
    methodIndex := .empty }

def Draft.unnumbered (d : Draft) : Draft :=
  { d with
    name := d.name.map Name.unnumbered
    fields := d.fields.map Field.unnumbered
    properties := d.properties.map Property.unnumbered
    methods := d.methods.map Method.unnumbered
    constructors := d.constructors.map Constructor.unnumbered
    enumValues := d.enumValues.map EnumValue.unnumbered
    attributes := d.attributes.map Attribute.unnumbered }

theorem Draft.name_of_method (draft : Draft) {m : Method} (listed : m ∈ draft.methods) :
    m.name ∈ draft.names := by
  simp only [Draft.names, List.mem_append, List.mem_map]
  exact .inl (.inr ⟨m, listed, rfl⟩)

theorem Draft.name_of_enumValue (draft : Draft) {e : EnumValue} (listed : e ∈ draft.enumValues) :
    e.name ∈ draft.names := by
  simp only [Draft.names, List.mem_append, List.mem_map]
  exact .inr ⟨e, listed, rfl⟩

/-- A draft whose names are all held by a module. -/
def Draft.NamedBy (d : Draft) (owner : ModuleId) (names : Interner) : Prop :=
  ∀ name ∈ d.names, names.Holds owner name

namespace Draft.NamedBy

variable {d e : Draft} {owner : ModuleId} {names later : Interner}

theorem keeps (named : d.NamedBy owner names) (keeps : names.Keeps later) :
    d.NamedBy owner later := fun name listed => keeps.holds (named name listed)

theorem of_added {added : Name} (named : d.NamedBy owner names) (own : names.Holds owner added)
    (listed : ∀ name ∈ e.names, name ∈ d.names ∨ name = added) : e.NamedBy owner names := by
  intro name member
  rcases listed name member with old | rfl
  · exact named name old
  · exact own

end Draft.NamedBy

namespace Row

-- Without numbers, names are told apart by their texts.
def pushField (row : Row) (field : Field) : Row :=
  if row.fields.any (·.name.text = field.name.text) then row
  else { row with fields := row.fields ++ [field] }

def pushProperty (row : Row) (property : Property) : Row :=
  if row.properties.any (·.name.text = property.name.text) then row
  else { row with properties := row.properties ++ [property] }

def pushMethod (row : Row) (method : Method) : Row :=
  if row.methods.any (·.signature = method.signature) then row
  else { row with methods := row.methods ++ [method] }

/-- The published row of a draft without numbers. -/
def filled (row : Row) (draft : Draft) : Row :=
  let row := draft.fields.foldl pushField row
  let row := draft.properties.foldl pushProperty row
  let row := draft.methods.foldl pushMethod row
  let row := draft.constructors.foldl addConstructor row
  let row := draft.bases.foldl addBase row
  let row := draft.enumValues.foldl addEnumValue row
  { row with
    attributes := row.attributes ++ draft.attributes
    name := draft.name.getD row.name
    published := true }

end Row

section

variable {names : Interner} {owner : ModuleId} {a b : Name}

/-- Names that are held are told apart by their ids just as by their texts. -/
theorem Interner.Holds.id_eq_iff (first : names.Holds owner a)
    (second : names.Holds owner b) : a.id = b.id ↔ a.text = b.text :=
  ⟨fun same => congrArg Name.text (first.eq_of_id second same),
    fun same => congrArg Name.id (first.eq_of_text second same)⟩

theorem Interner.Holds.unnumbered_eq_iff (first : names.Holds owner a)
    (second : names.Holds owner b) : a.unnumbered = b.unnumbered ↔ a = b := by
  refine ⟨fun same => ?_, congrArg Name.unnumbered⟩
  have text : a.unnumbered.text = b.unnumbered.text := congrArg Name.text same
  exact first.eq_of_text second text

end

namespace Row

section

variable {row : Row} {names : Interner} {owner : ModuleId}

/-- A row whose names are all held by a module. -/
def NamedBy (row : Row) (owner : ModuleId) (names : Interner) : Prop :=
  ∀ name ∈ row.names, names.Holds owner name

theorem unnumbered_addField (sound : row.Sound)
    (named : row.NamedBy owner names) {field : Field} (own : names.Holds owner field.name) :
    (row.addField field).unnumbered = row.unnumbered.pushField field.unnumbered := by
  have listed : (row.fieldIndex.find? field.name.id).isSome = true ↔ _ := sound.fields.find?_isSome
  have there : (row.fieldIndex.find? field.name.id).isSome =
      row.unnumbered.fields.any (·.name.text = field.unnumbered.name.text) := by
    rw [Bool.eq_iff_iff, listed]
    simp only [unnumbered, List.any_map, List.any_eq_true, List.mem_map, Function.comp_apply,
      decide_eq_true_eq]
    refine exists_congr fun f => and_congr_right fun member => ?_
    exact (named _ (name_of_field member)).id_eq_iff own
  unfold addField fieldPosition? pushField
  rw [← there]
  cases row.fieldIndex.find? field.name.id with
  | some position => rfl
  | none => simp [unnumbered]

theorem unnumbered_addProperty (sound : row.Sound)
    (named : row.NamedBy owner names) {property : Property}
    (own : names.Holds owner property.name) :
    (row.addProperty property).unnumbered = row.unnumbered.pushProperty property.unnumbered := by
  have listed : (row.propertyIndex.find? property.name.id).isSome = true ↔ _ :=
    sound.properties.find?_isSome
  have there : (row.propertyIndex.find? property.name.id).isSome =
      row.unnumbered.properties.any (·.name.text = property.unnumbered.name.text) := by
    rw [Bool.eq_iff_iff, listed]
    simp only [unnumbered, List.any_map, List.any_eq_true, List.mem_map, Function.comp_apply,
      decide_eq_true_eq]
    refine exists_congr fun p => and_congr_right fun member => ?_
    exact (named _ (name_of_property member)).id_eq_iff own
  unfold addProperty propertyPosition? pushProperty
  rw [← there]
  cases row.propertyIndex.find? property.name.id with
  | some position => rfl
  | none => simp [unnumbered]

theorem unnumbered_addMethod (row : Row) (method : Method) :
    (row.addMethod method).unnumbered = row.unnumbered.pushMethod method.unnumbered := by
  unfold addMethod pushMethod
  have there : row.unnumbered.methods.any (·.signature = method.unnumbered.signature) =
      row.methods.any (·.signature = method.signature) := List.any_map
  rw [there]
  split
  · rfl
  · simp [unnumbered]

theorem unnumbered_addConstructor (row : Row) (constructor : Constructor) :
    (row.addConstructor constructor).unnumbered =
      row.unnumbered.addConstructor constructor.unnumbered := by
  unfold addConstructor
  have there : row.unnumbered.constructors.any (·.signature = constructor.unnumbered.signature) =
      row.constructors.any (·.signature = constructor.signature) := List.any_map
  rw [there]
  split
  · rfl
  · simp [unnumbered, Constructor.unnumbered]

theorem unnumbered_addBase (row : Row) (base : BaseLink) :
    (row.addBase base).unnumbered = row.unnumbered.addBase base := by
  unfold addBase
  split
  · rename_i there
    exact (if_pos there).symm
  · rename_i new
    exact (if_neg new).symm

theorem unnumbered_addEnumValue (named : row.NamedBy owner names)
    {value : EnumValue} (own : names.Holds owner value.name) :
    (row.addEnumValue value).unnumbered = row.unnumbered.addEnumValue value.unnumbered := by
  have there : row.unnumbered.enumValues.any (·.name = value.unnumbered.name) =
      row.enumValues.any (·.name = value.name) := by
    rw [Bool.eq_iff_iff]
    simp only [unnumbered, List.any_map, List.any_eq_true, Function.comp_apply, decide_eq_true_eq]
    refine exists_congr fun e => and_congr_right fun member => ?_
    exact (named _ (name_of_enumValue member)).unnumbered_eq_iff own
  unfold addEnumValue
  rw [there]
  split
  · rfl
  · simp [unnumbered]

/-- What there is of a row without numbers, when a module holds the names of the row. -/
structure Traced (names : Interner) (owner : ModuleId) (row bare : Row) : Prop where
  named : row.NamedBy owner names
  same : row.unnumbered = bare

namespace Traced

variable {bare : Row}

/-- Members that are added one after another are added to the row without numbers, as long as each
of them is and what is needed for that stays. -/
theorem foldl {α β : Type} {add : Row → α → Row} {push : Row → β → Row} {view : α → β}
    {items : List α} (good : Row → Prop) (traced : row.Traced names owner bare) (start : good row)
    (each : ∀ r bare, r.Traced names owner bare → good r → ∀ a ∈ items,
      good (add r a) ∧ (add r a).Traced names owner (push bare (view a))) :
    good (items.foldl add row) ∧
      (items.foldl add row).Traced names owner ((items.map view).foldl push bare) := by
  induction items generalizing row bare with
  | nil => exact ⟨start, traced⟩
  | cons first rest ih =>
    obtain ⟨fine, next⟩ := each row bare traced start first List.mem_cons_self
    exact ih next fine fun r bare traced good a listed =>
      each r bare traced good a (List.mem_cons_of_mem first listed)

theorem addFields (traced : row.Traced names owner bare) (sound : row.Sound) {fields : List Field}
    (own : ∀ f ∈ fields, names.Holds owner f.name) :
    (fields.foldl addField row).Sound ∧ (fields.foldl addField row).Traced names owner
      ((fields.map Field.unnumbered).foldl pushField bare) :=
  traced.foldl Sound sound fun _ _ now sound f listed =>
    ⟨addField_sound sound f, addField_names now.named (own f listed),
      now.same ▸ unnumbered_addField sound now.named (own f listed)⟩

theorem addProperties (traced : row.Traced names owner bare) (sound : row.Sound)
    {properties : List Property} (own : ∀ p ∈ properties, names.Holds owner p.name) :
    (properties.foldl addProperty row).Traced names owner
      ((properties.map Property.unnumbered).foldl pushProperty bare) :=
  (traced.foldl Sound sound fun _ _ now sound p listed =>
    ⟨addProperty_sound sound p, addProperty_names now.named (own p listed),
      now.same ▸ unnumbered_addProperty sound now.named (own p listed)⟩).2

theorem addMethods (traced : row.Traced names owner bare) {methods : List Method}
    (own : ∀ m ∈ methods, names.Holds owner m.name) :
    (methods.foldl addMethod row).Traced names owner
      ((methods.map Method.unnumbered).foldl pushMethod bare) :=
  (traced.foldl (fun _ => True) trivial fun r _ now _ m listed =>
    ⟨trivial, addMethod_names now.named (own m listed), now.same ▸ unnumbered_addMethod r m⟩).2

theorem addConstructors (traced : row.Traced names owner bare) (constructors : List Constructor) :
    (constructors.foldl addConstructor row).Traced names owner
      ((constructors.map Constructor.unnumbered).foldl addConstructor bare) :=
  (traced.foldl (fun _ => True) trivial fun r _ now _ c _ =>
    ⟨trivial, by simpa [NamedBy] using now.named, now.same ▸ unnumbered_addConstructor r c⟩).2

theorem addBases (traced : row.Traced names owner bare) (bases : List BaseLink) :
    (bases.foldl addBase row).Traced names owner (bases.foldl addBase bare) := by
  have added : True ∧
      (bases.foldl addBase row).Traced names owner ((bases.map id).foldl addBase bare) :=
    traced.foldl (fun _ => True) trivial fun r _ now _ b _ =>
      ⟨trivial, by simpa [NamedBy] using now.named, now.same ▸ unnumbered_addBase r b⟩
  rw [List.map_id] at added
  exact added.2

theorem addEnumValues (traced : row.Traced names owner bare) {values : List EnumValue}
    (own : ∀ e ∈ values, names.Holds owner e.name) :
    (values.foldl addEnumValue row).Traced names owner
      ((values.map EnumValue.unnumbered).foldl addEnumValue bare) :=
  (traced.foldl (fun _ => True) trivial fun _ _ now _ e listed =>
    ⟨trivial, addEnumValue_names now.named (own e listed),
      now.same ▸ unnumbered_addEnumValue now.named (own e listed)⟩).2

/-- A name that is given anew is the one that the row has, if their ids are the same. -/
theorem renamed (traced : row.Traced names owner bare) {draft : Draft}
    (drafted : draft.NamedBy owner names) :
    (row.renamed draft).unnumbered = draft.unnumbered.name.getD bare.name := by
  rw [← traced.same]
  unfold Row.renamed
  cases asked : draft.name with
  | none => simp [Draft.unnumbered, asked, unnumbered]
  | some given =>
    have own := drafted given (by simp [Draft.names, asked])
    have shown : draft.unnumbered.name.getD row.unnumbered.name = given.unnumbered := by
      simp [Draft.unnumbered, asked]
    rw [shown]
    dsimp only
    split
    · rename_i same
      rw [own.eq_of_id (traced.named _ List.mem_cons_self) same]
    · rfl

theorem published (traced : row.Traced names owner bare) {draft : Draft}
    (drafted : draft.NamedBy owner names) :
    unnumbered { row with
      attributes := row.attributes ++ draft.attributes
      name := row.renamed draft
      published := true } = { bare with
      attributes := bare.attributes ++ draft.unnumbered.attributes
      name := draft.unnumbered.name.getD bare.name
      published := true } := by
  rw [← traced.renamed drafted, ← traced.same]
  simp only [unnumbered, Draft.unnumbered, ← List.map_append]

end Traced

/-- Publishing a draft, as far as it can be told without numbers. -/
theorem unnumbered_publish (sound : row.Sound)
    (named : row.NamedBy owner names) {draft : Draft} (drafted : draft.NamedBy owner names) :
    (row.publish draft).unnumbered = row.unnumbered.filled draft.unnumbered := by
  have begun : row.Traced names owner row.unnumbered := ⟨named, rfl⟩
  obtain ⟨sound, fields⟩ := begun.addFields sound fun f listed =>
    drafted _ (draft.name_of_field listed)
  have properties := fields.addProperties sound fun p listed =>
    drafted _ (draft.name_of_property listed)
  have methods := properties.addMethods fun m listed => drafted _ (draft.name_of_method listed)
  have bases := (methods.addConstructors draft.constructors).addBases draft.bases
  have values := bases.addEnumValues fun e listed => drafted _ (draft.name_of_enumValue listed)
  exact values.published drafted

end

end Row

open Script

namespace Script

/-- The attributes that notes ask for. -/
def Notes.portrait (notes : Notes) : List Attribute :=
  notes.map fun (key, value) => ⟨⟨⟨0⟩, key⟩, value⟩

/-- A draft without numbers, with what a declaration of a type adds to it. -/
def Decl.sketch (u : Universe) (type : TypeKey) (d : Draft) : Decl → Draft
  | .setName name => { d with name := some ⟨⟨0⟩, name⟩ }
  | .annotate key value => { d with attributes := d.attributes ++ [⟨⟨⟨0⟩, key⟩, value⟩] }
  | .enumValue name value => { d with enumValues := d.enumValues ++ [⟨⟨⟨0⟩, name⟩, value⟩] }
  | .field name target lens offset notes =>
    { d with fields := d.fields ++
      [⟨⟨⟨0⟩, name⟩, u.hash target, offset, ⟨0, type, target, lens⟩, notes.portrait⟩] }
  | .property name target getter setter notes =>
    { d with properties := d.properties ++
      [⟨⟨⟨0⟩, name⟩, u.hash target, ⟨type, target, getter, setter⟩, notes.portrait⟩] }
  | .base target lens => { d with bases := d.bases ++ [⟨u.hash target, type, target, lens⟩] }
  | .method form name params result body notes =>
    let hashes := params.map u.hash
    { d with methods := d.methods ++
      [⟨⟨⟨0⟩, name⟩, hashes, u.hash result, form.flags, .ofMethod (u.hash type) name hashes,
        ⟨0, form.access type, params, body⟩, notes.portrait⟩] }
  | .constructor params make notes =>
    let hashes := params.map u.hash
    { d with constructors := d.constructors ++
      [⟨hashes, .ofConstructor (u.hash type) hashes,
        ⟨0, .none, params, fun object args => ⟨make args, object⟩⟩, notes.portrait⟩] }
  | .probe | .panic | .run _ => d

/-- The row that a type's description asks for when the type is registered for a module. -/
def World.portrait (w : World) (config : RegistryConfig) (type : TypeKey) (owner : ModuleId) :
    Row :=
  let u := w.types
  let blank : Row :=
    { name := ⟨⟨0⟩, canonicalName (u.rawName type)⟩
      typeHash := u.hash type, owner, size := u.size type, align := u.align type
      flags := { isPrimitive := (PrimitiveKind.ofHash? (u.hash type)).isSome } }
  blank.filled (((w.describe type).wanted config).foldl (Decl.sketch u type) {})

open Play

theorem unnumbered_of_text {name : Name} {text : String} (same : name.text = text) :
    name.unnumbered = ⟨⟨0⟩, text⟩ := by
  rw [Name.unnumbered, same]

theorem unnumbered_of_noted {notes : Script.Notes} {attributes : List Attribute}
    (noted : Draft.Notes notes attributes) :
    attributes.map Attribute.unnumbered = notes.portrait := by
  rw [← noted, Notes.portrait, List.map_map]
  rfl

/-- What a declaration adds to a draft, apart from numbers. -/
theorem answers_sketch (w : World) (depth : Nat) (p : Pass) (d : Draft) (decl : Decl) :
    Answers (declare w depth p d decl) fun e =>
      e.unnumbered = decl.sketch w.types p.type d.unnumbered := by
  cases depth with
  | zero =>
    rw [declare.eq_def]
    exact answers_throw _
  | succ depth =>
    rw [declare.eq_def]
    cases decl with
    | setName name =>
      refine (Pass.answers_intern name).bind fun entered same => answers_pure ?_
      simp [Draft.unnumbered, Decl.sketch, unnumbered_of_text same]
    | annotate key value =>
      refine (Pass.answers_note key value).bind fun a same => answers_pure ?_
      simp [Draft.unnumbered, Decl.sketch, Attribute.unnumbered, unnumbered_of_text same.1, same.2]
    | enumValue name value =>
      refine (Pass.answers_intern name).bind fun entered same => answers_pure ?_
      simp [Draft.unnumbered, Decl.sketch, EnumValue.unnumbered, unnumbered_of_text same]
    | field name target lens offset notes =>
      refine .after _ fun _ => (Pass.answers_intern name).bind fun entered same => ?_
      refine .after _ fun number => (Pass.answers_notes notes).bind fun attributes noted => ?_
      refine answers_pure ?_
      simp [Draft.unnumbered, Decl.sketch, Field.unnumbered, Accessor.unnumbered,
        unnumbered_of_text same, unnumbered_of_noted noted]
    | property name target getter setter notes =>
      refine (Pass.answers_intern name).bind fun entered same => .after _ fun _ => ?_
      refine (Pass.answers_notes notes).bind fun attributes noted => answers_pure ?_
      simp [Draft.unnumbered, Decl.sketch, Property.unnumbered, unnumbered_of_text same,
        unnumbered_of_noted noted]
    | base target lens => exact .after _ fun _ => answers_pure rfl
    | method form name params result body notes =>
      refine .after _ fun _ => .after _ fun _ => ?_
      refine (Pass.answers_intern name).bind fun entered same => .after _ fun number => ?_
      refine (Pass.answers_notes notes).bind fun attributes noted => answers_pure ?_
      simp [Draft.unnumbered, Decl.sketch, Method.unnumbered, Callable.unnumbered,
        unnumbered_of_text same, unnumbered_of_noted noted]
    | constructor params make notes =>
      refine .after _ fun _ => .after _ fun _ => .after _ fun number => ?_
      refine (Pass.answers_notes notes).bind fun attributes noted => answers_pure ?_
      simp [Draft.unnumbered, Decl.sketch, Constructor.unnumbered, Callable.unnumbered,
        unnumbered_of_noted noted]
    | probe => exact .after _ fun _ => .after _ fun _ => answers_pure rfl
    | panic => exact answers_throw _
    | run steps => exact .after _ fun _ => answers_pure rfl

theorem answers_sketches (w : World) (depth : Nat) (p : Pass) (decls : List Decl) (d : Draft) :
    Answers (decls.foldlM (declare w depth p) d) fun e =>
      e.unnumbered = decls.foldl (Decl.sketch w.types p.type) d.unnumbered := by
  induction decls generalizing d with
  | nil => exact answers_pure rfl
  | cons first rest ih =>
    rw [List.foldlM_cons, List.foldl_cons]
    refine (answers_sketch w depth p d first).bind fun e same => ?_
    rw [← same]
    exact ih e

/-- The row of a described type, once it is published, is the portrait of the type apart from
numbers. -/
theorem unnumbered_published {w : World} {config : RegistryConfig} {r : Registry}
    {names : Interner} {type : TypeKey} {owner : ModuleId}
    (entered : names.Holds owner (r.skeletonRow w.types type owner).name) {draft : Draft}
    (drafted : draft.NamedBy owner names)
    (sketched : draft.unnumbered =
      ((w.describe type).wanted config).foldl (Decl.sketch w.types type) {}) :
    ((r.skeletonRow w.types type owner).publish draft).unnumbered =
      w.portrait config type owner := by
  have named : (r.skeletonRow w.types type owner).NamedBy owner names := fun name listed =>
    List.mem_singleton.mp listed ▸ entered
  have sound : (r.skeletonRow w.types type owner).Sound := Row.skeleton_sound _ _ _ _ _ _
  rw [Row.unnumbered_publish sound named drafted, sketched]
  simp [World.portrait, Row.unnumbered, Registry.skeletonRow,
    unnumbered_of_text (Interner.intern_text _ _ _)]

end Script

end TypeCatalog
