import TypeCatalog.Proofs.Catalog
import TypeCatalog.Proofs.Ownership

/-!
Attributes and the table of names. A description enters the key of each attribute that it declares,
and its text if it has one, on behalf of the module whose row it describes; merging an image does the
same. So the owner of a row holds the keys and the texts of its attributes, and of its members' that
an image carries, as long as the row is there. Properties keep the attributes that they were declared
with, whoever owns their row.
-/
namespace TypeCatalog

/-- Whether the key of an attribute, and its text if it has one, are among given names. -/
structure Attribute.Noted (given : Name → Prop) (a : Attribute) : Prop where
  key : given a.key
  text : ∀ text, a.value = .string text → ∃ name, given name ∧ name.text = text

theorem Attribute.Noted.mono {given more : Name → Prop} {a : Attribute} (noted : a.Noted given)
    (wider : ∀ name, given name → more name) : a.Noted more where
  key := wider _ noted.key
  text text same := (noted.text text same).imp fun name found => ⟨wider name found.1, found.2⟩

theorem forall_mem_push {α : Type} {P : α → Prop} {items : List α} {last : α} :
    (∀ a ∈ items ++ [last], P a) ↔ (∀ a ∈ items, P a) ∧ P last := by
  rw [List.forall_mem_append, List.forall_mem_singleton]

/-- Whether attributes, and those of fields, methods and constructors, are noted. -/
structure AllNoted (given : Name → Prop) (attributes : List Attribute) (fields : List Field)
    (methods : List Method) (constructors : List Constructor) : Prop where
  own : ∀ a ∈ attributes, a.Noted given
  fields : ∀ f ∈ fields, ∀ a ∈ f.attributes, a.Noted given
  methods : ∀ m ∈ methods, ∀ a ∈ m.attributes, a.Noted given
  constructors : ∀ c ∈ constructors, ∀ a ∈ c.attributes, a.Noted given

theorem AllNoted.mono {given more : Name → Prop} {attributes : List Attribute}
    {fields : List Field} {methods : List Method} {constructors : List Constructor}
    (noted : AllNoted given attributes fields methods constructors)
    (wider : ∀ name, given name → more name) :
    AllNoted more attributes fields methods constructors where
  own a listed := (noted.own a listed).mono wider
  fields f member a listed := (noted.fields f member a listed).mono wider
  methods m member a listed := (noted.methods m member a listed).mono wider
  constructors c member a listed := (noted.constructors c member a listed).mono wider

abbrev Row.Noted (given : Name → Prop) (row : Row) : Prop :=
  AllNoted given row.attributes row.fields row.methods row.constructors

abbrev Draft.Noted (given : Name → Prop) (draft : Draft) : Prop :=
  AllNoted given draft.attributes draft.fields draft.methods draft.constructors

/-- Whether the attributes of properties are noted. -/
def PropertiesNoted (given : Name → Prop) (properties : List Property) : Prop :=
  ∀ p ∈ properties, ∀ a ∈ p.attributes, a.Noted given

theorem PropertiesNoted.mono {given more : Name → Prop} {properties : List Property}
    (noted : PropertiesNoted given properties) (wider : ∀ name, given name → more name) :
    PropertiesNoted more properties :=
  fun p member a listed => (noted p member a listed).mono wider

namespace Row

variable {given : Name → Prop} {row : Row}

theorem addField_noted (noted : row.Noted given) {field : Field}
    (new : ∀ a ∈ field.attributes, a.Noted given) : (row.addField field).Noted given := by
  unfold addField
  split
  · exact noted
  · exact { noted with fields := forall_mem_push.mpr ⟨noted.fields, new⟩ }

theorem addMethod_noted (noted : row.Noted given) {method : Method}
    (new : ∀ a ∈ method.attributes, a.Noted given) : (row.addMethod method).Noted given := by
  unfold addMethod
  split
  · exact noted
  · exact { noted with methods := forall_mem_push.mpr ⟨noted.methods, new⟩ }

theorem addConstructor_noted (noted : row.Noted given) {constructor : Constructor}
    (new : ∀ a ∈ constructor.attributes, a.Noted given) :
    (row.addConstructor constructor).Noted given := by
  unfold addConstructor
  split
  · exact noted
  · exact { noted with constructors := forall_mem_push.mpr ⟨noted.constructors, new⟩ }

theorem addProperty_noted (noted : row.Noted given) (property : Property) :
    (row.addProperty property).Noted given := by
  unfold addProperty
  split <;> exact noted

theorem addBase_noted (noted : row.Noted given) (base : BaseLink) :
    (row.addBase base).Noted given := by
  unfold addBase
  split <;> exact noted

theorem addEnumValue_noted (noted : row.Noted given) (value : EnumValue) :
    (row.addEnumValue value).Noted given := by
  unfold addEnumValue
  split <;> exact noted

theorem publish_noted (noted : row.Noted given) {draft : Draft} (added : draft.Noted given) :
    (row.publish draft).Noted given := by
  refine publish_induction (P := fun r => r.Noted given) noted ?_ ?_ ?_ ?_ ?_ ?_ ?_
  · exact fun r h f listed => addField_noted h (added.fields f listed)
  · exact fun r h p _ => addProperty_noted h p
  · exact fun r h m listed => addMethod_noted h (added.methods m listed)
  · exact fun r h c listed => addConstructor_noted h (added.constructors c listed)
  · exact fun r h b _ => addBase_noted h b
  · exact fun r h e _ => addEnumValue_noted h e
  · exact fun r h => { h with own := List.forall_mem_append.mpr ⟨h.own, added.own⟩ }

end Row

theorem Interner.internAttribute_noted (names : Interner) (key : String) (value : AttributeValue)
    (user : ModuleId) : (names.internAttribute key value user).1.Noted
      ((names.internAttribute key value user).2.Holds user) := by
  have held := names.holds_intern key user
  cases value with
  | string text =>
    have entered := Interner.holds_intern (names.intern key user).2 text user
    refine ⟨held.intern _ _, fun other same => ⟨_, entered, ?_⟩⟩
    exact AttributeValue.string.inj same
  | _ => exact ⟨held, fun _ other => nomatch other⟩

namespace Image

theorem internAttributes_noted (owner : ModuleId) (names : Interner)
    (attributes : List ReadAttribute) :
    ∀ a ∈ (internAttributes owner names attributes).1,
      a.Noted ((internAttributes owner names attributes).2.Holds owner) := by
  induction attributes generalizing names with
  | nil => simp [internAttributes]
  | cons first rest ih =>
    have noted := names.internAttribute_noted first.key first.value owner
    have later := internAttributes_entered owner (names.internAttribute first.key first.value owner).2
      rest
    intro a listed
    rcases List.mem_cons.mp listed with rfl | other
    · exact noted.mono fun _ held => later.keeps.holds held
    · exact ih _ a other

theorem buildRow_noted (names : Interner) (type : ReadType) (owner : ModuleId) :
    (buildRow names type owner).1.Noted ((buildRow names type owner).2.Holds owner) := by
  have members : (buildMembers names type owner).1.Noted
      ((buildMembers names type owner).2.Holds owner) := by
    refine buildMembers_induction (P := fun d => d.1.Noted (d.2.Holds owner)) ?_ ?_ ?_ ?_
    · constructor <;> simp [skeleton]
    · intro d noted f _
      have entered := (entered_member owner d.2 f.name f.attributes).1
      exact Row.addField_noted (noted.mono fun _ held => entered.keeps.holds held)
        (internAttributes_noted owner _ f.attributes)
    · intro d noted m _
      have entered := (entered_member owner d.2 m.name m.attributes).1
      exact Row.addMethod_noted (noted.mono fun _ held => entered.keeps.holds held)
        (internAttributes_noted owner _ m.attributes)
    · intro d noted c _
      have entered := internAttributes_entered owner d.2 c.attributes
      exact Row.addConstructor_noted (noted.mono fun _ held => entered.keeps.holds held)
        (internAttributes_noted owner _ c.attributes)
  have entered := internAttributes_entered owner (buildMembers names type owner).2 type.attributes
  rw [buildRow_eq]
  exact { members.mono fun _ held => entered.keeps.holds held with
    own := internAttributes_noted owner _ type.attributes }

theorem carryOver_noted {owner : ModuleId} {draft : RowDraft}
    (noted : draft.1.Noted (draft.2.Holds owner)) (own : draft.1.owner = owner) (old : Row) :
    (carryOver draft old).1.Noted ((carryOver draft old).2.Holds owner) := by
  refine (carryOver_induction (P := fun d => d.1.Noted (d.2.Holds owner) ∧ d.1.owner = owner)
    ⟨noted, own⟩ old ?_ ?_ ?_).1
  · rintro d ⟨noted, own⟩ p _
    simp only [carryProperty, own]
    exact ⟨Row.addProperty_noted (noted.mono fun _ held => held.intern _ _) _,
      (Row.addProperty_grows d.1 _).owner.trans own⟩
  · rintro d ⟨noted, own⟩ b _
    exact ⟨Row.addBase_noted noted b, (Row.addBase_grows d.1 b).owner.trans own⟩
  · rintro d ⟨noted, own⟩ e
    simp only [carryEnumValue, own]
    exact ⟨Row.addEnumValue_noted (noted.mono fun _ held => held.intern _ _) _,
      (Row.addEnumValue_grows d.1 _).owner.trans own⟩

end Image

/-- The owner of a row holds the keys and the texts of its attributes. -/
def Row.NotesHeld (row : Row) (names : Interner) : Prop := row.Noted (names.Holds row.owner)

theorem Row.notesHeld_lasting : Row.Lasting Row.NotesHeld where
  keeps noted keeps := noted.mono fun _ held => keeps.holds held
  evict noted others := noted.mono fun _ held => held.evict fun same => absurd same.symm others
  skeleton r u type owner := by constructor <;> simp [Registry.skeletonRow]
  built backed names owner := by
    have own : (Image.buildRow names _ owner).1.owner = owner :=
      (Image.buildRow_drafted backed names owner).grows.owner
    rw [Row.NotesHeld, own]
    exact Image.buildRow_noted names _ owner
  carried backed names owner old := by
    have own : (Image.buildRow names _ owner).1.owner = owner :=
      (Image.buildRow_drafted backed names owner).grows.owner
    rw [Row.NotesHeld, (Registry.carryOver_facts backed names owner old).2.2]
    exact Image.carryOver_noted (Image.buildRow_noted names _ owner) own old

/-- Whether the attributes of a draft are noted, those of its properties included. -/
def Draft.WhollyNoted (given : Name → Prop) (draft : Draft) : Prop :=
  draft.Noted given ∧ PropertiesNoted given draft.properties

namespace Catalog

variable {u : Universe} {c d : Catalog} {kind more : (Name → Prop) → Draft → Prop}

/-- Whether the draft that a change folds into a row is of a kind among the names that the innermost
description has entered. -/
def Folds (kind : (Name → Prop) → Draft → Prop) (c : Catalog) : Operation → Prop
  | .commit _ draft => ∀ p rest, c.passes = p :: rest → kind (· ∈ p.names) draft
  | _ => True

/-- Whether a description that ends in a step has collected a draft of a kind. -/
def Collects (kind : (Name → Prop) → Draft → Prop) (c d : Catalog) : Prop :=
  ∀ n, c.ChangedBy (c.Folds kind) d n

/-- Whether a description that ends in a step has entered what is named in the attributes that it has
collected, as descriptions do. -/
abbrev Annotates (c d : Catalog) : Prop := c.Collects Draft.Noted d

abbrev AnnotatesAll (c d : Catalog) : Prop := c.Collects Draft.WhollyNoted d

theorem Collects.mono (wider : ∀ given draft, kind given draft → more given draft)
    (collects : c.Collects kind d) : c.Collects more d := by
  intro n
  rcases collects n with same | ⟨op, folds, permitted, after⟩
  · exact .inl same
  · refine .inr ⟨op, ?_, permitted, after⟩
    cases op with
    | commit h draft => exact fun p rest top => wider _ draft (folds p rest top)
    | _ => trivial

/-- A step after which at least as many descriptions are open ends none. -/
theorem Move.collects (move : Move u c d) (open_ : c.passes.length ≤ d.passes.length) :
    c.Collects kind d := by
  intro n
  rcases move.changed n with same | ⟨op, -, permitted, after⟩
  · exact .inl same
  · refine .inr ⟨op, ?_, permitted, after⟩
    cases op with
    | commit h draft =>
      obtain ⟨p, top, -⟩ := permitted
      rw [top, List.length_cons] at open_
      omega
    | _ => trivial

theorem collects_commit {p : OpenPass} {rest : List OpenPass} (top : c.passes = p :: rest)
    {draft : Draft} (collected : draft.MadeOf p) (fits : kind (· ∈ p.names) draft) :
    c.Collects kind
      { c.change p.pass.registry (.commit p.pass.handle draft) with passes := rest } := by
  refine changedBy_change p.pass.registry (.commit p.pass.handle draft) ?_
    ⟨p, top, rfl, rfl, collected⟩ rfl
  intro q others same
  cases top.symm.trans same
  exact fits

theorem collects_abandon {p : OpenPass} {rest : List OpenPass} (top : c.passes = p :: rest)
    (first : p.isFirst = true) :
    c.Collects kind { c.change p.pass.registry (.discard p.pass.handle) with passes := rest } :=
  changedBy_change p.pass.registry (.discard p.pass.handle) trivial ⟨p, top, first, rfl, rfl⟩ rfl

theorem Overhaul.collects {n : Nat} (overhaul : Overhaul c n d) : c.Collects kind d := by
  intro k
  rcases overhaul.changed k with same | ⟨op, overhauls, permitted, after⟩
  · exact .inl same
  · refine .inr ⟨op, ?_, permitted, after⟩
    cases op with
    | commit h draft => exact overhauls.elim
    | _ => trivial

end Catalog

end TypeCatalog
