import TypeCatalog.Proofs.DefaultConstructor
import TypeCatalog.Proofs.MergeEffect
import TypeCatalog.Proofs.Typing

/-!
What the flags of a row say. Adding a constructor without parameters marks a row as
default-constructible, and adding an alternative marks it as an enumeration. An image carries the
flags and the constructors of a type but not its alternatives; so a merged type may be an
enumeration that shows none, unless it takes them from the row that it replaces.
-/
namespace TypeCatalog

/-- Whether the flags of a row are those of its members. That a row is marked as an enumeration only
if it has an alternative is asked for where `strict` holds. -/
structure Row.Marked (strict : Prop) (row : Row) : Prop where
  constructible : row.flags.isDefaultConstructible = true → ∃ c ∈ row.constructors, c.params = []
  enumerated : row.enumValues ≠ [] → row.flags.isEnum = true
  alternative : strict → row.flags.isEnum = true → row.enumValues ≠ []

/-- Whether the flags of a type in an image are those of its constructors, which are distinct. -/
structure Image.ReadType.Marked (type : ReadType) : Prop where
  distinct : (type.constructors.map ReadConstructor.signature).Nodup
  flagged : ∀ c ∈ type.constructors, c.params = [] → type.flags.isDefaultConstructible = true
  constructible : type.flags.isDefaultConstructible = true →
    ∃ c ∈ type.constructors, c.params = []

namespace Row.Marked

variable {strict : Prop} {row : Row}

theorem addField (marked : row.Marked strict) (f : Field) : (row.addField f).Marked strict := by
  unfold Row.addField
  split
  · exact marked
  · exact { marked with }

theorem addProperty (marked : row.Marked strict) (p : Property) :
    (row.addProperty p).Marked strict := by
  unfold Row.addProperty
  split
  · exact marked
  · exact { marked with }

theorem addMethod (marked : row.Marked strict) (m : Method) : (row.addMethod m).Marked strict := by
  unfold Row.addMethod
  split
  · exact marked
  · exact { marked with }

theorem addBase (marked : row.Marked strict) (b : BaseLink) : (row.addBase b).Marked strict := by
  unfold Row.addBase
  split
  · exact marked
  · exact { marked with }

theorem addConstructor (marked : row.Marked strict) (c : Constructor) :
    (row.addConstructor c).Marked strict := by
  unfold Row.addConstructor
  split
  · exact marked
  · cases params : c.params with
    | nil =>
      exact { marked with
        constructible := fun _ => ⟨c, List.mem_append_right _ List.mem_cons_self, params⟩ }
    | cons param rest =>
      refine { marked with constructible := fun set => ?_ }
      obtain ⟨old, listed, none⟩ := marked.constructible set
      exact ⟨old, List.mem_append_left _ listed, none⟩

theorem addEnumValue (marked : row.Marked strict) (e : EnumValue) :
    (row.addEnumValue e).Marked strict := by
  unfold Row.addEnumValue
  split
  · exact marked
  · exact {
      constructible := marked.constructible
      enumerated := fun _ => rfl
      alternative := fun _ _ => by simp }

theorem publish (marked : row.Marked strict) (draft : Draft) :
    (row.publish draft).Marked strict := by
  refine publish_induction marked ?_ ?_ ?_ ?_ ?_ ?_ ?_
  · exact fun _ marked f _ => marked.addField f
  · exact fun _ marked p _ => marked.addProperty p
  · exact fun _ marked m _ => marked.addMethod m
  · exact fun _ marked c _ => marked.addConstructor c
  · exact fun _ marked b _ => marked.addBase b
  · exact fun _ marked e _ => marked.addEnumValue e
  · exact fun _ marked => { marked with }

theorem skeleton (r : Registry) (u : Universe) (type : TypeKey) (owner : ModuleId) :
    (r.skeletonRow u type owner).Marked strict where
  constructible := nofun
  enumerated present := absurd rfl present
  alternative _ := nofun

/-- An image is written with the flags of its rows. -/
theorem image (marked : row.Marked strict) (sound : row.Sound) :
    (Image.ReadType.of row).Marked where
  distinct := by
    rw [Image.ReadType.of, List.map_map]
    exact sound.constructors
  flagged c listed := by
    obtain ⟨own, member, rfl⟩ := List.mem_map.mp listed
    exact sound.defaultFlag own member
  constructible set := by
    obtain ⟨c, listed, none⟩ := marked.constructible set
    exact ⟨.of c, List.mem_map_of_mem listed, none⟩

end Row.Marked

namespace Image

variable {exports : ExportTable} {type : ReadType} {strict : Prop}

/-- A row under construction that has the flags of its image, and no constructor so far. -/
structure Unconstructed (type : ReadType) (owner : ModuleId) (names : Interner) (draft : RowDraft) :
    Prop where
  drafted : Drafted owner (skeleton names type owner) names draft
  none : draft.1.constructors = []
  flags : draft.1.flags = type.flags

namespace Unconstructed

variable {owner : ModuleId} {names : Interner} {draft : RowDraft}

theorem addReadField (bare : Unconstructed type owner names draft) (f : ReadField) :
    Unconstructed type owner names (addReadField owner draft f) := by
  have frame : (Image.addReadField owner draft f).1 = draft.1.withFields _ := Row.addField_frame _ _
  refine ⟨addReadField_drafted bare.drafted f, ?_, ?_⟩
  · exact (congrArg Row.constructors frame).trans bare.none
  · exact (congrArg Row.flags frame).trans bare.flags

theorem addReadMethod (bare : Unconstructed type owner names draft) {m : ReadMethod}
    (arity : m.callable.arity = m.params.length) :
    Unconstructed type owner names (addReadMethod owner draft m) := by
  have frame : (Image.addReadMethod owner draft m).1 = draft.1.withMethods _ :=
    Row.addMethod_frame _ _
  refine ⟨addReadMethod_drafted bare.drafted arity, ?_, ?_⟩
  · exact (congrArg Row.constructors frame).trans bare.none
  · exact (congrArg Row.flags frame).trans bare.flags

end Unconstructed

/-- A row that is built of an image has its constructors and its flags. -/
theorem buildRow_constructors (backed : type.Backed exports) (marked : type.Marked)
    (names : Interner) (owner : ModuleId) :
    (buildRow names type owner).1.constructors.map ReadConstructor.of = type.constructors ∧
      (buildRow names type owner).1.flags = type.flags := by
  have skeletal : Unconstructed type owner names
      (skeleton names type owner, (names.intern type.name owner).2) :=
    ⟨skeleton_drafted names type owner, rfl, rfl⟩
  have fields : Unconstructed type owner names (type.fields.foldl (addReadField owner) _) :=
    List.foldlRecOn type.fields _ skeletal fun _ bare f _ => bare.addReadField f
  have methods : Unconstructed type owner names (type.methods.foldl (addReadMethod owner) _) :=
    List.foldlRecOn type.methods _ fields fun _ bare m listed =>
      bare.addReadMethod (backed.methods m listed).1
  obtain ⟨-, constructors, frame⟩ :=
    foldl_addReadConstructor methods.drafted methods.none marked.distinct
      (fun c listed => (backed.constructors c listed).1)
      (fun c listed params => by rw [methods.flags]; exact marked.flagged c listed params)
  refine ⟨constructors, ?_⟩
  calc (buildRow names type owner).1.flags
    _ = (buildMembers names type owner).1.flags := by rw [buildRow_eq]
    _ = type.flags := (congrArg Row.flags frame).trans methods.flags

theorem buildRow_marked (backed : type.Backed exports) (marked : type.Marked) (names : Interner)
    (owner : ModuleId) (plain : strict → type.flags.isEnum = false) :
    (buildRow names type owner).1.Marked strict := by
  obtain ⟨constructors, flags⟩ := buildRow_constructors backed marked names owner
  constructor
  · intro set
    rw [flags] at set
    obtain ⟨c, listed, none⟩ := marked.constructible set
    rw [← constructors] at listed
    obtain ⟨own, member, rfl⟩ := List.mem_map.mp listed
    exact ⟨own, member, none⟩
  · exact fun present => absurd (buildRow_plain names type owner).enumValues present
  · intro asked set
    rw [flags, plain asked] at set
    cases set

theorem carryOver_marked {draft : RowDraft} (marked : draft.1.Marked strict) (old : Row) :
    (carryOver draft old).1.Marked strict := by
  refine carryOver_induction (P := fun d => d.1.Marked strict) marked old ?_ ?_ ?_
  · exact fun _ marked p _ => marked.addProperty _
  · exact fun _ marked b _ => marked.addBase b
  · exact fun _ marked e => marked.addEnumValue _

/-- A row takes its alternatives from the one that it replaces. -/
theorem enumValues_carryOver (draft : RowDraft) {old : Row} (some : old.enumValues ≠ []) :
    (carryOver draft old).1.enumValues ≠ [] := by
  have one : ∀ (d : RowDraft) (e : EnumValue), (carryEnumValue d e).1.enumValues ≠ [] := by
    intro d e
    simp only [carryEnumValue, Row.addEnumValue]
    split
    · rename_i there
      intro none
      simp [none] at there
    · simp
  obtain ⟨e, rest, same⟩ := List.exists_cons_of_ne_nil some
  simp only [carryOver, same, List.foldl_cons]
  exact List.foldlRecOn (motive := fun d => d.1.enumValues ≠ []) rest carryEnumValue (one _ e)
    fun d _ e _ => one d e

end Image

namespace Registry

variable {r : Registry} {exports : ExportTable} {bytes : List UInt8} {options : MergeOptions}
  {types : List Image.ReadType} {strict : Prop}

/-- Whether a merge leaves no enumeration without an alternative: whatever it brings that is marked
as one has a row already, which has an alternative or does not give way. -/
def KeepsAlternatives (r : Registry) (exports : ExportTable) (bytes : List UInt8)
    (options : MergeOptions) : Prop :=
  ∀ types, Image.decode exports bytes = .ok types →
    ∀ type ∈ types, type.flags.isEnum = true →
      ∃ h old, r.anyByHash? type.typeHash = some (h, old) ∧
        (old.enumValues ≠ [] ∨ ¬ options.GivesWay old (options.incoming type))

/-- What is known of the rows while the types of an image are merged. -/
def Marking (strict : Prop) (options : MergeOptions) (types : List Image.ReadType) (row : Row) :
    Prop :=
  row.Sound ∧ row.Marked strict ∧
    (strict → ∀ type ∈ types, type.flags.isEnum = true → row.typeHash = type.typeHash →
      row.enumValues ≠ [] ∨ ¬ options.GivesWay row (options.incoming type))

theorem marking_of_keeps (consistent : r.Consistent)
    (keeps : strict → r.KeepsAlternatives exports bytes options)
    (decoded : Image.decode exports bytes = .ok types) {index : Nat} {row : Row}
    (present : r.types.rowAt? index = some row) (sound : row.Sound) (marked : row.Marked strict) :
    Marking strict options types row := by
  refine ⟨sound, marked, fun asked type listed enum same => ?_⟩
  obtain ⟨h, old, found, stays⟩ := keeps asked types decoded type listed enum
  obtain ⟨there, hash⟩ := consistent.of_anyByHash? found
  have own := (SlotTable.get?_eq_some_iff.mp there).1
  have here := consistent.index_unique present own (same.trans hash.symm)
  cases Option.some.inj ((here ▸ present).symm.trans own)
  exact stays

theorem brings_marking (keeps : strict → r.KeepsAlternatives exports bytes options)
    (decoded : Image.decode exports bytes = .ok types)
    {type : Image.ReadType} (listed : type ∈ types) (backed : type.Backed exports)
    (marked : type.Marked) : Brings (Marking strict options types) options r type := by
  have one : ∀ other ∈ types, other.typeHash = type.typeHash → other = type :=
    fun other member => List.inj_on_of_nodup_map (Image.decode_nodup decoded) member listed
  constructor
  · intro absent names
    have plain : strict → type.flags.isEnum = false := by
      intro asked
      cases enum : type.flags.isEnum with
      | false => rfl
      | true =>
        obtain ⟨h, old, found, -⟩ := keeps asked types decoded type listed enum
        rw [anyByHash?, absent] at found
        cases found
    refine ⟨(Image.buildRow_drafted backed names _).sound,
      Image.buildRow_marked backed marked names _ plain, fun asked other member enum same => ?_⟩
    rw [typeHash_buildRow backed] at same
    rw [one other member same.symm, plain asked] at enum
    cases enum
  · rintro names old ⟨-, before, tied⟩ same published replace taken
    obtain ⟨drafted, hash, owner⟩ :=
      carryOver_facts backed names (options.owner.getD type.owner) old
    have some : strict → type.flags.isEnum = true → old.enumValues ≠ [] :=
      fun asked enum => (tied asked type listed enum same).resolve_right
        (not_not_intro ⟨replace, published, taken⟩)
    refine ⟨drafted.sound, ?_, fun asked other member enum own => .inl ?_⟩
    · cases enum : type.flags.isEnum with
      | false =>
        exact Image.carryOver_marked (Image.buildRow_marked backed marked names _ fun _ => enum) old
      | true =>
        have built : (Image.buildRow names type (options.owner.getD type.owner)).1.Marked False :=
          Image.buildRow_marked backed marked names _ False.elim
        exact { Image.carryOver_marked built old with
          alternative := fun asked _ => Image.enumValues_carryOver _ (some asked enum) }
    · rw [hash] at own
      rw [one other member own.symm] at enum
      exact Image.enumValues_carryOver _ (some asked enum)

end Registry

/-- A kind of merges: which images may be merged into which registries, and how. -/
abbrev MergeRule := Registry → ExportTable → List UInt8 → MergeOptions → Prop

namespace Archive

variable {u : Universe} {rule : MergeRule} {strict : Prop} {a b : Archive}

/-- What may be done to a registry: anything, but only images are merged that have been written
before, and in ways that a rule admits. -/
def Admits (rule : MergeRule) (a : Archive) (r : Registry) : Operation → Prop
  | .merge exports bytes options => bytes ∈ a.images ∧ rule r exports bytes options
  | _ => True

structure Turn (u : Universe) (rule : MergeRule) (a b : Archive) : Prop where
  step : Catalog.Step u a.catalog b.catalog
  changed : ∀ n, a.catalog.ChangedBy (a.Admits rule (a.catalog.registry n)) b.catalog n
  images : ∀ bytes ∈ b.images, bytes ∈ a.images ∨ a.Writes b bytes

theorem Turn.of_change {c d : Catalog} {images : List (List UInt8)} {n : Nat} {op : Operation}
    (step : Catalog.Step u c d) (after : d.registries = (c.change n op).registries)
    (admitted : Admits rule ⟨c, images⟩ (c.registry n) op) (permitted : c.Permits d n op) :
    Turn u rule ⟨c, images⟩ ⟨d, images⟩ where
  step := step
  changed := Catalog.changedBy_change_at _ n op admitted permitted after
  images _ := .inl

/-- The states that can be reached by merges of a kind, among all else. -/
abbrev Course (u : Universe) (rule : MergeRule) (a : Archive) : Prop :=
  Relation.ReflTransGen (Turn u rule) {} a

theorem Course.reachable (course : Course u rule a) : Catalog.Reachable u a.catalog :=
  Relation.ReflTransGen.lift Archive.catalog (fun _ _ turn => turn.step) _ _ course

/-- Whether the flags of all rows are those of their members, and those of all types in images. -/
structure Marked (strict : Prop) (a : Archive) : Prop where
  rows : ∀ n index row, (a.catalog.registry n).types.rowAt? index = some row →
    row.Sound ∧ row.Marked strict
  images : ∀ bytes ∈ a.images, ∀ later : ExportTable,
    a.catalog.exports.entries <+: later.entries →
      ∀ types, Image.decode later bytes = .ok types → ∀ type ∈ types, type.Marked

theorem empty_marked : Marked strict {} where
  rows n index row present := by simp [Catalog.registry] at present
  images := by simp

theorem Marked.rows_of_changed (marked : a.Marked strict)
    (reachable : Catalog.Reachable u a.catalog)
    (keeps : strict → ∀ r exports bytes options, rule r exports bytes options →
      r.KeepsAlternatives exports bytes options)
    {d : Catalog} {n : Nat}
    (changed : a.catalog.ChangedBy (a.Admits rule (a.catalog.registry n)) d n) :
    ∀ index row, (d.registry n).types.rowAt? index = some row → row.Sound ∧ row.Marked strict := by
  rcases changed with same | ⟨op, admitted, permitted, after⟩
  · rw [same]
    exact marked.rows n
  · have consistent := reachable.allConsistent n
    rw [after]
    cases op with
    | merge exports bytes options =>
      obtain rfl : exports = a.catalog.exports := permitted
      obtain ⟨written, admitted⟩ := admitted
      rcases Registry.merge_merged consistent a.catalog.exports bytes options with
        same | ⟨types, decoded, merged⟩
      · rw [Operation.run, same]
        exact marked.rows n
      · have keeps : strict → (a.catalog.registry n).KeepsAlternatives _ bytes options :=
          fun asked => keeps asked _ _ _ _ admitted
        have before : ∀ index row, (a.catalog.registry n).types.rowAt? index = some row →
            Registry.Marking strict options types row := fun index row present =>
          have known := marked.rows n index row present
          Registry.marking_of_keeps consistent keeps decoded present known.1 known.2
        have later := merged.forall_rows before consistent fun type listed backed =>
          Registry.brings_marking keeps decoded listed backed
            (marked.images bytes written _ List.prefix_rfl types decoded type listed)
        exact fun index row present =>
          have known := later index row present
          ⟨known.1, known.2.1⟩
    | skeleton u type owner =>
      exact Operation.forall_rows consistent (marked.rows n)
        ⟨Row.skeleton_sound _ _ _ _ _ _, .skeleton _ _ _ _⟩
    | commit h draft =>
      obtain ⟨p, -, -, -, collected⟩ := permitted
      refine Operation.forall_rows consistent (marked.rows n) fun old _ before => ?_
      exact ⟨Row.publish_sound before.1 (fun m listed => (collected.methods m listed).2)
        fun c listed => (collected.constructors c listed).2, before.2.publish draft⟩
    | _ => exact Operation.forall_rows consistent (marked.rows n) trivial

/-- An image that is written is marked as the rows that it is written from. -/
theorem Marked.image (marked : a.Marked strict) (reachable : Catalog.Reachable u a.catalog)
    {bytes : List UInt8} (writes : a.Writes b bytes) {later : ExportTable}
    (grown : b.catalog.exports.entries <+: later.entries) {types : List Image.ReadType}
    (decoded : Image.decode later bytes = .ok types) : ∀ type ∈ types, type.Marked := by
  obtain ⟨n, same, after, fits, aligned⟩ := writes
  have own : ∀ h row, (a.catalog.registry n).row? h = some row → row.Sound ∧ row.Marked strict :=
    fun h row shown => marked.rows n _ _ (Registry.rowAt?_of_row? shown)
  intro type listed
  rw [same] at decoded
  rw [after] at grown
  have whole := Catalog.decode_sections reachable (fun h row shown =>
    ⟨(own h row shown).1.methodArity, (own h row shown).1.constructorArity⟩) fits aligned grown
  obtain rfl := Except.ok.inj (decoded.symm.trans whole)
  obtain ⟨row, there, rfl⟩ := List.mem_map.mp listed
  obtain ⟨⟨h, row⟩, member, rfl⟩ := List.mem_map.mp there
  obtain ⟨sound, known⟩ := own h row (Registry.mem_publishedRows.mp member)
  exact known.image sound

theorem Turn.marked (turn : Turn u rule a b) (reachable : Catalog.Reachable u a.catalog)
    (keeps : strict → ∀ r exports bytes options, rule r exports bytes options →
      r.KeepsAlternatives exports bytes options) (marked : a.Marked strict) : b.Marked strict where
  rows n := marked.rows_of_changed reachable keeps (turn.changed n)
  images bytes listed later grown types decoded := by
    rcases turn.images bytes listed with old | writes
    · have before := Catalog.exports_grow reachable (.single turn.step)
      exact marked.images bytes old later (before.trans grown) types decoded
    · exact marked.image reachable writes grown decoded

theorem Course.marked (course : Course u rule a)
    (keeps : strict → ∀ r exports bytes options, rule r exports bytes options →
      r.KeepsAlternatives exports bytes options) : a.Marked strict := by
  induction course with
  | refl => exact empty_marked
  | tail before turn ih => exact turn.marked (Course.reachable before) keeps ih

/-- However types are registered, extended, removed, written and merged, a row is marked as
default-constructible exactly if it has a constructor without parameters, and then it can be
constructed without arguments. A row that has an alternative is marked as an enumeration; and one
that is marked has an alternative, as long as no merge brings an enumeration that has none. -/
theorem flags_are_those_of_members (course : Course u rule a) (n : Nat) {h : TypeHandle} {row : Row}
    (shown : (a.catalog.registry n).row? h = some row) :
    (row.flags.isDefaultConstructible = true ↔ ∃ c ∈ row.constructors, c.params = []) ∧
    (row.flags.isDefaultConstructible = true ↔
      ∃ call, (a.catalog.registry n).resolveConstructor h [] = .ok call) ∧
    (row.enumValues ≠ [] → row.flags.isEnum = true) ∧
    ((∀ r exports bytes options, rule r exports bytes options →
        r.KeepsAlternatives exports bytes options) →
      (row.flags.isEnum = true ↔ row.enumValues ≠ [])) := by
  have marked : a.Marked (∀ r exports bytes options, rule r exports bytes options →
      r.KeepsAlternatives exports bytes options) := course.marked id
  obtain ⟨sound, known⟩ := marked.rows n _ _ (Registry.rowAt?_of_row? shown)
  have constructible : row.flags.isDefaultConstructible = true ↔
      ∃ c ∈ row.constructors, c.params = [] :=
    ⟨known.constructible, fun ⟨c, listed, bare⟩ => sound.defaultFlag c listed bare⟩
  refine ⟨constructible, ?_, known.enumerated, fun keeps => ?_⟩
  · exact constructible.trans (Registry.resolveConstructor_default_iff shown).symm
  · exact ⟨known.alternative keeps, known.enumerated⟩

def unbegun : Catalog := { registries := [{}, {}] }

def begunLevel : Catalog := unbegun.begun Gallery.knownTypes 0 (.user "Level") .host

def levelPass : OpenPass := unbegun.firstPass Gallery.knownTypes 0 (.user "Level") .host

def alternativeName : Name := ((begunLevel.registry 0).intern "Low" .host).1

def makeLevel : Callable where
  number := 0
  access := .none
  params := []
  body object _ := ⟨.variant "Level" "Low", object⟩

def namedLevel : Catalog :=
  { begunLevel.change 0 (.intern "Low" .host) with
    passes := [{ levelPass with names := [alternativeName] }] }

def madeLevel : Catalog :=
  { namedLevel with
    nextNumber := 1
    passes := [{ levelPass with names := [alternativeName], made := [.callable makeLevel] }] }

/-- The draft of an enumeration that has an alternative and a constructor without parameters. -/
def levelDraft : Draft where
  enumValues := [⟨alternativeName, 0⟩]
  constructors := [⟨[], .empty, makeLevel, []⟩]

def describedLevel : Catalog :=
  { madeLevel.change 0 (.commit levelPass.pass.handle levelDraft) with passes := [] }

def writtenLevel : Archive where
  catalog := describedLevel.written 0
  images := [(describedLevel.sections 0).image]

theorem writtenLevel_course (rule : MergeRule) : Course Gallery.knownTypes rule writtenLevel := by
  have none : Turn Gallery.knownTypes rule {} ⟨{ registries := [{}] }, []⟩ :=
    ⟨.move (.create {}), fun n => Catalog.changedBy_create {} trivial n, fun _ => .inl⟩
  have two : Turn Gallery.knownTypes rule ⟨{ registries := [{}] }, []⟩ ⟨unbegun, []⟩ :=
    ⟨.move (.create {}), fun n => Catalog.changedBy_create {} trivial n, fun _ => .inl⟩
  have begun : Turn Gallery.knownTypes rule ⟨unbegun, []⟩ ⟨begunLevel, []⟩ :=
    .of_change (.move (.register .host (by decide) rfl)) rfl trivial rfl
  have named : Turn Gallery.knownTypes rule ⟨begunLevel, []⟩ ⟨namedLevel, []⟩ :=
    .of_change (.move (.enter (p := levelPass) rfl "Low")) rfl trivial trivial
  have made : Turn Gallery.knownTypes rule ⟨namedLevel, []⟩ ⟨madeLevel, []⟩ :=
    ⟨.move (.make (p := { levelPass with names := [alternativeName] }) rfl
      (e := .callable makeLevel) rfl), fun _ => .inl rfl, fun _ => .inl⟩
  have collected : levelDraft.MadeOf
      { levelPass with names := [alternativeName], made := [.callable makeLevel] } :=
    ⟨by simp [Draft.names, levelDraft], by simp [levelDraft], by simp [levelDraft],
      by simp [levelDraft]; rfl⟩
  have described : Turn Gallery.knownTypes rule ⟨madeLevel, []⟩ ⟨describedLevel, []⟩ :=
    .of_change (.move (.commit rfl collected)) rfl trivial ⟨_, rfl, rfl, rfl, collected⟩
  have aligned : ∀ shown ∈ (describedLevel.registry 0).publishedRows,
      shown.2.align.toNat < UInt32.size := by
    decide +kernel
  have fits : (describedLevel.sections 0).Fits := by
    constructor <;> decide +kernel
  have writes : (⟨describedLevel, []⟩ : Archive).Writes writtenLevel
      (describedLevel.sections 0).image :=
    ⟨0, rfl, rfl, fits, fun h row shown => aligned _ (Registry.mem_publishedRows.mpr shown)⟩
  have written : Turn Gallery.knownTypes rule ⟨describedLevel, []⟩ writtenLevel :=
    ⟨.move (.write 0), fun _ => .inl rfl, fun bytes listed =>
      .inr (List.mem_singleton.mp listed ▸ writes)⟩
  exact ((((((Relation.ReflTransGen.single none).tail two).tail begun).tail named).tail made).tail
    described).tail written

/-- The state after the image has been merged into the registry of a number. -/
def mergedLevel (n : Nat) (options : MergeOptions) : Archive :=
  { writtenLevel with
    catalog := writtenLevel.catalog.change n
      (.merge writtenLevel.catalog.exports (describedLevel.sections 0).image options) }

theorem mergedLevel_course {rule : MergeRule} {n : Nat} {options : MergeOptions}
    (admitted : rule (writtenLevel.catalog.registry n) writtenLevel.catalog.exports
      (describedLevel.sections 0).image options) :
    Course Gallery.knownTypes rule (mergedLevel n options) :=
  (writtenLevel_course rule).tail
    (.of_change (.overhaul (.merge _ options)) rfl ⟨List.mem_singleton_self _, admitted⟩ rfl)

/-- A row that is replaced by its own image is an enumeration with its alternative, and can be
constructed without arguments. -/
theorem replaced_level_marked :
    let r := (mergedLevel 0 { policy := .replace }).catalog.registry 0
    ∃ row call, r.row? ⟨⟨0, 1⟩⟩ = some row ∧ row.flags.isEnum = true ∧ row.enumValues ≠ [] ∧
      r.resolveConstructor ⟨⟨0, 1⟩⟩ [] = .ok call := by
  intro r
  have alternatives : (Image.decode writtenLevel.catalog.exports
      (describedLevel.sections 0).image).toOption.any (fun types => types.all fun type =>
        ((writtenLevel.catalog.registry 0).anyByHash? type.typeHash).any fun found =>
          !found.2.enumValues.isEmpty) = true := by
    decide +kernel
  have keeps : (writtenLevel.catalog.registry 0).KeepsAlternatives writtenLevel.catalog.exports
      (describedLevel.sections 0).image { policy := .replace } := by
    intro types decoded type listed _
    rw [decoded] at alternatives
    have own := List.all_eq_true.mp alternatives type listed
    obtain ⟨⟨h, old⟩, found, some⟩ := (Option.any_eq_true _ _).mp own
    exact ⟨h, old, found, .inl (by simpa using some)⟩
  have computed : (r.row? ⟨⟨0, 1⟩⟩).any (fun row =>
      row.flags.isDefaultConstructible && !row.enumValues.isEmpty) = true := by
    decide +kernel
  obtain ⟨row, shown, known⟩ := (Option.any_eq_true _ _).mp computed
  simp only [Bool.and_eq_true, Bool.not_eq_true', List.isEmpty_eq_false_iff] at known
  have course : Course Gallery.knownTypes Registry.KeepsAlternatives
      (mergedLevel 0 { policy := .replace }) := mergedLevel_course keeps
  obtain ⟨-, constructed, -, enumerated⟩ := flags_are_those_of_members course 0 shown
  obtain ⟨call, resolved⟩ := constructed.mp known.1
  exact ⟨row, call, shown, (enumerated fun _ _ _ _ => id).mpr known.2, known.2, resolved⟩

/-- A row that is merged into another registry is an enumeration without an alternative. -/
theorem merged_level_without_alternatives :
    Course Gallery.knownTypes (fun _ _ _ _ => True) (mergedLevel 1 {}) ∧
      (((mergedLevel 1 {}).catalog.registry 1).row? ⟨⟨0, 0⟩⟩).any (fun row =>
        row.flags.isEnum && row.enumValues.isEmpty) = true :=
  ⟨mergedLevel_course trivial, by decide +kernel⟩

end Archive

end TypeCatalog
