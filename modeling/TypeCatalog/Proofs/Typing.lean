import TypeCatalog.Proofs.Conversions
import TypeCatalog.Proofs.Declarations
import TypeCatalog.Proofs.Pending
import TypeCatalog.Proofs.RoundTrip

/-!
Typed rows. A description collects callables under the types that they really take, and links to
bases that are really embedded in its type; functions are added in the same way, and images are merged
that have been written before. So each row is that of one type, and shows its callables and links as
they are, wherever it came from. What a script declares is collected in that way when it runs.
-/
namespace TypeCatalog

/-- What a method with these flags needs of an object of its type. -/
def MethodFlags.access (owner : TypeKey) (flags : MethodFlags) : Access :=
  if flags.isStatic then .none else if flags.isMutating then .exclusive owner else .shared owner

namespace Program

/-- Whether a link leads from a type to a base that is embedded in each of its objects. -/
structure Links (P : Program) (type : TypeKey) (link : BaseLink) : Prop where
  owner : link.part.owner = type
  base : link.base = P.facts.hash link.part.target
  known : link.part.target ∈ P.types
  view : ∀ object ∈ P.values, object.typeOf = type →
    link.part.lens.view object ∈ P.values ∧
      (link.part.lens.view object).typeOf = link.part.target

/-- Whether these can be members of a type. -/
structure Declares (P : Program) (type : TypeKey) (methods : List Method)
    (constructors : List Constructor) (bases : List BaseLink) : Prop where
  methods : ∀ m ∈ methods, P.Shows (m.flags.access type) m.callable m.params
  constructors : ∀ c ∈ constructors, P.Shows .none c.callable c.params
  bases : ∀ b ∈ bases, P.Links type b

/-- Whether a row is that of a type. -/
structure Describes (P : Program) (type : TypeKey) (row : Row) : Prop where
  known : type ∈ P.types
  hash : row.typeHash = P.facts.hash type
  members : P.Declares type row.methods row.constructors row.bases

/-- Whether what an image holds is a type. -/
structure Holds (P : Program) (type : TypeKey) (read : Image.ReadType) : Prop where
  known : type ∈ P.types
  hash : read.typeHash = P.facts.hash type
  methods : ∀ m ∈ read.methods, P.Shows (m.flags.access type) m.callable m.params
  constructors : ∀ c ∈ read.constructors, P.Shows .none c.callable c.params

variable {P : Program} {type other : TypeKey} {row : Row}

theorem Shows.arity {access : Access} {callable : Callable} {params : List TypeHash}
    (shows : P.Shows access callable params) : callable.arity = params.length := by
  rw [shows.params, List.length_map]
  rfl

theorem Declares.of_within {methods : List Method} {constructors : List Constructor}
    {bases : List BaseLink} {fields : List Field}
    (declares : P.Declares type methods constructors bases)
    (within : row.Within fields methods constructors bases) :
    P.Declares type row.methods row.constructors row.bases where
  methods m listed := declares.methods m (within.methods listed)
  constructors c listed := declares.constructors c (within.constructors listed)
  bases b listed := declares.bases b (within.bases listed)

theorem Declares.append {methods methods' : List Method}
    {constructors constructors' : List Constructor} {bases bases' : List BaseLink}
    (first : P.Declares type methods constructors bases)
    (second : P.Declares type methods' constructors' bases') :
    P.Declares type (methods ++ methods') (constructors ++ constructors') (bases ++ bases') where
  methods := List.forall_mem_append.mpr ⟨first.methods, second.methods⟩
  constructors := List.forall_mem_append.mpr ⟨first.constructors, second.constructors⟩
  bases := List.forall_mem_append.mpr ⟨first.bases, second.bases⟩

theorem Describes.eq_of_hash (describes : P.Describes type row) (known : other ∈ P.types)
    (same : row.typeHash = P.facts.hash other) : type = other :=
  P.distinct describes.known known (describes.hash.symm.trans same)

theorem Describes.publish (describes : P.Describes type row) {draft : Draft}
    (collected : P.Declares type draft.methods draft.constructors draft.bases) :
    P.Describes type (row.publish draft) where
  known := describes.known
  hash := (Row.publish_grows row draft).typeHash.trans describes.hash
  members := (describes.members.append collected).of_within (Row.within_publish row draft)

theorem describes_skeletonRow (r : Registry) (known : type ∈ P.types) (owner : ModuleId) :
    P.Describes type (r.skeletonRow P.facts type owner) where
  known := known
  hash := rfl
  members := ⟨by simp [Registry.skeletonRow], by simp [Registry.skeletonRow],
    by simp [Registry.skeletonRow]⟩

/-- An image holds what the rows are that it was written from. -/
theorem Describes.holds (describes : P.Describes type row) : P.Holds type (.of row) where
  known := describes.known
  hash := describes.hash
  methods := by
    intro m listed
    obtain ⟨own, there, rfl⟩ := List.mem_map.mp listed
    exact describes.members.methods own there
  constructors := by
    intro c listed
    obtain ⟨own, there, rfl⟩ := List.mem_map.mp listed
    exact describes.members.constructors own there

/-- A type that an image holds is merged into a row of that type. The bases of the row that was
there are those of the same type. -/
theorem Holds.yields {read : Image.ReadType} {exports : ExportTable} (holds : P.Holds type read)
    (backed : read.Backed exports) :
    Image.Yields (fun row => ∃ type, P.Describes type row) read := by
  have built : ∀ names owner, P.Declares type (Image.buildRow names read owner).1.methods
      (Image.buildRow names read owner).1.constructors
      (Image.buildRow names read owner).1.bases := by
    intro names owner
    have built := Image.buildRow_built names read owner
    refine ⟨fun m listed => ?_, fun c listed => ?_, by simp [built.bases]⟩
    · obtain ⟨own, there, params, flags, callable⟩ := built.methods m listed
      rw [params, flags, callable]
      exact holds.methods own there
    · obtain ⟨own, there, params, callable⟩ := built.constructors c listed
      rw [params, callable]
      exact holds.constructors own there
  refine ⟨fun names owner => ⟨type, holds.known, ?_, built names owner⟩, ?_⟩
  · exact (Registry.typeHash_buildRow backed names owner).trans holds.hash
  · rintro names owner old ⟨before, describes⟩ same
    have one := describes.eq_of_hash holds.known (same.trans holds.hash)
    subst one
    refine ⟨before, holds.known, ?_, ?_⟩
    · exact (Registry.carryOver_facts backed names owner old).2.1.trans holds.hash
    · have kept : P.Declares before [] [] old.bases :=
        ⟨by simp, by simp, describes.members.bases⟩
      have all := (built names owner).append kept
      rw [List.append_nil, List.append_nil] at all
      exact all.of_within (Image.within_carryOver _ old)

end Program

/-- The registries, and the images that have been written of them. -/
structure Archive where
  catalog : Catalog := {}
  images : List (List UInt8) := []

/-- Whether an image is what a step writes. An image can only be read again if its counts fit into
their fields, and the alignments of its types too. -/
def Archive.Writes (a b : Archive) (bytes : List UInt8) : Prop :=
  ∃ n, bytes = (a.catalog.sections n).image ∧ b.catalog = a.catalog.written n ∧
    (a.catalog.sections n).Fits ∧
    ∀ h row, (a.catalog.registry n).row? h = some row → row.align.toNat < UInt32.size

theorem Catalog.Reachable.functionsFree {u : Universe} {c : Catalog} (reachable : Reachable u c)
    (n : Nat) : (c.registry n).functions.FreeExact := by
  induction reachable generalizing n with
  | refl => exact SlotTable.empty_freeExact
  | tail before step ih =>
    rcases step.changed n with same | ⟨op, -, -, after⟩
    · exact same ▸ ih n
    · exact after ▸ op.functions_free (Reachable.allConsistent before n) (ih n)

namespace Program

variable (P : Program)

/-- What a change may bring into a registry: functions that are shown as they are, rows of types
and what the innermost description has collected for its type, and images written before. -/
def Allows (a : Archive) : Operation → Prop
  | .addFunction _ _ params _ callable => P.Shows .none callable params
  | .skeleton u type _ => u = P.facts ∧ type ∈ P.types
  | .commit _ draft => ∀ p rest, a.catalog.passes = p :: rest →
      P.Declares p.pass.type draft.methods draft.constructors draft.bases
  | .merge _ bytes _ => bytes ∈ a.images
  | _ => True

/-- Whether the handle that a description has leads to the row of its type, if to any. -/
structure Follows (c : Catalog) (p : Script.Pass) : Prop where
  known : p.type ∈ P.types
  hash : ∀ row, (c.registry p.registry).anyRow? p.handle = some row →
    row.typeHash = P.facts.hash p.type

structure Step (a b : Archive) : Prop where
  step : Catalog.Step P.facts a.catalog b.catalog
  changed : ∀ n, a.catalog.ChangedBy (P.Allows a) b.catalog n
  /-- A description is begun with the handle of the row of its type. -/
  begun : ∀ p ∈ b.catalog.passes, (∃ q ∈ a.catalog.passes, q.pass = p.pass) ∨
    P.Follows b.catalog p.pass
  /-- No slot comes round to a generation that an open description still refers to. -/
  lasting : ∀ p ∈ a.catalog.passes,
    (a.catalog.registry p.pass.registry).anyRow? p.pass.handle = none →
      (b.catalog.registry p.pass.registry).anyRow? p.pass.handle = none
  images : ∀ bytes ∈ b.images, bytes ∈ a.images ∨ a.Writes b bytes

variable {P} in
/-- An allowed change, while the rows of all open descriptions are there. -/
theorem Step.of_change {c d : Catalog} {images : List (List UInt8)} {n : Nat} {op : Operation}
    (step : Catalog.Step P.facts c d) (after : d.registries = (c.change n op).registries)
    (allowed : P.Allows ⟨c, images⟩ op) (permitted : c.Permits d n op)
    (begun : ∀ p ∈ d.passes, (∃ q ∈ c.passes, q.pass = p.pass) ∨ P.Follows d p.pass)
    (there : ∀ p ∈ c.passes, ((c.registry p.pass.registry).anyRow? p.pass.handle).isSome = true) :
    P.Step ⟨c, images⟩ ⟨d, images⟩ where
  step := step
  changed := Catalog.changedBy_change n op allowed permitted after
  begun := begun
  lasting p running dead := by
    have alive := there p running
    rw [dead] at alive
    cases alive
  images bytes listed := .inl listed

/-- The states that can be reached. -/
abbrev Run (a : Archive) : Prop := Relation.ReflTransGen P.Step {} a

/-- Whether an image brings types only, to whoever knows at least these slots. -/
def Reads (exports : ExportTable) (bytes : List UInt8) : Prop :=
  ∀ later : ExportTable, exports.entries <+: later.entries →
    ∀ types, Image.decode later bytes = .ok types → ∀ read ∈ types, ∃ type, P.Holds type read

/-- What is known of all registries, images and open descriptions. -/
structure Typed (a : Archive) : Prop where
  rows : ∀ n index row, (a.catalog.registry n).types.rowAt? index = some row →
    ∃ type, P.Describes type row
  functions : ∀ n index row, (a.catalog.registry n).functions.rowAt? index = some row →
    P.Shows .none row.callable row.params
  images : ∀ bytes ∈ a.images, P.Reads a.catalog.exports bytes
  passes : ∀ p ∈ a.catalog.passes, P.Follows a.catalog p.pass

variable {P} {a b : Archive}

theorem empty_typed : P.Typed {} where
  rows n index row present := by simp [Catalog.registry] at present
  functions n index row present := by simp [Catalog.registry] at present
  images := by simp
  passes := by simp

theorem Run.reachable (run : P.Run a) : Catalog.Reachable P.facts a.catalog :=
  Relation.ReflTransGen.lift Archive.catalog (fun _ _ step => step.step) _ _ run

/-- A handle that leads to rows before and after a change leads to one type. -/
theorem typeHash_of_changed {c d : Catalog} {n : Nat} {h : TypeHandle} {row later : Row}
    (consistent : (c.registry n).Consistent) (changed : c.Changed d n)
    (before : (c.registry n).anyRow? h = some row) (after : (d.registry n).anyRow? h = some later) :
    later.typeHash = row.typeHash := by
  rcases changed with same | ⟨op, -, -, run⟩
  · rw [same, before] at after
    cases after
    rfl
  · obtain ⟨present, generation⟩ := SlotTable.get?_eq_some_iff.mp before
    obtain ⟨present', generation'⟩ := SlotTable.get?_eq_some_iff.mp after
    rw [run] at present' generation'
    rcases op.types_succeed consistent h.slot.index with ⟨-, kept⟩ | next
    · obtain ⟨grown, there, grows⟩ := kept row present
      cases Option.some.inj (present'.symm.trans there)
      exact grows.typeHash
    · exact absurd next (SlotTable.generationAt_ne (generation'.trans generation.symm))

theorem Reads.later {exports later : ExportTable} {bytes : List UInt8}
    (reads : P.Reads exports bytes) (grown : exports.entries <+: later.entries) : P.Reads later bytes :=
  fun most more => reads most (grown.trans more)

namespace Typed

theorem rows_of_changed (typed : P.Typed a) (reachable : Catalog.Reachable P.facts a.catalog)
    {d : Catalog} {n : Nat} (changed : a.catalog.ChangedBy (P.Allows a) d n) :
    ∀ index row, (d.registry n).types.rowAt? index = some row → ∃ type, P.Describes type row := by
  rcases changed with same | ⟨op, allowed, permitted, after⟩
  · rw [same]
    exact typed.rows n
  · rw [after]
    refine op.forall_rows (reachable.allConsistent n) (typed.rows n) ?_
    cases op with
    | skeleton u type owner =>
      obtain ⟨rfl, known⟩ := allowed
      exact ⟨type, describes_skeletonRow _ known owner⟩
    | commit h draft =>
      obtain ⟨p, top, rfl, rfl, -⟩ := permitted
      rintro old alive ⟨type, describes⟩
      have follows := typed.passes p (top ▸ List.mem_cons_self)
      have one := describes.eq_of_hash follows.known (follows.hash old alive)
      exact ⟨type, describes.publish (one ▸ allowed p _ top)⟩
    | merge exports bytes options =>
      obtain rfl : exports = a.catalog.exports := permitted
      intro types decoded read listed backed
      obtain ⟨type, holds⟩ := typed.images bytes allowed _ List.prefix_rfl types decoded read listed
      exact .of_yields (holds.yields backed) _ _
    | _ => trivial

theorem functions_of_changed (typed : P.Typed a)
    (reachable : Catalog.Reachable P.facts a.catalog) {d : Catalog} {n : Nat}
    (changed : a.catalog.ChangedBy (P.Allows a) d n) :
    ∀ index row, (d.registry n).functions.rowAt? index = some row →
      P.Shows .none row.callable row.params := by
  rcases changed with same | ⟨op, allowed, -, after⟩
  · rw [same]
    exact typed.functions n
  · rw [after]
    refine op.forall_functions (reachable.allConsistent n) (reachable.functionsFree n)
      (typed.functions n) fun row adds => ?_
    cases op with
    | addFunction owner name params returnType callable =>
      obtain ⟨rfl, rfl⟩ := adds
      exact allowed
    | _ => exact adds.elim

/-- An image that is written brings types only. -/
theorem reads_of_writes (typed : P.Typed a) (reachable : Catalog.Reachable P.facts a.catalog)
    {bytes : List UInt8} (writes : a.Writes b bytes) : P.Reads b.catalog.exports bytes := by
  obtain ⟨n, same, after, fits, aligned⟩ := writes
  have described : ∀ h row, (a.catalog.registry n).row? h = some row →
      ∃ type, P.Describes type row :=
    fun h row own => typed.rows n _ _ (Registry.rowAt?_of_row? own)
  intro later grown types decoded read listed
  rw [same] at decoded
  rw [after] at grown
  have whole := Catalog.decode_sections reachable (fun h row own => by
    obtain ⟨type, describes⟩ := described h row own
    exact ⟨fun m listed => (describes.members.methods m listed).arity,
      fun c listed => (describes.members.constructors c listed).arity⟩) fits aligned grown
  obtain rfl := Except.ok.inj (decoded.symm.trans whole)
  obtain ⟨row, there, rfl⟩ := List.mem_map.mp listed
  obtain ⟨⟨h, own⟩, member, rfl⟩ := List.mem_map.mp there
  obtain ⟨type, describes⟩ := described h own (Registry.mem_publishedRows.mp member)
  exact ⟨type, describes.holds⟩

end Typed

/-- A description still follows the row of its type. -/
theorem Follows.next {p : OpenPass} (step : P.Step a b)
    (reachable : Catalog.Reachable P.facts a.catalog) (running : p ∈ a.catalog.passes)
    (follows : P.Follows a.catalog p.pass) : P.Follows b.catalog p.pass where
  known := follows.known
  hash later alive := by
    cases before : (a.catalog.registry p.pass.registry).anyRow? p.pass.handle with
    | none => cases (step.lasting p running before).symm.trans alive
    | some row =>
      have one := typeHash_of_changed (reachable.allConsistent _) (step.step.changed _) before alive
      exact one.trans (follows.hash row before)

theorem Step.typed (step : P.Step a b) (reachable : Catalog.Reachable P.facts a.catalog)
    (typed : P.Typed a) : P.Typed b where
  rows n := typed.rows_of_changed reachable (step.changed n)
  functions n := typed.functions_of_changed reachable (step.changed n)
  images bytes listed := by
    rcases step.images bytes listed with old | writes
    · exact (typed.images bytes old).later
        (Catalog.exports_grow reachable (.single step.step))
    · exact typed.reads_of_writes reachable writes
  passes p running := by
    rcases step.begun p running with ⟨q, before, same⟩ | follows
    · exact same ▸ Follows.next step reachable before (typed.passes q before)
    · exact follows

theorem Run.typed (run : P.Run a) : P.Typed a := by
  induction run with
  | refl => exact empty_typed
  | tail before step ih => exact step.typed (Run.reachable before) ih

section

variable {c : Catalog} {images : List (List UInt8)} {n : Nat} {h : TypeHandle}
  (there : ∀ p ∈ c.passes, ((c.registry p.pass.registry).anyRow? p.pass.handle).isSome = true)

include there

/-- A description is begun for a type that is not there. -/
theorem Step.register (reachable : Catalog.Reachable P.facts c) (owner : ModuleId)
    (within : n < c.registries.length) (known : type ∈ P.types)
    (absent : (c.registry n).anyByHash? (P.facts.hash type) = none) :
    P.Step ⟨c, images⟩ ⟨c.begun P.facts n type owner, images⟩ := by
  refine .of_change (.move (.register owner within absent)) rfl ⟨rfl, known⟩ absent
    (fun p running => ?_) there
  rcases List.mem_cons.mp running with rfl | open_
  · refine .inr ⟨known, fun row alive => ?_⟩
    have own : ((c.begun P.facts n type owner).registry n).anyRow? _ = _ :=
      Catalog.anyRow?_firstPass within (reachable.allConsistent n).free rfl
    cases own.symm.trans alive
    rfl
  · exact .inl ⟨p, open_, rfl⟩

/-- A further description is begun with the row of its type. -/
theorem Step.extend (reachable : Catalog.Reachable P.facts c) (within : n < c.registries.length)
    (known : type ∈ P.types)
    (found : (c.registry n).anyByHash? (P.facts.hash type) = some (h, row)) :
    P.Step ⟨c, images⟩ ⟨{ c with passes := c.laterPass n type h :: c.passes }, images⟩ where
  step := .move (.extend type h within)
  changed _ := .inl rfl
  begun p running := by
    rcases List.mem_cons.mp running with rfl | open_
    · refine .inr ⟨known, fun other alive => ?_⟩
      obtain ⟨own, same⟩ := (reachable.allConsistent n).of_anyByHash? found
      cases Option.some.inj (own.symm.trans alive)
      exact same
    · exact .inl ⟨p, open_, rfl⟩
  lasting p running dead := by
    have alive := there p running
    rw [dead] at alive
    cases alive
  images bytes listed := .inl listed

/-- The innermost description is ended with members of its type. -/
theorem Step.commit {p : OpenPass} {rest : List OpenPass} {draft : Draft}
    (top : c.passes = p :: rest) (collected : draft.MadeOf p)
    (declared : P.Declares p.pass.type draft.methods draft.constructors draft.bases) :
    P.Step ⟨c, images⟩
      ⟨{ c.change p.pass.registry (.commit p.pass.handle draft) with passes := rest }, images⟩ := by
  refine .of_change (.move (.commit top collected)) rfl ?_ ⟨p, top, rfl, rfl, collected⟩ ?_ there
  · intro q others same
    cases top.symm.trans same
    exact declared
  · exact fun q running => .inl ⟨q, top ▸ List.mem_cons_of_mem p running, rfl⟩

end

/-- Whether a declaration is of members of a type: its parameters are types, and its base is
embedded in each object. -/
def Fits (P : Program) (type : TypeKey) : Script.Decl → Prop
  | .method _ _ params _ _ _ | .constructor params _ _ => ∀ param ∈ params, param ∈ P.types
  | .base target lens => P.Links type ⟨P.facts.hash target, type, target, lens⟩
  | _ => True

open Script Play

/-- A declaration that is run adds members of its type. -/
theorem answers_declare (w : World) (same : w.types = P.facts) (depth : Nat) (p : Script.Pass)
    {d : Draft} (declares : P.Declares p.type d.methods d.constructors d.bases) {decl : Decl}
    (fits : P.Fits p.type decl) : Answers (declare w depth p d decl) fun e =>
      P.Declares p.type e.methods e.constructors e.bases := by
  cases depth with
  | zero =>
    rw [declare.eq_def]
    exact answers_throw _
  | succ depth =>
    rw [declare.eq_def]
    cases decl with
    | base target lens =>
      refine .after _ fun _ => answers_pure ?_
      refine ⟨declares.methods, declares.constructors, ?_⟩
      rw [same]
      exact List.forall_mem_append.mpr ⟨declares.bases, List.forall_mem_singleton.mpr fits⟩
    | method form name params result body notes =>
      refine .after _ fun _ => .after _ fun _ => .after _ fun name => .after _ fun number => ?_
      refine .after _ fun attributes => answers_pure ?_
      refine ⟨List.forall_mem_append.mpr ⟨declares.methods, ?_⟩, declares.constructors,
        declares.bases⟩
      refine List.forall_mem_singleton.mpr ⟨?_, by rw [same], fits⟩
      cases form <;> rfl
    | constructor params make notes =>
      refine .after _ fun _ => .after _ fun _ => .after _ fun number => ?_
      refine .after _ fun attributes => answers_pure ?_
      refine ⟨declares.methods, List.forall_mem_append.mpr ⟨declares.constructors, ?_⟩,
        declares.bases⟩
      exact List.forall_mem_singleton.mpr ⟨rfl, by rw [same], fits⟩
    | setName name => exact .after _ fun _ => answers_pure declares
    | annotate key value => exact .after _ fun _ => answers_pure declares
    | enumValue name value => exact .after _ fun _ => answers_pure declares
    | field name target lens offset notes =>
      refine .after _ fun _ => .after _ fun _ => .after _ fun _ => .after _ fun _ => ?_
      exact answers_pure declares
    | property name target getter setter notes =>
      refine .after _ fun _ => .after _ fun _ => .after _ fun _ => ?_
      exact answers_pure declares
    | probe => exact .after _ fun _ => .after _ fun _ => answers_pure declares
    | panic => exact answers_throw _
    | run steps => exact .after _ fun _ => answers_pure declares

/-- All that a description collects is of its type. -/
theorem answers_foldlM_declare (w : World) (same : w.types = P.facts) (depth : Nat)
    (p : Script.Pass) {d : Draft} (declares : P.Declares p.type d.methods d.constructors d.bases)
    {decls : List Decl} (fits : ∀ decl ∈ decls, P.Fits p.type decl) :
    Answers (decls.foldlM (declare w depth p) d) fun e =>
      P.Declares p.type e.methods e.constructors e.bases := by
  induction decls generalizing d with
  | nil => exact answers_pure declares
  | cons first rest ih =>
    obtain ⟨fit, others⟩ := List.forall_mem_cons.mp fits
    rw [List.foldlM_cons]
    exact (answers_declare w same depth p declares fit).bind fun _ more => ih more others

end Program

end TypeCatalog
