import TypeCatalog.Proofs.Attributes
import TypeCatalog.Proofs.Bookkeeping

/-!
What a row refers to, and what stays of a registry to which types are added. The members of a row
refer to the types of fields, properties, parameters, answers and bases. Adding the row of a type,
and publishing it later, leaves every other row where it was, and the functions with their tables.
-/
namespace TypeCatalog

/-- The hashes of the types that members are of. -/
def typesOf (fields : List Field) (properties : List Property) (methods : List Method)
    (constructors : List Constructor) (bases : List BaseLink) : List TypeHash :=
  fields.map Field.type ++ properties.map Property.type ++
    methods.flatMap (fun m => m.params ++ [m.returnType]) ++
    constructors.flatMap Constructor.params ++ bases.map BaseLink.base

theorem forall_typesOf {Q : TypeHash → Prop} {fields : List Field} {properties : List Property}
    {methods : List Method} {constructors : List Constructor} {bases : List BaseLink} :
    (∀ hash ∈ typesOf fields properties methods constructors bases, Q hash) ↔
      (∀ f ∈ fields, Q f.type) ∧ (∀ p ∈ properties, Q p.type) ∧
        (∀ m ∈ methods, (∀ hash ∈ m.params, Q hash) ∧ Q m.returnType) ∧
        (∀ c ∈ constructors, ∀ hash ∈ c.params, Q hash) ∧ ∀ b ∈ bases, Q b.base := by
  simp only [typesOf, List.forall_mem_append, List.forall_mem_map, List.forall_mem_flatMap,
    List.forall_mem_singleton, and_assoc]

def Draft.references (draft : Draft) : List TypeHash :=
  typesOf draft.fields draft.properties draft.methods draft.constructors draft.bases

namespace Row

def references (row : Row) : List TypeHash :=
  typesOf row.fields row.properties row.methods row.constructors row.bases

/-- A published row refers to what it referred to before, and to what its draft does. -/
theorem publish_references {Q : TypeHash → Prop} {row : Row} (all : ∀ hash ∈ row.references, Q hash)
    {draft : Draft} (drafted : ∀ hash ∈ draft.references, Q hash) :
    ∀ hash ∈ (row.publish draft).references, Q hash := by
  unfold references at all ⊢
  rw [Draft.references] at drafted
  rw [forall_typesOf] at all drafted ⊢
  obtain ⟨fields, properties, methods, constructors, bases⟩ := drafted
  refine publish_induction (P := fun r => (∀ f ∈ r.fields, Q f.type) ∧
    (∀ p ∈ r.properties, Q p.type) ∧
    (∀ m ∈ r.methods, (∀ hash ∈ m.params, Q hash) ∧ Q m.returnType) ∧
    (∀ c ∈ r.constructors, ∀ hash ∈ c.params, Q hash) ∧ ∀ b ∈ r.bases, Q b.base)
    all ?_ ?_ ?_ ?_ ?_ ?_ ?_
  · intro r h f listed
    unfold addField
    split
    · exact h
    · exact ⟨forall_mem_push.mpr ⟨h.1, fields f listed⟩, h.2⟩
  · intro r h p listed
    unfold addProperty
    split
    · exact h
    · exact ⟨h.1, forall_mem_push.mpr ⟨h.2.1, properties p listed⟩, h.2.2⟩
  · intro r h m listed
    unfold addMethod
    split
    · exact h
    · exact ⟨h.1, h.2.1, forall_mem_push.mpr ⟨h.2.2.1, methods m listed⟩, h.2.2.2⟩
  · intro r h c listed
    unfold addConstructor
    split
    · exact h
    · exact ⟨h.1, h.2.1, h.2.2.1,
        forall_mem_push.mpr ⟨h.2.2.2.1, constructors c listed⟩, h.2.2.2.2⟩
  · intro r h b listed
    unfold addBase
    split
    · exact h
    · exact ⟨h.1, h.2.1, h.2.2.1, h.2.2.2.1,
        forall_mem_push.mpr ⟨h.2.2.2.2, bases b listed⟩⟩
  · intro r h e _
    unfold addEnumValue
    split <;> exact h
  · exact fun r h => h

end Row

namespace Registry

variable {r s t : Registry} {h : TypeHandle} {row : Row}

/-- Whether some row, pending or published, has a hash. -/
def Knows (r : Registry) (hash : TypeHash) : Prop := ∃ found, r.anyByHash? hash = some found

/-- Whether what a registry holds is still held later: each row, pending or published, behind its
handle, the names, the functions, and what the modules have but for the number of types of those
that new rows belong to. -/
structure RetainedIn (r s : Registry) : Prop where
  consistent : s.Consistent
  rows : ∀ {h row}, r.anyRow? h = some row → s.anyRow? h = some row
  names : r.names.Keeps s.names
  functionTables : s.functionTables = r.functionTables
  entries : ∀ m, { s.entry m with types := (r.entry m).types } = r.entry m
  strangers : ∀ m, (∀ h row, r.anyRow? h = none → s.anyRow? h = some row → row.owner ≠ m) →
    s.moduleInfo? m = r.moduleInfo? m

namespace RetainedIn

theorem refl (consistent : r.Consistent) : r.RetainedIn r :=
  ⟨consistent, id, .refl _, rfl, fun _ => rfl, fun _ _ => rfl⟩

theorem absent (retained : r.RetainedIn s) (absent : s.anyRow? h = none) : r.anyRow? h = none :=
  Option.eq_none_iff_forall_ne_some.mpr fun _ there =>
    nomatch absent.symm.trans (retained.rows there)

theorem trans (first : r.RetainedIn s) (second : s.RetainedIn t) : r.RetainedIn t where
  consistent := second.consistent
  rows there := second.rows (first.rows there)
  names := first.names.trans second.names
  functionTables := second.functionTables.trans first.functionTables
  entries m := by rw [← first.entries m, ← second.entries m]
  strangers m new :=
    (second.strangers m fun h row absent there => new h row (first.absent absent) there).trans
      (first.strangers m fun h row absent there => new h row absent (second.rows there))

theorem anyByHash? (retained : r.RetainedIn s) (consistent : r.Consistent) {hash : TypeHash}
    {found : TypeHandle × Row} (there : r.anyByHash? hash = some found) :
    s.anyByHash? hash = some found := by
  obtain ⟨here, rfl⟩ := consistent.of_anyByHash? there
  exact retained.consistent.anyByHash?_of_anyRow? (retained.rows here)

theorem knows (retained : r.RetainedIn s) (consistent : r.Consistent) {hash : TypeHash}
    (known : r.Knows hash) : s.Knows hash :=
  known.imp fun _ => retained.anyByHash? consistent

end RetainedIn

theorem retainedIn_withNames (consistent : r.Consistent) {names : Interner}
    (keeps : r.names.Keeps names) : r.RetainedIn { r with names } :=
  ⟨consistent.withNames names, id, keeps, rfl, fun _ => rfl, fun _ _ => rfl⟩

theorem moduleInfo?_addTypeTo {m k : ModuleId} (other : k ≠ m) :
    (r.addTypeTo m).moduleInfo? k = r.moduleInfo? k :=
  (Index.find?_insert _ _ _ _).trans (if_neg other)

/-- The count of a module's types is all that a new row changes in the bookkeeping. -/
theorem entry_addTypeTo (r : Registry) (m k : ModuleId) :
    { (r.addTypeTo m).entry k with types := (r.entry k).types } = r.entry k := by
  rw [addTypeTo, entry_updateModule]
  split
  · rename_i same
    rw [same]
  · rfl

theorem moduleInfo?_insertRow (r : Registry) {row : Row} {m : ModuleId} (other : m ≠ row.owner) :
    (r.insertRow row).2.moduleInfo? m = r.moduleInfo? m := by
  rw [insertRow_eq]
  dsimp only
  split
  · rw [moduleInfo?_addTypeTo other, moduleInfo?, modules_indexName]
    rfl
  · rw [moduleInfo?, modules_indexName]
    rfl

theorem entry_insertRow (r : Registry) (row : Row) (m : ModuleId) :
    { (r.insertRow row).2.entry m with types := (r.entry m).types } = r.entry m := by
  have same : ∀ (k : Registry) (name index), (k.indexName name index).entry m = k.entry m :=
    fun k name index => entry_congr (modules_indexName k name index) m
  rw [insertRow_eq]
  dsimp only
  split
  · have added := entry_addTypeTo
      (Registry.indexName { r with
        types := (r.types.insert row).2
        byHash := r.byHash.insert row.typeHash (r.types.insert row).1.index }
      row.name.id (r.types.insert row).1.index) row.owner m
    rw [same] at added
    exact added
  · rw [same]
    rfl

theorem retainedIn_insertRow (consistent : r.Consistent)
    (absent : r.byHash.find? row.typeHash = none) : r.RetainedIn (r.insertRow row).2 where
  consistent := insertRow_consistent consistent absent
  rows {h old} there := by
    have different : h ≠ (r.insertRow row).1 := by
      rintro rfl
      rw [anyRow?_insertRow_new consistent.free] at there
      contradiction
    rwa [anyRow?_insertRow consistent.free, if_neg different]
  names := by
    rw [names_insertRow]
    exact .refl _
  functionTables := functionTables_insertRow r row
  strangers m new := by
    have added := anyRow?_insertRow consistent.free row (r.insertRow row).1
    rw [if_pos rfl] at added
    have other := new (r.insertRow row).1 row (anyRow?_insertRow_new consistent.free row) added
    exact moduleInfo?_insertRow r other.symm
  entries := entry_insertRow r row

theorem retainedIn_insertSkeleton (consistent : r.Consistent) {u : Universe} {type : TypeKey}
    (owner : ModuleId) (absent : r.anyByHash? (u.hash type) = none) :
    r.RetainedIn (r.insertSkeleton u type owner).2 := by
  rw [insertSkeleton_eq]
  exact (retainedIn_withNames consistent (Interner.Entered.intern .none _).keeps).trans
    (retainedIn_insertRow (consistent.withNames _) (consistent.anyByHash?_eq_none absent))

theorem anyRow?_insertSkeleton (consistent : r.Consistent) (u : Universe) (type : TypeKey)
    (owner : ModuleId) (other : TypeHandle) :
    (r.insertSkeleton u type owner).2.anyRow? other =
      if other = (r.insertSkeleton u type owner).1 then some (r.skeletonRow u type owner)
      else r.anyRow? other := by
  rw [insertSkeleton_eq]
  exact anyRow?_insertRow (consistent.withNames _).free _ other

theorem anyRow?_new (consistent : r.Consistent) (u : Universe) (type : TypeKey)
    (owner : ModuleId) : r.anyRow? (r.insertSkeleton u type owner).1 = none := by
  rw [insertSkeleton_eq]
  exact anyRow?_insertRow_new (consistent.withNames _).free _

/-- Publishing one row leaves the others. -/
theorem anyRow?_commit_of_ne (alive : r.anyRow? h = some row) {other : TypeHandle}
    (different : other ≠ h) (draft : Draft) :
    (r.commit h draft).anyRow? other = r.anyRow? other := by
  have elsewhere : ∀ {s : Registry} {a b}, s.anyRow? h = some a → s.anyRow? other = some b →
      other.slot.index ≠ h.slot.index := by
    intro s a b here there same
    have equal : other.slot = h.slot := SlotTable.ref_unique there here same
    exact different (congrArg TypeHandle.mk equal)
  have apart : other.slot.index ≠ h.slot.index →
      (r.commit h draft).anyRow? other = r.anyRow? other := by
    intro index
    rw [anyRow?, types_commit alive, SlotTable.get?_modify_of_ne _ index]
    rfl
  cases before : r.anyRow? other with
  | some row => rw [apart (elsewhere alive before), before]
  | none =>
    cases after : (r.commit h draft).anyRow? other with
    | none => rfl
    | some row => rw [← after, apart (elsewhere (anyRow?_commit alive draft) after), before]

/-- A type that is there when a row is published is there afterwards. -/
theorem Knows.commit {hash : TypeHash} (known : r.Knows hash) (consistent : r.Consistent)
    (h : TypeHandle) (draft : Draft) : (r.commit h draft).Knows hash := by
  obtain ⟨⟨other, row⟩, found⟩ := known
  obtain ⟨here, rfl⟩ := consistent.of_anyByHash? found
  have later := commit_consistent consistent h draft
  cases alive : r.anyRow? h with
  | none => exact ⟨_, by rw [commit_dead alive]; exact found⟩
  | some old =>
    by_cases same : other = h
    · subst same
      cases Option.some.inj (here.symm.trans alive)
      rw [← (Row.publish_grows row draft).typeHash]
      exact ⟨_, later.anyByHash?_of_anyRow? (anyRow?_commit alive draft)⟩
    · rw [← anyRow?_commit_of_ne alive same draft] at here
      exact ⟨_, later.anyByHash?_of_anyRow? here⟩

theorem moduleInfo?_commit {old : Row} (alive : r.anyRow? h = some old) {m : ModuleId}
    (other : m ≠ old.owner) (draft : Draft) :
    (r.commit h draft).moduleInfo? m = r.moduleInfo? m := by
  have grown : m ≠ (old.publish draft).owner := (Row.publish_grows old draft).owner ▸ other
  rw [commit_eq alive]
  dsimp only
  split
  · rw [moduleInfo?, modules_exchange]
    rfl
  · rw [moduleInfo?_addTypeTo grown, moduleInfo?, modules_exchange]
    rfl

theorem entry_commit (r : Registry) (h : TypeHandle) (draft : Draft) (m : ModuleId) :
    { (r.commit h draft).entry m with types := (r.entry m).types } = r.entry m := by
  have same : ∀ types index a b, (r.exchange types index a b).entry m = r.entry m :=
    fun types index a b => entry_congr (modules_exchange r types index a b) m
  cases alive : r.anyRow? h with
  | none => rw [commit_dead alive]
  | some old =>
    rw [commit_eq alive]
    dsimp only
    split
    · rw [same]
    · have added := entry_addTypeTo (r.exchange (r.types.modify h.slot.index fun _ =>
        old.publish draft) h.slot.index old (old.publish draft)) (old.publish draft).owner m
      rw [same] at added
      exact added

/-- Publishing a row that was not there before leaves all that was. -/
theorem RetainedIn.commit (retained : r.RetainedIn s) (new : r.anyRow? h = none)
    (draft : Draft) : r.RetainedIn (s.commit h draft) where
  consistent := commit_consistent retained.consistent h draft
  rows {other row} there := by
    cases alive : s.anyRow? h with
    | none => rw [commit_dead alive]; exact retained.rows there
    | some old =>
      have different : other ≠ h := by
        rintro rfl
        rw [new] at there
        contradiction
      rw [anyRow?_commit_of_ne alive different]
      exact retained.rows there
  names := by
    rw [names_commit]
    exact retained.names
  functionTables := (functionTables_commit s h draft).trans retained.functionTables
  strangers m strange := by
    cases alive : s.anyRow? h with
    | none =>
      rw [commit_dead alive] at strange ⊢
      exact retained.strangers m strange
    | some old =>
      have here := strange h (old.publish draft) new (anyRow?_commit alive draft)
      rw [(Row.publish_grows old draft).owner] at here
      refine (moduleInfo?_commit alive here.symm draft).trans ?_
      refine retained.strangers m fun other row absent there => ?_
      by_cases same : other = h
      · subst same
        cases Option.some.inj (there.symm.trans alive)
        exact here
      · exact strange other row absent ((anyRow?_commit_of_ne alive same draft).trans there)
  entries m := by
    rw [← retained.entries m, ← entry_commit s h draft m]

end Registry

namespace Draft

/-- Whether there is a row for all that a draft refers to. -/
def Resolved (d : Draft) (r : Registry) : Prop := ∀ hash ∈ d.references, r.Knows hash

namespace Resolved

variable {d : Draft} {r s : Registry}

theorem retained (resolved : d.Resolved r) (retained : r.RetainedIn s) (consistent : r.Consistent) :
    d.Resolved s :=
  fun hash listed => retained.knows consistent (resolved hash listed)

theorem addField (resolved : d.Resolved r) {f : Field} (known : r.Knows f.type) :
    Draft.Resolved { d with fields := d.fields ++ [f] } r :=
  have old := forall_typesOf.mp resolved
  forall_typesOf.mpr ⟨forall_mem_push.mpr ⟨old.1, known⟩, old.2⟩

theorem addProperty (resolved : d.Resolved r) {p : Property} (known : r.Knows p.type) :
    Draft.Resolved { d with properties := d.properties ++ [p] } r :=
  have old := forall_typesOf.mp resolved
  forall_typesOf.mpr ⟨old.1, forall_mem_push.mpr ⟨old.2.1, known⟩, old.2.2⟩

theorem addMethod (resolved : d.Resolved r) {m : Method} (params : ∀ hash ∈ m.params, r.Knows hash)
    (returnType : r.Knows m.returnType) :
    Draft.Resolved { d with methods := d.methods ++ [m] } r :=
  have old := forall_typesOf.mp resolved
  forall_typesOf.mpr
    ⟨old.1, old.2.1, forall_mem_push.mpr ⟨old.2.2.1, params, returnType⟩, old.2.2.2⟩

theorem addConstructor (resolved : d.Resolved r) {c : Constructor}
    (params : ∀ hash ∈ c.params, r.Knows hash) :
    Draft.Resolved { d with constructors := d.constructors ++ [c] } r :=
  have old := forall_typesOf.mp resolved
  forall_typesOf.mpr
    ⟨old.1, old.2.1, old.2.2.1, forall_mem_push.mpr ⟨old.2.2.2.1, params⟩, old.2.2.2.2⟩

theorem addBase (resolved : d.Resolved r) {b : BaseLink} (known : r.Knows b.base) :
    Draft.Resolved { d with bases := d.bases ++ [b] } r :=
  have old := forall_typesOf.mp resolved
  forall_typesOf.mpr
    ⟨old.1, old.2.1, old.2.2.1, old.2.2.2.1, forall_mem_push.mpr ⟨old.2.2.2.2, known⟩⟩

end Resolved

end Draft

end TypeCatalog
