import TypeCatalog.Proofs.Portraying

/-!
Further passes over a type that has a row. A pass adds those of its members that the row does not
have, told apart by names, signatures and bases; what the row has stays in its place. So a pass that
is run again finds all of its members there, and adds nothing but its attributes.
-/
namespace TypeCatalog

section

variable {α β κ ρ σ : Type} [DecidableEq κ] {key : α → κ} {view : β → α} {taken : List κ}
  {items : List α}

/-- The items whose keys are neither taken nor those of earlier items, in order. -/
def unseen (key : α → κ) (taken : List κ) : List α → List α
  | [] => []
  | a :: rest =>
    if key a ∈ taken then unseen key taken rest else a :: unseen key (taken ++ [key a]) rest

/-- Adding items one after another to a list within a state, each unless its key is there, where
`look` shows what may change of the state. -/
theorem foldl_unseen (key : α → κ) (add : ρ → α → ρ) (look : ρ → σ) (held : σ → List α)
    (put : σ → List α → σ) (held_put : ∀ x l, held (put x l) = l)
    (put_put : ∀ x l m, put (put x l) m = put x m) (put_held : ∀ x, put x (held x) = x)
    (one : ∀ r a, look (add r a) = if (held (look r)).any (key · = key a) then look r
      else put (look r) (held (look r) ++ [a])) (items : List α) (r : ρ) :
    look (items.foldl add r) =
      put (look r) (held (look r) ++ unseen key ((held (look r)).map key) items) := by
  induction items generalizing r with
  | nil => rw [List.foldl_nil, unseen, List.append_nil, put_held]
  | cons a rest ih =>
    have there : (held (look r)).any (key · = key a) = true ↔ key a ∈ (held (look r)).map key := by
      simp
    rw [List.foldl_cons, ih, one, unseen]
    by_cases known : key a ∈ (held (look r)).map key
    · rw [if_pos (there.mpr known), if_pos known]
    · rw [if_neg (mt there.mp known), if_neg known, held_put, put_put, List.map_append,
        List.append_assoc, List.map_singleton, List.singleton_append]

/-- The key of each item is taken, or among those of the unseen ones. -/
theorem mem_of_unseen (key : α → κ) (taken : List κ) {a : α} (listed : a ∈ items) :
    key a ∈ taken ++ (unseen key taken items).map key := by
  induction items generalizing taken with
  | nil => cases listed
  | cons first rest ih =>
    rw [unseen]
    by_cases known : key first ∈ taken
    · rw [if_pos known]
      rcases List.mem_cons.mp listed with rfl | later
      · exact List.mem_append_left _ known
      · exact ih taken later
    · rw [if_neg known]
      rcases List.mem_cons.mp listed with rfl | later
      · exact List.mem_append_right _ (by simp)
      · simpa using ih (taken ++ [key first]) later

/-- Whether items have been added at the end of a list: of those that are given the unseen ones, as
far as a view of the items shows. -/
def AddsUnseen (view : β → α) (key : α → κ) (given : List α) (before after : List β) : Prop :=
  ∃ added, after = before ++ added ∧
    added.map view = unseen key ((before.map view).map key) given

theorem AddsUnseen.of_grown {before after : List β} (grown : before <+: after)
    (shown : after.map view =
      before.map view ++ unseen key ((before.map view).map key) items) :
    AddsUnseen view key items before after := by
  obtain ⟨added, rfl⟩ := grown
  rw [List.map_append, List.append_cancel_left_eq] at shown
  exact ⟨added, rfl, shown⟩

/-- The key of each item that is given is there in the end. -/
theorem AddsUnseen.held {before after : List β} (adds : AddsUnseen view key items before after)
    {a : α} (listed : a ∈ items) : ∃ b ∈ after, key (view b) = key a := by
  obtain ⟨added, rfl, shown⟩ := adds
  have there := mem_of_unseen key ((before.map view).map key) listed
  rw [← shown, ← List.map_append, ← List.map_append, List.map_map] at there
  exact List.mem_map.mp there

theorem foldl_idle {add : ρ → α → ρ} {r : ρ} (idle : ∀ a ∈ items, add r a = r) :
    items.foldl add r = r := by
  induction items with
  | nil => rfl
  | cons a rest ih =>
    rw [List.foldl_cons, idle a List.mem_cons_self]
    exact ih fun b later => idle b (List.mem_cons_of_mem a later)

end

namespace Row

variable {row old : Row} {draft declared : Draft}

/-- The members of a row, as a draft lists them. -/
def members (row : Row) : Draft where
  fields := row.fields
  properties := row.properties
  methods := row.methods
  constructors := row.constructors
  bases := row.bases
  enumValues := row.enumValues

/-- The members that a row has after those of a draft have been added. -/
def joined (row : Row) (draft : Draft) : Draft where
  fields := row.fields ++ unseen (·.name.text) (row.fields.map (·.name.text)) draft.fields
  properties :=
    row.properties ++ unseen (·.name.text) (row.properties.map (·.name.text)) draft.properties
  methods := row.methods ++ unseen Method.signature (row.methods.map Method.signature) draft.methods
  constructors := row.constructors ++
    unseen Constructor.signature (row.constructors.map Constructor.signature) draft.constructors
  bases := row.bases ++ unseen BaseLink.base (row.bases.map BaseLink.base) draft.bases
  enumValues :=
    row.enumValues ++ unseen EnumValue.name (row.enumValues.map EnumValue.name) draft.enumValues

/-- Each kind of members is added to its own list only. -/
theorem members_filled (row : Row) (draft : Draft) :
    (row.filled draft).members = row.joined draft := by
  have fields := foldl_unseen (fun f : Field => f.name.text) pushField members Draft.fields
    (fun d fields => { d with fields }) (fun _ _ => rfl) (fun _ _ _ => rfl) (fun _ => rfl)
    (fun _ _ => apply_ite members _ _ _) draft.fields
  have properties := foldl_unseen (fun p : Property => p.name.text) pushProperty members
    Draft.properties (fun d properties => { d with properties }) (fun _ _ => rfl)
    (fun _ _ _ => rfl) (fun _ => rfl) (fun _ _ => apply_ite members _ _ _) draft.properties
  have methods := foldl_unseen Method.signature pushMethod members Draft.methods
    (fun d methods => { d with methods }) (fun _ _ => rfl) (fun _ _ _ => rfl) (fun _ => rfl)
    (fun _ _ => apply_ite members _ _ _) draft.methods
  have constructors := foldl_unseen Constructor.signature addConstructor members Draft.constructors
    (fun d constructors => { d with constructors }) (fun _ _ => rfl) (fun _ _ _ => rfl)
    (fun _ => rfl) (fun _ _ => apply_ite members _ _ _) draft.constructors
  have bases := foldl_unseen BaseLink.base addBase members Draft.bases
    (fun d bases => { d with bases }) (fun _ _ => rfl) (fun _ _ _ => rfl) (fun _ => rfl)
    (fun _ _ => apply_ite members _ _ _) draft.bases
  have values := foldl_unseen EnumValue.name addEnumValue members Draft.enumValues
    (fun d enumValues => { d with enumValues }) (fun _ _ => rfl) (fun _ _ _ => rfl) (fun _ => rfl)
    (fun _ _ => apply_ite members _ _ _) draft.enumValues
  show (draft.enumValues.foldl addEnumValue _).members = _
  rw [values, bases, constructors, methods, properties, fields]
  rfl

/-- Whether a row has come of another by adding, at the end of each list of members, what a draft
without numbers declares of them: each unless a member of its name, signature or base is there, or
is declared before it. -/
structure TakesIn (old : Row) (declared : Draft) (new : Row) : Prop where
  fields : AddsUnseen Field.unnumbered (·.name.text) declared.fields old.fields new.fields
  properties : AddsUnseen Property.unnumbered (·.name.text) declared.properties old.properties
    new.properties
  methods : AddsUnseen Method.unnumbered Method.signature declared.methods old.methods new.methods
  constructors : AddsUnseen Constructor.unnumbered Constructor.signature declared.constructors
    old.constructors new.constructors
  bases : AddsUnseen id BaseLink.base declared.bases old.bases new.bases
  enumValues : AddsUnseen EnumValue.unnumbered EnumValue.name declared.enumValues old.enumValues
    new.enumValues

/-- Whether the key of each member of a draft is that of a member of a row, and the draft asks for
no other name. -/
structure Repeats (row : Row) (draft : Draft) : Prop where
  fields : ∀ f ∈ draft.fields, ∃ g ∈ row.fields, g.name.id = f.name.id
  properties : ∀ p ∈ draft.properties, ∃ q ∈ row.properties, q.name.id = p.name.id
  methods : ∀ m ∈ draft.methods, ∃ n ∈ row.methods, n.signature = m.signature
  constructors : ∀ c ∈ draft.constructors, ∃ d ∈ row.constructors, d.signature = c.signature
  bases : ∀ b ∈ draft.bases, ∃ c ∈ row.bases, c.base = b.base
  enumValues : ∀ e ∈ draft.enumValues, ∃ f ∈ row.enumValues, f.name = e.name
  name : ∀ name, draft.name = some name → name.id = row.name.id

/-- A draft that repeats what a row has brings nothing but its attributes. -/
theorem publish_repeated (sound : row.Sound) (published : row.published = true)
    (repeats : row.Repeats draft) :
    row.publish draft = { row with attributes := row.attributes ++ draft.attributes } := by
  have fields : draft.fields.foldl addField row = row := foldl_idle fun f listed => by
    have there := sound.fields.find?_isSome.mpr (List.mem_map.mpr (repeats.fields f listed))
    obtain ⟨position, found⟩ := Option.isSome_iff_exists.mp there
    rw [addField, fieldPosition?, found]
  have properties : draft.properties.foldl addProperty row = row := foldl_idle fun p listed => by
    have there := sound.properties.find?_isSome.mpr (List.mem_map.mpr (repeats.properties p listed))
    obtain ⟨position, found⟩ := Option.isSome_iff_exists.mp there
    rw [addProperty, propertyPosition?, found]
  have methods : draft.methods.foldl addMethod row = row := foldl_idle fun m listed =>
    if_pos (by simpa using repeats.methods m listed)
  have constructors : draft.constructors.foldl addConstructor row = row := foldl_idle
    fun c listed => if_pos (by simpa using repeats.constructors c listed)
  have bases : draft.bases.foldl addBase row = row := foldl_idle fun b listed =>
    if_pos (by simpa using repeats.bases b listed)
  have values : draft.enumValues.foldl addEnumValue row = row := foldl_idle fun e listed =>
    if_pos (by simpa using repeats.enumValues e listed)
  have name : row.renamed draft = row.name := by
    unfold renamed
    cases asked : draft.name with
    | none => rfl
    | some name => exact if_pos (repeats.name name asked)
  simp only [publish, fields, properties, methods, constructors, bases, values]
  show { row with
    attributes := row.attributes ++ draft.attributes
    name := row.renamed draft
    published := true } = _
  rw [name, ← published]

section

variable {names later : Interner}

theorem takesIn_publish (held : old.HeldIn names) (drafted : draft.NamedBy old.owner names) :
    old.TakesIn draft.unnumbered (old.publish draft) := by
  have shown := unnumbered_publish held.sound held.held drafted
  have joined := congrArg members shown
  rw [members_filled] at joined
  have grows := publish_grows old draft
  constructor
  · exact .of_grown grows.fields (congrArg Draft.fields joined)
  · exact .of_grown grows.properties (congrArg Draft.properties joined)
  · exact .of_grown grows.methods (congrArg Draft.methods joined)
  · exact .of_grown grows.constructors (congrArg Draft.constructors joined)
  · have bases : (old.publish draft).bases = _ := congrArg Draft.bases joined
    exact .of_grown grows.bases (by rw [List.map_id, List.map_id, bases]; rfl)
  · exact .of_grown grows.enumValues (congrArg Draft.enumValues joined)

theorem name_publish (held : old.HeldIn names) (drafted : draft.NamedBy old.owner names) {name : Name}
    (asked : draft.unnumbered.name = some name) : (old.publish draft).name.text = name.text := by
  have shown := congrArg Row.name (unnumbered_publish held.sound held.held drafted)
  have given : (old.unnumbered.filled draft.unnumbered).name = name := by
    simp only [filled, asked, Option.getD_some]
  have same : (old.publish draft).name.unnumbered = name := shown.trans given
  rw [← same]
  rfl

/-- What a row has taken in is there when it is declared again. -/
theorem TakesIn.repeats {new : Row} {again : Draft} (adds : old.TakesIn again.unnumbered new)
    (held : new.HeldIn names) (drafted : again.NamedBy new.owner names)
    (named : ∀ name, again.name = some name → new.name.text = name.text) : new.Repeats again where
  fields f listed := by
    obtain ⟨g, there, same⟩ := adds.fields.held (List.mem_map_of_mem listed)
    exact ⟨g, there, ((held.held _ (name_of_field there)).id_eq_iff
      (drafted _ (again.name_of_field listed))).mpr same⟩
  properties p listed := by
    obtain ⟨q, there, same⟩ := adds.properties.held (List.mem_map_of_mem listed)
    exact ⟨q, there, ((held.held _ (name_of_property there)).id_eq_iff
      (drafted _ (again.name_of_property listed))).mpr same⟩
  methods m listed := by
    obtain ⟨n, there, same⟩ := adds.methods.held (List.mem_map_of_mem listed)
    exact ⟨n, there, same⟩
  constructors c listed := by
    obtain ⟨d, there, same⟩ := adds.constructors.held (List.mem_map_of_mem listed)
    exact ⟨d, there, same⟩
  bases b listed := adds.bases.held listed
  enumValues e listed := by
    obtain ⟨f, there, same⟩ := adds.enumValues.held (List.mem_map_of_mem listed)
    exact ⟨f, there, ((held.held _ (name_of_enumValue there)).unnumbered_eq_iff
      (drafted _ (again.name_of_enumValue listed))).mp same⟩
  name name asked := by
    have own := drafted name (by simp [Draft.names, asked])
    exact (own.id_eq_iff (held.held _ List.mem_cons_self)).mpr (named name asked).symm

end

end Row

/-- A draft that repeats what a row has leaves all of the registry as it is, but for the attributes
of the row. -/
theorem Registry.commit_repeated {r : Registry} {h : TypeHandle} {row : Row} {draft : Draft}
    (there : r.anyRow? h = some row) (sound : row.Sound) (published : row.published = true)
    (repeats : row.Repeats draft) :
    r.commit h draft = { r with types := r.types.modify h.slot.index fun _ =>
      { row with attributes := row.attributes ++ draft.attributes } } := by
  rw [commit_eq there, Row.publish_repeated sound published repeats]
  dsimp only
  rw [if_pos published]
  exact if_pos rfl

namespace Script

open Play

variable {w : World} {n k : Nat} {family : List TypeKey} {s t v : Session} {type : TypeKey}
  {decls : List Decl} {h : TypeHandle} {old new : Row}

/-- The callables that a description declares take as many arguments as they say. -/
theorem arity_sketch (u : Universe) (type : TypeKey) (decls : List Decl) :
    let declared := decls.foldl (Decl.sketch u type) {}
    (∀ m ∈ declared.methods, m.callable.arity = m.params.length) ∧
      ∀ c ∈ declared.constructors, c.callable.arity = c.params.length := by
  refine List.foldlRecOn decls (Decl.sketch u type) (motive := fun d =>
    (∀ m ∈ d.methods, m.callable.arity = m.params.length) ∧
      ∀ c ∈ d.constructors, c.callable.arity = c.params.length) ?_ ?_
  · constructor
    · simp
    · simp
  intro d fits decl _
  cases decl with
  | method form name params result body notes =>
    refine ⟨forall_mem_push.mpr ⟨fits.1, ?_⟩, fits.2⟩
    exact (List.length_map _).symm
  | constructor params make notes =>
    refine ⟨fits.1, forall_mem_push.mpr ⟨fits.2, ?_⟩⟩
    exact (List.length_map _).symm
  | _ => exact fits

/-- A session in which a type has a published row, and the owner of the row holds all its names. -/
structure Session.Offers (s : Session) (n : Nat) (hash : TypeHash) (h : TypeHandle) (row : Row) :
    Prop where
  steady : s.Steady n none
  there : (s.registry n).anyByHash? hash = some (h, row)
  published : row.published = true
  held : row.HeldIn (s.registry n).names

namespace Session.Offers

theorem behind {hash : TypeHash} (offers : s.Offers n hash h old) :
    (s.registry n).anyRow? h = some old ∧ old.typeHash = hash :=
  offers.steady.consistent.of_anyByHash? offers.there

theorem row {hash : TypeHash} (offers : s.Offers n hash h old) :
    (s.registry n).row? h = some old :=
  Option.filter_eq_some_iff.mpr ⟨offers.behind.1, offers.published⟩

theorem of_attained {passes : List OpenPass} {u : Universe} {hash : TypeHash}
    (attained : Catalog.Attained u (s.catalog passes)) (within : n < s.registries.length)
    (there : (s.registry n).byHash? hash = some (h, old)) : s.Offers n hash h old := by
  obtain ⟨ended, kept⟩ := attained.kept
  obtain ⟨any, published⟩ := Option.filter_eq_some_iff.mp there
  have consistent := kept.consistent n
  have present := (SlotTable.get?_eq_some_iff.mp (consistent.of_anyByHash? any).1).1
  exact ⟨⟨within, consistent, nofun⟩, any, published, kept.rows n _ old present⟩

theorem open_ {hash : TypeHash} (offers : s.Offers n hash h old) : s.Steady n (some h) := by
  refine ⟨offers.steady.within, offers.steady.consistent, fun g same => ?_⟩
  cases same
  rw [offers.behind.1]
  exact nofun

/-- The type itself is one of those that are there already. -/
theorem lacking_cons (offers : s.Offers n (w.types.hash type) h old) :
    lacking w (type :: family) (s.registry n) = lacking w family (s.registry n) :=
  List.filter_cons_of_neg (by simp [offers.there])

theorem covers_cons (offers : s.Offers n (w.types.hash type) h old)
    (covers : w.Covers family (s.registry n)) : w.Covers (type :: family) (s.registry n) := by
  intro other lacks decl declared
  rw [offers.lacking_cons] at lacks
  exact (covers other lacks decl declared).imp_right (List.subset_cons_of_subset type)

theorem declaring (offers : s.Offers n (w.types.hash type) h old)
    (covers : w.Covers family (s.registry n))
    (few : (lacking w family (s.registry n)).length ≤ k) :
    Declaring w ⟨n, type, h, old.owner⟩ (type :: family) k s {} where
  steady := offers.open_
  covers := offers.covers_cons covers
  few := offers.lacking_cons.symm ▸ few
  known := ⟨_, offers.there⟩
  resolved := by simp [Draft.Resolved, Draft.references, typesOf]

theorem sketching (offers : s.Offers n (w.types.hash type) h old)
    (covers : w.Covers family (s.registry n)) :
    Sketching w ⟨n, type, h, old.owner⟩ (type :: family) s {} where
  steady := offers.steady
  covers := offers.covers_cons covers
  own := List.mem_cons_self
  named := by simp [Draft.NamedBy, Draft.names]

/-- The row of the type is found, the declarations are run, and the draft is folded into the row. -/
theorem outcome_extend (offers : s.Offers n (w.types.hash type) h old) {depth : Nat} {draft : Draft}
    (drafted : (decls.foldlM (declare w depth ⟨n, type, h, old.owner⟩) {}).outcome s =
      (.ok draft, v)) :
    (act w (depth + 2) n (.extend type decls)).outcome s =
      (.ok (.type ⟨n, h⟩), v.committing n h draft) := by
  have found : (register w (depth + 1) n .host type).outcome s = (.ok h, s) :=
    outcome_register_known offers.there
  have got : (Play.registry n).outcome s = (.ok (s.registry n), s) := rfl
  have described : (describe w (depth + 1) ⟨n, type, h, old.owner⟩ decls).outcome s =
      (.ok (), v.committing n h draft) := by
    rw [describe, outcome_bind_ok drafted]
    exact outcome_changeRegistry n (fun r => ((), r.commit h draft)) v
  rw [act, outcome_bind_ok found, outcome_bind_ok got, offers.row]
  exact outcome_bind_ok described

/-- What an extension of a type does before its draft is folded into the row: it is answered, with
the row as it was, and a draft of all that is declared under names that are held. -/
theorem drafts (offers : s.Offers n (w.types.hash type) h old)
    (plain : ∀ decl ∈ decls, decl.OnlyDeclares) (listed : ∀ decl ∈ decls, decl.mentions ⊆ family)
    (covers : w.Covers family (s.registry n))
    (few : (lacking w family (s.registry n)).length ≤ k) :
    ∃ draft v,
      (∀ depth, 3 * k + 3 < depth → (act w depth n (.extend type decls)).outcome s =
        (.ok (.type ⟨n, h⟩), v.committing n h draft)) ∧
      Portrayed w n (type :: family) s v ∧ draft.NamedBy old.owner (v.registry n).names ∧
      draft.unnumbered = decls.foldl (Decl.sketch w.types type) {} ∧
      ∀ decl ∈ decls, ∀ other ∈ decl.mentions, (v.registry n).Knows (w.types.hash other) := by
  have within : ∀ decl ∈ decls, decl.mentions ⊆ type :: family :=
    fun decl declared => List.subset_cons_of_subset type (listed decl declared)
  have admits : ∀ decl ∈ decls, ∀ other ∈ decl.mentions,
      w.Admits (type :: family) (fun _ => True) old.owner other :=
    fun decl declared other mentioned => ⟨within decl declared mentioned, fun _ _ => trivial⟩
  obtain ⟨draft, v, -, -, ends⟩ :=
    (offers.declaring covers few).enters_declares (registers_covered n k) plain admits
  have drafted := ends _ (Nat.le_refl _)
  obtain ⟨portrayed, named, known⟩ := (offers.sketching covers).portraying_declares
    (fun less _ => portraysAt n less) plain within draft v drafted
  refine ⟨draft, v, fun depth enough => ?_, portrayed, named,
    answers_sketches w _ _ decls {} s draft v drafted, known⟩
  obtain ⟨depth, rfl⟩ : ∃ d, depth = d + 2 := ⟨depth - 2, by omega⟩
  exact offers.outcome_extend (ends depth (by omega))

/-- The row that has taken in a draft is offered just as well. -/
theorem taken (offers : s.Offers n (w.types.hash type) h old) {draft : Draft}
    (portrayed : Portrayed w n family s v) (named : draft.NamedBy old.owner (v.registry n).names)
    (sketched : draft.unnumbered = decls.foldl (Decl.sketch w.types type) {}) :
    (v.committing n h draft).registry n = (v.registry n).commit h draft ∧
      (v.committing n h draft).Offers n (w.types.hash type) h (old.publish draft) ∧
      old.TakesIn draft.unnumbered (old.publish draft) := by
  obtain ⟨behind, hash⟩ := offers.behind
  have retained := portrayed.retained
  have steady := portrayed.steady offers.steady
  have here := registry_committing steady.within h draft
  have held : old.HeldIn (v.registry n).names := Row.heldIn_lasting.keeps offers.held retained.names
  obtain ⟨methods, constructors⟩ := arity_sketch w.types type decls
  rw [← sketched] at methods constructors
  have added : draft.HeldIn old.owner (v.registry n).names :=
    ⟨named, fun m listed => methods m.unnumbered (List.mem_map_of_mem listed),
      fun c listed => constructors c.unnumbered (List.mem_map_of_mem listed)⟩
  have consistent := Registry.commit_consistent steady.consistent h draft
  have found := consistent.anyByHash?_of_anyRow?
    (Registry.anyRow?_commit (retained.rows behind) draft)
  rw [(Row.publish_grows old draft).typeHash, hash] at found
  refine ⟨here, ⟨⟨?_, ?_, nofun⟩, ?_, rfl, ?_⟩, Row.takesIn_publish held named⟩
  · rw [Session.committing, List.length_set]
    exact steady.within
  · rw [here]
    exact consistent
  · rw [here]
    exact found
  · rw [here, Registry.names_commit]
    exact held.publish added

/-- When all that a pass refers to is there, it does nothing before its draft is folded into the row
but enter names. -/
theorem quiet {later : List TypeKey} (offers : s.Offers n (w.types.hash type) h old)
    (known : ∀ other ∈ later, (s.registry n).Knows (w.types.hash other))
    (portrayed : Portrayed w n (type :: later) s v) :
    ∃ names, v.registry n = { s.registry n with names } := by
  refine portrayed.quiet fun g absent => Option.eq_none_iff_forall_ne_some.mpr fun row there => ?_
  -- A new row would have the hash of a type that has a row already.
  obtain ⟨other, listed, hash, -⟩ := portrayed.rows absent there
  have there' : (s.registry n).Knows (w.types.hash other) := by
    rcases List.mem_cons.mp listed with rfl | mentioned
    · exact ⟨_, offers.there⟩
    · exact known other mentioned
  obtain ⟨⟨f, found⟩, before⟩ := there'
  have consistent := portrayed.retained.consistent
  have after := portrayed.retained.anyByHash? offers.steady.consistent before
  have here := consistent.anyByHash?_of_anyRow? there
  rw [hash, after] at here
  cases here
  rw [(offers.steady.consistent.of_anyByHash? before).1] at absent
  contradiction

end Session.Offers

/-- A pass over a type that is there, of declarations only, adds members to its row. The row keeps
the members that it had, in their places, and each kind of members goes on with those that the pass
declares, in order, but for such as repeat the name, the signature or the base of a member that was
there or that is declared before. The pass is answered, at every depth that leaves three levels for
each type of a family that holds all that the pass refers to; what the registry lacks of the family
need only be described by declarations, of types of the family. The same pass once more enters names
and adds its attributes to the row, and leaves all else of the registry as it is: the name and the
flags of the row, its members and indexes, and the tables of the registry. -/
theorem extension_adds_unseen_members {passes : List OpenPass}
    (attained : Catalog.Attained w.types (s.catalog passes)) (within : n < s.registries.length)
    (there : (s.registry n).byHash? (w.types.hash type) = some (h, old))
    (plain : ∀ decl ∈ decls, decl.OnlyDeclares) (listed : ∀ decl ∈ decls, decl.mentions ⊆ family)
    (covers : w.Covers family (s.registry n)) :
    ∃ t new t' attributes,
      (∀ depth, 3 * family.length + 3 < depth →
        (act w depth n (.extend type decls)).outcome s = (.ok (.type ⟨n, h⟩), t)) ∧
      (t.registry n).row? h = some new ∧
      old.TakesIn (decls.foldl (Decl.sketch w.types type) {}) new ∧
      (∀ depth, 3 < depth →
        (act w depth n (.extend type decls)).outcome t = (.ok (.type ⟨n, h⟩), t')) ∧
      (t'.registry n).row? h = some { new with attributes := new.attributes ++ attributes } ∧
      t'.registry n = { t.registry n with
        names := (t'.registry n).names
        types := (t.registry n).types.modify h.slot.index fun _ =>
          { new with attributes := new.attributes ++ attributes } } := by
  have offers : s.Offers n (w.types.hash type) h old := .of_attained attained within there
  obtain ⟨draft, v, answered, portrayed, named, sketched, known⟩ :=
    offers.drafts plain listed covers (List.length_filter_le _ _)
  obtain ⟨here, offered, takes⟩ := offers.taken portrayed named sketched
  let t : Session := v.committing n h draft
  let new := old.publish draft
  -- The second pass finds all that it refers to.
  let mentioned := decls.flatMap Decl.mentions
  have known' : ∀ other ∈ mentioned, (t.registry n).Knows (w.types.hash other) := by
    intro other member
    obtain ⟨decl, declared, mentions⟩ := List.mem_flatMap.mp member
    rw [here]
    exact (known decl declared other mentions).commit portrayed.retained.consistent h draft
  have within' : ∀ decl ∈ decls, decl.mentions ⊆ mentioned := fun decl declared other mentions =>
    List.mem_flatMap.mpr ⟨decl, declared, mentions⟩
  obtain ⟨again, v', answered', portrayed', named', sketched', -⟩ :=
    offered.drafts plain within' (.of_known known')
      (Nat.le_of_eq (congrArg List.length (lacking_of_known known')))
  obtain ⟨here', offered', -⟩ := offered.taken portrayed' named' sketched'
  obtain ⟨names, quiet⟩ := offered.quiet known' portrayed'
  have held : new.HeldIn (v'.registry n).names :=
    Row.heldIn_lasting.keeps offered.held portrayed'.retained.names
  have same : again.unnumbered = draft.unnumbered := sketched'.trans sketched.symm
  have repeats : new.Repeats again := by
    refine Row.TakesIn.repeats (same ▸ takes) held named' fun name asked => ?_
    have before : draft.unnumbered.name = some name.unnumbered := by
      rw [← same, Draft.unnumbered, asked]
      rfl
    have kept := Row.heldIn_lasting.keeps offers.held portrayed.retained.names
    have given := Row.name_publish kept named before
    exact given
  have alive := portrayed'.retained.rows offered.behind.1
  have after := Registry.commit_repeated alive held.sound rfl repeats
  have row := Row.publish_repeated held.sound rfl repeats
  refine ⟨t, new, _, again.attributes, answered, offered.row, sketched ▸ takes, answered', ?_, ?_⟩
  · rw [← row]
    exact offered'.row
  · rw [here', after, quiet]

/-- A session with one registry, in which a type without members has been described. -/
def typeThere : Session :=
  let begun := (oneRegistry.catalog []).begun Gallery.knownTypes 0 (.user "B") .host
  { oneRegistry with registries := (begun.change 0 (.commit ⟨0, 0⟩ {})).registries }

open Catalog in
theorem attained_typeThere : Attained Gallery.knownTypes (typeThere.catalog []) := by
  let u := Gallery.knownTypes
  let one := oneRegistry.catalog []
  let p := one.firstPass u 0 (.user "B") .host
  have created : QuietStep u {} one := .move (.create {})
  have begun : QuietStep u one (one.begun u 0 (.user "B") .host) :=
    .move (.register .host Nat.one_pos rfl)
  have ended : QuietStep u (one.begun u 0 (.user "B") .host) (typeThere.catalog []) :=
    .move (.commit (p := p) rfl (Draft.empty_madeOf p))
  exact .quiet (((Relation.ReflTransGen.single created).tail begun).tail ended)

/-- Of two alternatives of one name the type gets the first, and neither when they are declared
again; of two fields likewise. -/
theorem repeated_members_left_out :
    let w := describing []
    let pass : List Decl := [.setName "zoo::C", .enumValue "x" 1, .enumValue "x" 2,
      .field "n" Gallery.i32 .whole none [], .field "n" (.user "A") .whole none []]
    let run (s : Session) := (act w 12 0 (.extend (.user "B") pass)).outcome s
    ∃ t t' new, run typeThere = (.ok (.type ⟨0, ⟨0, 0⟩⟩), t) ∧
      run t = (.ok (.type ⟨0, ⟨0, 0⟩⟩), t') ∧ (t.registry 0).row? ⟨0, 0⟩ = some new ∧
      new.enumValues.map (fun e => (e.name.text, e.value)) = [("x", 1)] ∧
      new.fields.map (fun f => (f.name.text, f.type)) = [("n", w.types.hash Gallery.i32)] ∧
      (t'.registry 0).byName = (t.registry 0).byName := by
  intro w pass run
  have plain : ∀ decl ∈ pass, decl.OnlyDeclares := by simp [pass, Decl.OnlyDeclares]
  have listed : ∀ decl ∈ pass, decl.mentions ⊆ [Gallery.i32, .user "A"] := by
    simp [pass, Decl.mentions]
  have covers : w.Covers [Gallery.i32, .user "A"] (typeThere.registry 0) := by
    intro type _ decl declared
    simp [w, describing] at declared
  have bare : ((typeThere.registry 0).byHash? (w.types.hash (.user "B"))).any (fun found =>
      found.1 = ⟨0, 0⟩ && found.2.fields.isEmpty && found.2.enumValues.isEmpty) = true := by
    decide +kernel
  obtain ⟨⟨h, old⟩, there, facts⟩ := (Option.any_eq_true _ _).mp bare
  simp only [Bool.and_eq_true, decide_eq_true_eq, List.isEmpty_iff] at facts
  obtain ⟨⟨rfl, fields⟩, values⟩ := facts
  obtain ⟨t, new, t', _, first, row, takes, second, -, after⟩ :=
    extension_adds_unseen_members attained_typeThere Nat.one_pos there plain listed covers
  obtain ⟨added, grown, shown⟩ := takes.fields
  obtain ⟨added', grown', shown'⟩ := takes.enumValues
  rw [fields, List.nil_append] at grown
  rw [values, List.nil_append] at grown'
  subst grown grown'
  refine ⟨t, t', new, first 12 (by decide), second 12 (by decide), row, ?_, ?_, by rw [after]⟩
  · have texts := congrArg (List.map fun e => (e.name.text, e.value)) shown'
    rw [values, List.map_map] at texts
    exact texts.trans (by decide +kernel)
  · have texts := congrArg (List.map fun f => (f.name.text, f.type)) shown
    rw [fields, List.map_map] at texts
    exact texts.trans (by decide +kernel)

/-- A pass that declares a method gives the type an alternative as well, when it refers to a type
whose description extends the other. -/
theorem alternative_added_on_the_way :
    let w := describing [.run [.mk "" none (.extend (.user "B") [.enumValue "x" 1])]]
    let pass : List Decl :=
      [.method .shared "m" [.user "A"] Gallery.i32 (fun object _ => ⟨object, object⟩) []]
    let ran := (act w 12 0 (.extend (.user "B") pass)).outcome typeThere
    Catalog.Attained w.types (typeThere.catalog []) ∧
      ran.1.toOption.isSome = true ∧ (∀ decl ∈ pass, decl.OnlyDeclares) ∧
      ∃ old new,
        (typeThere.registry 0).byHash? (w.types.hash (.user "B")) = some (⟨0, 0⟩, old) ∧
        (ran.2.registry 0).row? ⟨0, 0⟩ = some new ∧
        ¬ old.TakesIn (pass.foldl (Decl.sketch w.types (.user "B")) {}) new := by
  intro w pass ran
  refine ⟨attained_typeThere, by decide +kernel, by simp [pass, Decl.OnlyDeclares], ?_⟩
  have bare : ((typeThere.registry 0).byHash? (w.types.hash (.user "B"))).any (fun found =>
      found.1 = ⟨0, 0⟩ && found.2.enumValues.isEmpty) = true := by
    decide +kernel
  have filled :
      ((ran.2.registry 0).row? ⟨0, 0⟩).any (fun row => !row.enumValues.isEmpty) = true := by
    decide +kernel
  obtain ⟨⟨h, old⟩, there, facts⟩ := (Option.any_eq_true _ _).mp bare
  simp only [Bool.and_eq_true, decide_eq_true_eq, List.isEmpty_iff] at facts
  obtain ⟨rfl, none⟩ := facts
  obtain ⟨new, alive, some⟩ := (Option.any_eq_true _ _).mp filled
  refine ⟨old, new, there, alive, fun takes => ?_⟩
  obtain ⟨added, grown, shown⟩ := takes.enumValues
  -- No alternative is declared, so none can have been added.
  have nothing : added = [] := List.map_eq_nil_iff.mp shown
  rw [none, nothing] at grown
  rw [grown] at some
  cases some

end Script

end TypeCatalog
