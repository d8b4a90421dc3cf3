import TypeCatalog.Proofs.Closure
import TypeCatalog.Proofs.Portraits

/-!
What registrations leave in a registry when descriptions only declare members. Whatever pulls a type
in, and however deeply that is nested, the row that is published for it is the portrait of the type,
and all that its description mentions is there by then.
-/
namespace TypeCatalog

namespace Registry

theorem config_indexName (r : Registry) (name : NameId) (index : Nat) :
    (r.indexName name index).config = r.config := by
  unfold indexName
  split <;> rfl

theorem config_insertSkeleton (r : Registry) (u : Universe) (type : TypeKey) (owner : ModuleId) :
    (r.insertSkeleton u type owner).2.config = r.config := by
  rw [insertSkeleton_eq, insertRow_eq]
  dsimp only
  split
  · exact config_indexName _ _ _
  · exact config_indexName _ _ _

theorem config_commit (r : Registry) (h : TypeHandle) (draft : Draft) :
    (r.commit h draft).config = r.config := by
  have moved : ∀ types index old new, (r.exchange types index old new).config = r.config := by
    intro types index old new
    unfold exchange
    split
    · rfl
    · rw [config_indexName]
      unfold unindexName
      repeat' split
      all_goals rfl
  cases alive : r.anyRow? h with
  | none => rw [commit_dead alive]
  | some old =>
    rw [commit_eq alive]
    dsimp only
    split
    · exact moved _ _ _ _
    · exact moved _ _ _ _

end Registry

namespace Script

open Play

variable {α β : Type} {w : World} {n : Nat} {family : List TypeKey} {s t v : Session}

/-- Whether a row is the portrait of a type of a family, and all that the description of the type
mentions is there. -/
def World.Portrays (w : World) (family : List TypeKey) (r : Registry) (row : Row) : Prop :=
  ∃ type ∈ family, row.typeHash = w.types.hash type ∧
    row.unnumbered = w.portrait r.config type row.owner ∧
    ∀ decl ∈ (w.describe type).decls, ∀ other ∈ decl.mentions, r.Knows (w.types.hash other)

theorem World.Portrays.retained {r r' : Registry} {row : Row} (portrays : w.Portrays family r row)
    (retained : r.RetainedIn r') (consistent : r.Consistent) (config : r'.config = r.config) :
    w.Portrays family r' row := by
  obtain ⟨type, listed, hash, same, known⟩ := portrays
  exact ⟨type, listed, hash, config ▸ same, fun decl declared other mentioned =>
    retained.knows consistent (known decl declared other mentioned)⟩

/-- What there is to be seen of a session in which types of a family have been registered: the rows
that were there are, and each new one is a portrait. -/
structure Portrayed (w : World) (n : Nat) (family : List TypeKey) (s t : Session) : Prop where
  count : t.registries.length = s.registries.length
  config : (t.registry n).config = (s.registry n).config
  retained : (s.registry n).RetainedIn (t.registry n)
  rows : ∀ {h row}, (s.registry n).anyRow? h = none → (t.registry n).anyRow? h = some row →
    w.Portrays family (t.registry n) row
  /-- All else that happens is that names are entered. -/
  quiet : (∀ h, (s.registry n).anyRow? h = none → (t.registry n).anyRow? h = none) →
    ∃ names, t.registry n = { s.registry n with names }

namespace Portrayed

theorem steady (portrayed : Portrayed w n family s t) (steady : s.Steady n none) :
    t.Steady n none :=
  ⟨portrayed.count ▸ steady.within, portrayed.retained.consistent, nofun⟩

theorem trans (first : Portrayed w n family s t) (second : Portrayed w n family t v) :
    Portrayed w n family s v where
  count := second.count.trans first.count
  config := second.config.trans first.config
  retained := first.retained.trans second.retained
  rows {h row} absent there := by
    cases middle : (t.registry n).anyRow? h with
    | none => exact second.rows middle there
    | some old =>
      cases Option.some.inj ((second.retained.rows middle).symm.trans there)
      exact (first.rows absent middle).retained second.retained first.retained.consistent
        second.config
  quiet none := by
    obtain ⟨names, last⟩ := second.quiet fun h absent => none h (first.retained.absent absent)
    obtain ⟨_, before⟩ := first.quiet fun h absent => second.retained.absent (none h absent)
    exact ⟨names, by rw [last, before]⟩

/-- Entering names adds no rows. -/
theorem names (steady : s.Steady n none) {names : Interner} (keeps : (s.registry n).names.Keeps names)
    (after : t.registries = s.registries.set n { s.registry n with names }) :
    Portrayed w n family s t := by
  have here : t.registry n = { s.registry n with names } := by
    rw [Session.registry, after]
    exact registry_set steady.within { s.registry n with names } s.nextNumber s.told
  constructor
  · rw [after, List.length_set]
  · rw [here]
  · rw [here]
    exact Registry.retainedIn_withNames steady.consistent keeps
  · intro h row absent there
    rw [here] at there
    cases absent.symm.trans there
  · exact fun _ => ⟨names, here⟩

theorem still (steady : s.Steady n none) (same : t.registries = s.registries) :
    Portrayed w n family s t :=
  names steady (.refl _) (same.trans (registries_set_registry s n).symm)

end Portrayed

/-- Whether whatever a computation answers is fit, and all that it has added to a registry are
portraits of types of a family. -/
def Play.Portraying (w : World) (n : Nat) (family : List TypeKey) (x : Play α) (s : Session)
    (fits : α → Registry → Prop) : Prop :=
  ∀ a t, x.outcome s = (.ok a, t) → Portrayed w n family s t ∧ fits a (t.registry n)

namespace Play

variable {fits : α → Registry → Prop} {fits' : β → Registry → Prop} {x : Play α} {f : α → Play β}

theorem portraying_pure (steady : s.Steady n none) {a : α} (fit : fits a (s.registry n)) :
    Portraying w n family (pure a) s fits := by
  intro b t done
  cases done
  exact ⟨.still steady rfl, fit⟩

theorem Portraying.bind (steady : s.Steady n none) (first : Portraying w n family x s fits)
    (next : ∀ a t, t.Steady n none → (s.registry n).RetainedIn (t.registry n) → fits a (t.registry n) →
      Portraying w n family (f a) t fits') : Portraying w n family (x >>= f) s fits' := by
  intro b v done
  obtain ⟨a, t, begun, done⟩ := outcome_bind_eq_ok done
  obtain ⟨portrayed, fit⟩ := first a t begun
  obtain ⟨later, fit'⟩ := next a t (portrayed.steady steady) portrayed.retained fit b v done
  exact ⟨portrayed.trans later, fit'⟩

/-- The types that are there stay. -/
theorem Portraying.knowing (steady : s.Steady n none) (first : Portraying w n family x s fits)
    {types : List TypeKey} (known : ∀ type ∈ types, (s.registry n).Knows (w.types.hash type)) :
    Portraying w n family x s fun a r =>
      fits a r ∧ ∀ type ∈ types, r.Knows (w.types.hash type) := by
  intro a t done
  obtain ⟨portrayed, fit⟩ := first a t done
  exact ⟨portrayed, fit, fun type listed =>
    portrayed.retained.knows steady.consistent (known type listed)⟩

theorem portraying_still (steady : s.Steady n none) (still : Still x) :
    Portraying w n family x s fun _ _ => True := by
  intro a t done
  have same := congrArg Session.registries (still s)
  rw [done] at same
  exact ⟨.still steady same, trivial⟩

theorem portraying_fresh (steady : s.Steady n none) :
    Portraying w n family fresh s fun _ _ => True := by
  intro a t done
  cases done
  exact ⟨.still steady rfl, trivial⟩

theorem portraying_names (steady : s.Steady n none) {change : Registry → α × Registry}
    (quiet : ∃ names, (s.registry n).names.Keeps names ∧
      (change (s.registry n)).2 = { s.registry n with names }) :
    Portraying w n family (changeRegistry n change) s fun a r =>
      a = (change (s.registry n)).1 ∧ r = (change (s.registry n)).2 := by
  obtain ⟨names, keeps, after⟩ := quiet
  intro a t done
  rw [outcome_changeRegistry] at done
  cases done
  rw [after]
  exact ⟨.names steady keeps rfl, rfl, registry_set steady.within _ _ _⟩

end Play

namespace Pass

variable {p : Pass}

theorem portraying_intern (steady : s.Steady p.registry none) (text : String) :
    Portraying w p.registry family (p.intern text) s fun name r =>
      r.names.Holds p.owner name := by
  intro name t done
  obtain ⟨portrayed, rfl, after⟩ := portraying_names steady
    ⟨_, (Interner.Entered.intern .none text).keeps, rfl⟩ name t done
  refine ⟨portrayed, ?_⟩
  rw [after]
  exact Interner.holds_intern _ _ _

theorem portraying_note (steady : s.Steady p.registry none) (key : String) (value : AttributeValue) :
    Portraying w p.registry family (p.note key value) s fun _ _ => True := by
  intro a t done
  have entered := (s.registry p.registry).names.internAttribute_entered key value p.owner
  exact ⟨(portraying_names steady ⟨_, entered.keeps, rfl⟩ a t done).1, trivial⟩

theorem portraying_notes (steady : s.Steady p.registry none) (notes : Notes) :
    Portraying w p.registry family (p.notes notes) s fun _ _ => True := by
  unfold Pass.notes
  induction notes generalizing s with
  | nil => exact portraying_pure steady trivial
  | cons first rest ih =>
    rw [List.mapM_cons]
    exact (portraying_note steady first.1 first.2).bind steady fun _ _ later _ _ =>
      (ih later).bind later fun _ _ last _ _ => portraying_pure last trivial

-- What is added to a draft brings names with it that the pass has just entered.
section

variable {d : Draft} (steady : s.Steady p.registry none)
  (named : d.NamedBy p.owner (s.registry p.registry).names)
include steady named

theorem portraying_setName (name : String) :
    Portraying w p.registry family (p.setName d name) s fun e r => e.NamedBy p.owner r.names :=
  (portraying_intern steady name).bind steady fun _ _ later kept held =>
    portraying_pure later ((named.keeps kept.names).of_added held fun _ _ => by
      grind [Draft.names])

theorem portraying_annotate (key : String) (value : AttributeValue) :
    Portraying w p.registry family (p.annotate d key value) s fun e r =>
      e.NamedBy p.owner r.names :=
  (portraying_note steady key value).bind steady fun _ _ later kept _ =>
    portraying_pure later (named.keeps kept.names)

theorem portraying_addEnumValue (name : String) (value : Int64) :
    Portraying w p.registry family (p.addEnumValue d name value) s fun e r =>
      e.NamedBy p.owner r.names :=
  (portraying_intern steady name).bind steady fun _ _ later kept held =>
    portraying_pure later ((named.keeps kept.names).of_added held fun _ _ => by
      grind [Draft.names])

theorem portraying_addField (name : String) (target : TypeKey) (lens : Lens)
    (offset : Option UInt64) (notes : Notes) :
    Portraying w p.registry family (p.addField w.types d name target lens offset notes) s
      fun e r => e.NamedBy p.owner r.names :=
  (portraying_intern steady name).bind steady fun _ _ first kept held =>
    (portraying_fresh first).bind first fun _ _ second kept' _ =>
      (portraying_notes second notes).bind second fun _ _ third kept'' _ =>
        have last := (kept'.trans kept'').names
        portraying_pure third (((named.keeps kept.names).keeps last).of_added (last.holds held)
          fun _ _ => by grind [Draft.names])

theorem portraying_addProperty {name : Name}
    (held : (s.registry p.registry).names.Holds p.owner name) (target : TypeKey)
    (getter : Value → Value) (setter : Option (Value → Value → Value)) (notes : Notes) :
    Portraying w p.registry family (p.addProperty w.types d name target getter setter notes) s
      fun e r => e.NamedBy p.owner r.names :=
  (portraying_notes steady notes).bind steady fun _ _ later kept _ =>
    portraying_pure later ((named.keeps kept.names).of_added (kept.names.holds held) fun _ _ => by
      grind [Draft.names])

theorem portraying_addMethod (form : MethodForm) (name : String) (params : List TypeKey)
    (result : TypeKey) (body : Value → List Value → Effect) (notes : Notes) :
    Portraying w p.registry family (p.addMethod w.types d form name params result body notes) s
      fun e r => e.NamedBy p.owner r.names :=
  (portraying_intern steady name).bind steady fun _ _ first kept held =>
    (portraying_fresh first).bind first fun _ _ second kept' _ =>
      (portraying_notes second notes).bind second fun _ _ third kept'' _ =>
        have last := (kept'.trans kept'').names
        portraying_pure third (((named.keeps kept.names).keeps last).of_added (last.holds held)
          fun _ _ => by grind [Draft.names])

theorem portraying_addConstructor (params : List TypeKey) (make : List Value → Value)
    (notes : Notes) :
    Portraying w p.registry family (p.addConstructor w.types d params make notes) s
      fun e r => e.NamedBy p.owner r.names :=
  (portraying_fresh steady).bind steady fun _ _ first kept _ =>
    (portraying_notes first notes).bind first fun _ _ second kept' _ =>
      portraying_pure second (named.keeps (kept.trans kept').names)

end

end Pass

/-- Whether registering types of a family, nested to some depth, adds portraits only. -/
def PortraysAt (w : World) (n : Nat) (family : List TypeKey) (depth : Nat) : Prop :=
  ∀ s owner type, type ∈ family → s.Steady n none → w.Covers family (s.registry n) →
    Portraying w n family (register w depth n owner type) s fun _ r => r.Knows (w.types.hash type)

namespace PortraysAt

variable {depth : Nat} {owner : ModuleId} {type : TypeKey}

theorem need (portrays : PortraysAt w n family depth) (steady : s.Steady n none)
    (covers : w.Covers family (s.registry n)) (listed : type ∈ family) :
    Portraying w n family (discard (register w depth n owner type)) s
      fun _ r => r.Knows (w.types.hash type) :=
  (portrays s owner type listed steady covers).bind (f := fun _ => pure ()) steady
    fun _ _ later _ known => portraying_pure later known

theorem needs (portrays : PortraysAt w n family depth) (steady : s.Steady n none)
    (covers : w.Covers family (s.registry n)) {types : List TypeKey} (listed : types ⊆ family) :
    Portraying w n family (types.forM fun type => discard (register w depth n owner type)) s
      fun _ r => ∀ type ∈ types, r.Knows (w.types.hash type) := by
  induction types generalizing s with
  | nil => exact portraying_pure steady (by simp)
  | cons first rest ih =>
    have here := List.cons_subset.mp listed
    refine (portrays.need steady covers here.1).bind steady
      (f := fun _ => rest.forM fun type => discard (register w depth n owner type))
      fun _ t later kept known b v done => ?_
    have covered := covers.retained kept steady.consistent
    obtain ⟨portrayed, others⟩ := ih later covered here.2 b v done
    exact ⟨portrayed, List.forall_mem_cons.mpr
      ⟨portrayed.retained.knows later.consistent known, others⟩⟩

end PortraysAt

/-- Whether the names of a draft are held, and some types are there. -/
def Draft.Fits (w : World) (owner : ModuleId) (types : List TypeKey) (d : Draft) (r : Registry) :
    Prop :=
  d.NamedBy owner r.names ∧ ∀ type ∈ types, r.Knows (w.types.hash type)

/-- A session in which the description of a type of a family goes on. -/
structure Sketching (w : World) (p : Pass) (family : List TypeKey) (s : Session) (d : Draft) :
    Prop where
  steady : s.Steady p.registry none
  covers : w.Covers family (s.registry p.registry)
  own : p.type ∈ family
  named : d.NamedBy p.owner (s.registry p.registry).names

namespace Sketching

variable {p : Pass} {d e : Draft} {depth : Nat} {target : TypeKey} {params : List TypeKey}

theorem later (sketching : Sketching w p family s d) (steady : t.Steady p.registry none)
    (kept : (s.registry p.registry).RetainedIn (t.registry p.registry)) :
    Sketching w p family t d where
  steady
  covers := sketching.covers.retained kept sketching.steady.consistent
  own := sketching.own
  named := sketching.named.keeps kept.names

section

variable (sketching : Sketching w p family s d) (portrays : PortraysAt w p.registry family depth)
include sketching portrays

theorem portraying_field (listed : target ∈ family) (name : String) (lens : Lens)
    (offset : Option UInt64) (notes : Notes) :
    Portraying w p.registry family
      (declare w (depth + 1) p d (.field name target lens offset notes)) s
      (Draft.Fits w p.owner [target]) := by
  rw [declare]
  refine (portrays.need sketching.steady sketching.covers listed).bind sketching.steady
    fun _ _ steady kept known => ?_
  have now := sketching.later steady kept
  exact (Pass.portraying_addField steady now.named name target lens offset notes).knowing steady
    (List.forall_mem_singleton.mpr known)

theorem portraying_property (listed : target ∈ family) (name : String) (getter : Value → Value)
    (setter : Option (Value → Value → Value)) (notes : Notes) :
    Portraying w p.registry family
      (declare w (depth + 1) p d (.property name target getter setter notes)) s
      (Draft.Fits w p.owner [target]) := by
  rw [declare]
  refine (Pass.portraying_intern sketching.steady name).bind sketching.steady
    fun _ _ first kept held => ?_
  have entered := sketching.later first kept
  refine (portrays.need first entered.covers listed).bind first fun _ _ steady kept known => ?_
  have now := entered.later steady kept
  exact (Pass.portraying_addProperty steady now.named (kept.names.holds held) target getter setter
    notes).knowing steady (List.forall_mem_singleton.mpr known)

theorem portraying_base (listed : target ∈ family) (lens : Lens) :
    Portraying w p.registry family (declare w (depth + 1) p d (.base target lens)) s
      (Draft.Fits w p.owner [target]) := by
  rw [declare]
  refine (portrays.need sketching.steady sketching.covers listed).bind sketching.steady
    fun _ _ steady kept known => ?_
  have now := sketching.later steady kept
  exact portraying_pure steady ⟨now.named, List.forall_mem_singleton.mpr known⟩

theorem portraying_method {result : TypeKey} (listed : params ⊆ family) (answered : result ∈ family)
    (form : MethodForm) (name : String) (body : Value → List Value → Effect) (notes : Notes) :
    Portraying w p.registry family
      (declare w (depth + 1) p d (.method form name params result body notes)) s
      (Draft.Fits w p.owner (params ++ [result])) := by
  rw [declare]
  refine (portrays.needs sketching.steady sketching.covers listed).bind sketching.steady
    fun _ _ first kept known => ?_
  have taken := sketching.later first kept
  refine (portrays.need first taken.covers answered).bind first fun _ _ steady kept there => ?_
  have now := taken.later steady kept
  have all : ∀ type ∈ params ++ [result], _ := List.forall_mem_append.mpr
    ⟨fun type member => kept.knows first.consistent (known type member),
      List.forall_mem_singleton.mpr there⟩
  exact (Pass.portraying_addMethod steady now.named form name params result body notes).knowing
    steady all

theorem portraying_constructor (listed : params ⊆ family) (make : List Value → Value)
    (notes : Notes) :
    Portraying w p.registry family (declare w (depth + 1) p d (.constructor params make notes)) s
      (Draft.Fits w p.owner params) := by
  rw [declare]
  refine (portrays.needs sketching.steady sketching.covers listed).bind sketching.steady
    fun _ _ first kept known => ?_
  have taken := sketching.later first kept
  refine (portrays.need first taken.covers taken.own).bind first fun _ _ steady kept _ => ?_
  have now := taken.later steady kept
  exact (Pass.portraying_addConstructor steady now.named params make notes).knowing steady
    fun type member => kept.knows first.consistent (known type member)

omit portrays in
theorem portraying_probe :
    Portraying w p.registry family (declare w (depth + 1) p d .probe) s
      (Draft.Fits w p.owner []) := by
  rw [declare]
  refine (portraying_still sketching.steady (still_registry _)).bind sketching.steady
    fun _ _ first kept _ => ?_
  have begun := sketching.later first kept
  refine (portraying_still first (still_tell _)).bind first fun _ _ steady kept _ => ?_
  exact portraying_pure steady ⟨(begun.later steady kept).named, List.forall_mem_nil _⟩

/-- A declaration registers what it mentions, and the names that it adds to the draft are held. -/
theorem portraying_declare {decl : Decl} (plain : decl.OnlyDeclares)
    (listed : decl.mentions ⊆ family) :
    Portraying w p.registry family (declare w (depth + 1) p d decl) s
      (Draft.Fits w p.owner decl.mentions) := by
  have steady := sketching.steady
  have named := sketching.named
  have none : ∀ {r : Registry}, ∀ other ∈ [], r.Knows (w.types.hash other) :=
    List.forall_mem_nil _
  cases decl with
  | setName name =>
    rw [declare]
    exact (Pass.portraying_setName steady named name).knowing steady none
  | annotate key value =>
    rw [declare]
    exact (Pass.portraying_annotate steady named key value).knowing steady none
  | enumValue name value =>
    rw [declare]
    exact (Pass.portraying_addEnumValue steady named name value).knowing steady none
  | field name target lens offset notes =>
    exact sketching.portraying_field portrays (listed List.mem_cons_self) name lens offset notes
  | property name target getter setter notes =>
    have there := listed List.mem_cons_self
    exact sketching.portraying_property portrays there name getter setter notes
  | base target lens =>
    exact sketching.portraying_base portrays (listed List.mem_cons_self) lens
  | method form name params result body notes =>
    have within := List.append_subset.mp listed
    exact sketching.portraying_method portrays within.1 (within.2 List.mem_cons_self) form name body
      notes
  | constructor params make notes =>
    exact sketching.portraying_constructor portrays listed make notes
  | probe => exact sketching.portraying_probe
  | panic => contradiction
  | run steps => contradiction

end

theorem portraying_declares (deeper : ∀ less < depth, PortraysAt w p.registry family less)
    (sketching : Sketching w p family s d) {decls : List Decl}
    (plain : ∀ decl ∈ decls, decl.OnlyDeclares)
    (listed : ∀ decl ∈ decls, decl.mentions ⊆ family) :
    Portraying w p.registry family (decls.foldlM (declare w depth p) d) s fun e r =>
      e.NamedBy p.owner r.names ∧
        ∀ decl ∈ decls, ∀ other ∈ decl.mentions, r.Knows (w.types.hash other) := by
  induction decls generalizing s d with
  | nil => exact portraying_pure sketching.steady ⟨sketching.named, List.forall_mem_nil _⟩
  | cons first rest ih =>
    obtain _ | depth := depth
    · rw [List.foldlM_cons, declare]
      intro e t done
      cases done
    have here := List.forall_mem_cons.mp plain
    have within := List.forall_mem_cons.mp listed
    have portrays := deeper depth (Nat.lt_succ_self depth)
    rw [List.foldlM_cons]
    refine (sketching.portraying_declare portrays here.1 within.1).bind sketching.steady
      fun e t later kept fit b v done => ?_
    have now : Sketching w p family t e := { sketching.later later kept with named := fit.1 }
    obtain ⟨portrayed, held, others⟩ := ih now here.2 within.2 b v done
    refine ⟨portrayed, held, List.forall_mem_cons.mpr ⟨fun other mentioned => ?_, others⟩⟩
    exact portrayed.retained.knows later.consistent (fit.2 other mentioned)

end Sketching

/-- What there is to be seen between the addition of a row and its publication, with the draft of a
description that only declares members. -/
structure Depicting (w : World) (n : Nat) (family : List TypeKey) (type : TypeKey) (m : ModuleId)
    (s t : Session) (draft : Draft) : Prop where
  steady : s.Steady n none
  absent : (s.registry n).anyByHash? (w.types.hash type) = none
  listed : type ∈ family
  described : Portrayed w n family (s.adding w.types n type m) t
  named : draft.NamedBy m (t.registry n).names
  sketched : draft.unnumbered = ((w.describe type).wanted (s.registry n).config).foldl
    (Decl.sketch w.types type) {}
  known : ∀ decl ∈ (w.describe type).decls, ∀ other ∈ decl.mentions,
    (t.registry n).Knows (w.types.hash other)

namespace Depicting

variable {type : TypeKey} {m : ModuleId} {draft : Draft}

theorem after (depicting : Depicting w n family type m s t draft) :
    AfterAdding w.types n type m s t where
  steady := depicting.steady
  absent := depicting.absent
  count := by
    rw [depicting.described.count, Session.adding, List.length_set]
  kept := depicting.described.retained

theorem config (depicting : Depicting w n family type m s t draft) :
    (t.registry n).config = (s.registry n).config := by
  rw [depicting.described.config, registry_adding depicting.steady.within,
    Registry.config_insertSkeleton]

theorem portrays_committed (depicting : Depicting w n family type m s t draft) {row : Row}
    (portrays : w.Portrays family (t.registry n) row) (h : TypeHandle) :
    w.Portrays family ((t.registry n).commit h draft) row := by
  obtain ⟨asked, member, hash, portrait, there⟩ := portrays
  refine ⟨asked, member, hash, ?_, fun decl declared other mentioned =>
    (there decl declared other mentioned).commit depicting.after.kept.consistent h draft⟩
  rwa [Registry.config_commit]

/-- The names that the draft brings are held by the time it is published, so ids and texts tell its
members apart in the same way. -/
theorem portrays_itself (depicting : Depicting w n family type m s t draft) :
    w.Portrays family (t.registry n)
      (((s.registry n).skeletonRow w.types type m).publish draft) := by
  have grows := ((s.registry n).skeletonRow w.types type m).publish_grows draft
  have entered : (t.registry n).names.Holds m ((s.registry n).skeletonRow w.types type m).name := by
    have names := depicting.described.retained.names
    rw [registry_adding depicting.steady.within, Registry.insertSkeleton_eq,
      Registry.names_insertRow] at names
    exact names.holds (Interner.holds_intern _ _ _)
  refine ⟨type, depicting.listed, grows.typeHash, ?_, depicting.known⟩
  rw [depicting.config, grows.owner]
  exact unnumbered_published entered depicting.named depicting.sketched

/-- A row is published with all that has been added while it was described. -/
theorem published (depicting : Depicting w n family type m s t draft) :
    Portrayed w n family s
      (t.committing n ((s.registry n).insertSkeleton w.types type m).1 draft) := by
  have here :=
    depicting.after.registry_committing ((s.registry n).insertSkeleton w.types type m).1 draft
  have pending := depicting.after.pending
  constructor
  · rw [Session.committing, List.length_set, depicting.after.count]
  · rw [here, Registry.config_commit, depicting.config]
  · rw [here]
    exact depicting.after.retained.commit depicting.after.new draft
  · intro h row absent there
    rw [here] at there ⊢
    by_cases same : h = ((s.registry n).insertSkeleton w.types type m).1
    · rw [same, Registry.anyRow?_commit pending] at there
      cases there
      exact depicting.portrays_committed depicting.portrays_itself _
    · rw [Registry.anyRow?_commit_of_ne pending same] at there
      have before := anyRow?_adding_of_ne depicting.steady same
      have portrays := depicting.described.rows (before.trans absent) there
      exact depicting.portrays_committed portrays _
  · intro none
    have there := none _ depicting.after.new
    rw [here, Registry.anyRow?_commit pending] at there
    contradiction

end Depicting

theorem Session.Steady.adding {type : TypeKey} (steady : s.Steady n none)
    (absent : (s.registry n).anyByHash? (w.types.hash type) = none) (m : ModuleId) :
    (s.adding w.types n type m).Steady n none :=
  have begun := steady_adding steady absent m
  ⟨begun.within, begun.consistent, nofun⟩

theorem sketching_adding {type : TypeKey} (steady : s.Steady n none)
    (absent : (s.registry n).anyByHash? (w.types.hash type) = none) (listed : type ∈ family)
    (covers : w.Covers family (s.registry n)) (m : ModuleId) :
    Sketching w ⟨n, type, ((s.registry n).insertSkeleton w.types type m).1, m⟩ family
      (s.adding w.types n type m) {} where
  steady := steady.adding absent m
  covers := by
    rw [registry_adding steady.within]
    exact covers.retained (Registry.retainedIn_insertSkeleton steady.consistent m absent)
      steady.consistent
  own := listed
  named := by simp [Draft.NamedBy, Draft.names]

/-- A registration that comes to its end has found the type, or has run its description. -/
theorem of_outcome_register {depth : Nat} {owner : ModuleId} {type : TypeKey} {h : TypeHandle}
    (absent : (s.registry n).anyByHash? (w.types.hash type) = none)
    (done : (register w (depth + 1) n owner type).outcome s = (.ok h, t)) :
    let m := ownerOf w.types type owner
    let p : Pass := ⟨n, type, ((s.registry n).insertSkeleton w.types type m).1, m⟩
    ∃ depth' draft v, depth = depth' + 1 ∧
      (((w.describe type).wanted (s.registry n).config).foldlM (declare w depth' p) {}).outcome
        (s.adding w.types n type m) = (.ok draft, v) ∧
      t = v.committing n p.handle draft := by
  intro m p
  have got : (Play.registry n).outcome s = (.ok (s.registry n), s) := rfl
  have added := outcome_changeRegistry n (·.insertSkeleton w.types type m) s
  rw [register, outcome_bind_ok got, absent] at done
  dsimp only at done
  rw [outcome_bind_ok added] at done
  have guarded_done : (guarded p (describe w depth p
    ((w.describe type).wanted (s.registry n).config))).outcome (s.adding w.types n type m) =
      (.ok h, t) := done
  rcases described : (describe w depth p ((w.describe type).wanted (s.registry n).config)).outcome
    (s.adding w.types n type m) with ⟨answer, v⟩
  cases answer with
  | error halt =>
    rw [outcome_guarded_error described] at guarded_done
    cases guarded_done
  | ok _ =>
    rw [outcome_guarded_ok described] at guarded_done
    cases guarded_done
    cases depth with
    | zero =>
      rw [describe] at described
      cases described
    | succ depth =>
      rw [describe] at described
      obtain ⟨draft, v', drafted, committed⟩ := outcome_bind_eq_ok described
      rw [outcome_changeRegistry] at committed
      cases committed
      exact ⟨depth, draft, v', rfl, drafted, rfl⟩

/-- Whatever the depth, a registration adds portraits only. -/
theorem portraysAt (n depth : Nat) : PortraysAt w n family depth := by
  induction depth using Nat.strongRecOn with
  | ind depth ih =>
    intro s owner type listed steady covers h t done
    cases depth with
    | zero =>
      rw [register] at done
      cases done
    | succ depth =>
      cases found : (s.registry n).anyByHash? (w.types.hash type) with
      | some pair =>
        rw [outcome_register_known found] at done
        cases done
        exact ⟨.still steady rfl, pair, found⟩
      | none =>
        -- The declarations are run two levels further down, where the types that they mention are
        -- registered in turn.
        obtain ⟨depth, draft, v, rfl, drafted, rfl⟩ := of_outcome_register found done
        let m := ownerOf w.types type owner
        let p : Pass := ⟨n, type, ((s.registry n).insertSkeleton w.types type m).1, m⟩
        have admits := admits_wanted covers (mem_lacking.mpr ⟨listed, found⟩) owner
          (s.registry n).config
        have begun : Sketching w p family (s.adding w.types n type m) {} :=
          sketching_adding steady found listed covers m
        obtain ⟨described, named, known⟩ := begun.portraying_declares
          (fun less fewer => ih less (Nat.lt_succ_of_lt (Nat.lt_succ_of_lt fewer)))
          (fun decl declared => (admits decl declared).1)
          (fun decl declared other mentioned => ((admits decl declared).2 other mentioned).1)
          draft v drafted
        have depicting : Depicting w n family type m s v draft :=
          { steady, absent := found, listed, described, named
            sketched := answers_sketches w depth p _ {} _ draft v drafted
            known := fun decl declared => known decl (Description.mem_wanted declared _) }
        have there : (v.registry n).Knows (w.types.hash type) :=
          described.retained.knows begun.steady.consistent (knows_adding steady found m)
        exact ⟨depicting.published, depicting.after.knows there p.handle draft⟩

end Script

end TypeCatalog
