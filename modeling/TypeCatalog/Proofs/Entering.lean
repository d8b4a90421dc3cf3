import TypeCatalog.Proofs.Declarations
import TypeCatalog.Proofs.References

/-!
What registering types does to a session when their descriptions only declare members. Rows are
added to one registry, each published and described once, and all else stays. A description that is
itself being run goes on meanwhile: what it declares is entered, and refers to rows that are there.
-/
namespace TypeCatalog

namespace Script

/-- The types that a declaration refers to. -/
def Decl.mentions : Decl → List TypeKey
  | .field _ target _ _ _ => [target]
  | .property _ target _ _ _ => [target]
  | .base target _ => [target]
  | .method _ _ params result _ _ => params ++ [result]
  | .constructor params _ _ => params
  | .setName _ | .annotate .. | .enumValue .. | .probe | .panic | .run _ => []

/-- Whether a declaration neither halts nor runs steps. -/
def Decl.OnlyDeclares : Decl → Prop
  | .panic | .run _ => False
  | _ => True

def Decl.isProbe : Decl → Bool
  | .probe => true
  | _ => false

/-- Whether the types of a family only declare members, and refer to one another at most. -/
structure World.Closed (w : World) (family : List TypeKey) : Prop where
  onlyDeclare : ∀ type ∈ family, ∀ decl ∈ (w.describe type).decls, decl.OnlyDeclares
  mentioned : ∀ type ∈ family, ∀ decl ∈ (w.describe type).decls, decl.mentions ⊆ family

/-- Whether the description of a type that is registered for a module registers another type, and
for which module. -/
def World.Asks (w : World) (a b : TypeKey × ModuleId) : Prop :=
  (∃ decl ∈ (w.describe a.1).decls, b.1 ∈ decl.mentions) ∧ b.2 = ownerOf w.types a.1 a.2

/-- How many probes of the description of the row behind a handle have been told. -/
def Session.probes (s : Session) (h : TypeHandle) : Nat :=
  s.told.countP fun
    | .probed handle _ _ => handle = h
    | _ => false

/-- Whether a row is a new one with one draft of all that the description of a type declares. -/
def World.Describes (w : World) (type : TypeKey) (row : Row) : Prop :=
  ∃ (bare : Row) (draft : Draft), bare.Bare ∧ row = bare.publish draft ∧
    ∀ decl ∈ (w.describe type).decls, draft.Records w.types type decl

/-- What there is to a row that has been added between two states of a session: it is published, its
type has been asked for, has been described once, and all it refers to is there. -/
structure Added (w : World) (n : Nat) (asked : TypeKey × ModuleId → Prop) (s t : Session)
    (h : TypeHandle) (row : Row) : Prop where
  origin : ∃ q, asked q ∧ row.typeHash = w.types.hash q.1 ∧ row.owner = ownerOf w.types q.1 q.2 ∧
    w.Describes q.1 row ∧ t.probes h = s.probes h + (w.describe q.1).decls.countP Decl.isProbe
  published : row.published = true
  closed : ∀ hash ∈ row.references, (t.registry n).Knows hash

/-- What registering types that are asked for does to a session, while the description of a row
`own` tells so many probes: rows are added to one registry. -/
structure Entered (w : World) (n : Nat) (asked : TypeKey × ModuleId → Prop)
    (own : Option TypeHandle) (told : Nat) (s t : Session) : Prop where
  session : t = { s with
    registries := s.registries.set n (t.registry n)
    nextNumber := t.nextNumber
    told := t.told }
  retained : (s.registry n).RetainedIn (t.registry n)
  added : ∀ {h row}, (s.registry n).anyRow? h = none → (t.registry n).anyRow? h = some row →
    Added w n asked s t h row
  others : ∀ {h}, (s.registry n).anyRow? h ≠ none ∨ (t.registry n).anyRow? h = none →
    t.probes h = s.probes h + if own = some h then told else 0

/-- A session in which types can be registered: the registry is there, and so is the row whose
description goes on. -/
structure Session.Steady (s : Session) (n : Nat) (own : Option TypeHandle) : Prop where
  within : n < s.registries.length
  consistent : (s.registry n).Consistent
  open_ : ∀ h, own = some h → (s.registry n).anyRow? h ≠ none

variable {α β : Type} {w : World} {n k : Nat} {asked asked' : TypeKey × ModuleId → Prop}
  {own : Option TypeHandle} {i j : Nat} {s t v : Session}

theorem registries_set_registry (s : Session) (n : Nat) :
    s.registries.set n (s.registry n) = s.registries := by
  by_cases within : n < s.registries.length
  · simp [Session.registry, within]
  · exact List.set_eq_of_length_le (Nat.le_of_not_lt within)

theorem registry_set (within : n < s.registries.length) (r : Registry) (m : Nat)
    (log : List Entry) :
    ({ s with registries := s.registries.set n r, nextNumber := m, told := log } : Session).registry
      n = r := by
  simp [Session.registry, within]

namespace Entered

theorem refl (steady : s.Steady n own) : Entered w n asked own 0 s s where
  session := by rw [registries_set_registry]
  retained := .refl steady.consistent
  added absent there := nomatch absent.symm.trans there
  others _ := by simp

theorem steady (entered : Entered w n asked own i s t) (before : s.Steady n own) :
    t.Steady n own where
  within := by
    rw [entered.session, List.length_set]
    exact before.within
  consistent := entered.retained.consistent
  open_ h same absent := before.open_ h same (entered.retained.absent absent)

theorem mono (entered : Entered w n asked own i s t) (more : ∀ q, asked q → asked' q) :
    Entered w n asked' own i s t where
  session := entered.session
  retained := entered.retained
  added absent there := by
    obtain ⟨⟨q, from_, rest⟩, published, closed⟩ := entered.added absent there
    exact ⟨⟨q, more q from_, rest⟩, published, closed⟩
  others := entered.others

/-- No description but those of the added rows is told of. -/
theorem within (entered : Entered w n asked none i s t) : Entered w n asked own 0 s t where
  session := entered.session
  retained := entered.retained
  added := entered.added
  others known := by simpa using entered.others known

theorem trans (steady : s.Steady n own) (first : Entered w n asked own i s t)
    (second : Entered w n asked own j t v) : Entered w n asked own (i + j) s v where
  session := by
    have last := second.session
    rw [first.session] at last
    simpa only [List.set_set] using last
  retained := first.retained.trans second.retained
  added {h row} absent there := by
    have stranger : own ≠ some h := fun same => steady.open_ h same absent
    cases middle : (t.registry n).anyRow? h with
    | none =>
      obtain ⟨⟨q, from_, hash, owner, described, probes⟩, published, closed⟩ :=
        second.added middle there
      have quiet := first.others (.inr middle)
      rw [if_neg stranger] at quiet
      exact ⟨⟨q, from_, hash, owner, described, by omega⟩, published, closed⟩
    | some old =>
      obtain ⟨⟨q, from_, hash, owner, described, probes⟩, published, closed⟩ :=
        first.added absent middle
      have quiet := second.others (.inl (by rw [middle]; exact nofun))
      rw [if_neg stranger] at quiet
      cases Option.some.inj ((second.retained.rows middle).symm.trans there)
      exact ⟨⟨q, from_, hash, owner, described, by omega⟩, published, fun ref listed =>
        second.retained.knows first.retained.consistent (closed ref listed)⟩
  others {h} known := by
    have early : (s.registry n).anyRow? h ≠ none ∨ (t.registry n).anyRow? h = none :=
      known.imp_right second.retained.absent
    have late : (t.registry n).anyRow? h ≠ none ∨ (v.registry n).anyRow? h = none :=
      known.imp_left fun present absent => present (first.retained.absent absent)
    rw [second.others late, first.others early]
    grind

/-- Entering names and giving numbers away adds no rows. -/
theorem quiet (steady : s.Steady n own) {names : Interner}
    (keeps : (s.registry n).names.Keeps names) (number : Nat) :
    Entered w n asked own 0 s { s with
      registries := s.registries.set n { s.registry n with names }
      nextNumber := number } := by
  have here := registry_set steady.within { s.registry n with names } number s.told
  constructor
  · rw [here]
  · rw [here]
    exact Registry.retainedIn_withNames steady.consistent keeps
  · intro h row absent there
    rw [here] at there
    exact nomatch absent.symm.trans there
  · intro h _
    simp [Session.probes]

/-- A probe tells of the description that is run. -/
theorem told {h : TypeHandle} (steady : s.Steady n (some h)) (owner : ModuleId) (alive : Bool) :
    Entered w n asked (some h) 1 s { s with told := s.told ++ [.probed h owner alive] } where
  session := by
    show _ = ({ s with registries := s.registries.set n (s.registry n), told := _ } : Session)
    rw [registries_set_registry]
  retained := .refl steady.consistent
  added absent there := nomatch absent.symm.trans there
  others _ := by
    simp only [Session.probes, List.countP_append, List.countP_singleton]
    grind

end Entered

namespace Play

/-- Whether a computation that may be nested to a depth comes to one end, from depth `k` on, at
which types that are asked for have been registered. -/
def Enters (w : World) (n : Nat) (asked : TypeKey × ModuleId → Prop) (own : Option TypeHandle)
    (told k : Nat) (x : Nat → Play α) (s : Session) (fits : α → Registry → Prop) : Prop :=
  ∃ a t, Entered w n asked own told s t ∧ fits a (t.registry n) ∧
    ∀ depth, k ≤ depth → (x depth).outcome s = (.ok a, t)

variable {fits : α → Registry → Prop} {fits' : β → Registry → Prop} {x : Nat → Play α}
  {f : Nat → α → Play β}

theorem enters_pure (steady : s.Steady n own) {a : α} (fit : fits a (s.registry n)) :
    Enters w n asked own 0 k (fun _ => pure a) s fits :=
  ⟨a, s, .refl steady, fit, fun _ _ => rfl⟩

theorem Enters.sum (steady : s.Steady n own) (first : Enters w n asked own i k x s fits)
    (next : ∀ a t, t.Steady n own → (s.registry n).RetainedIn (t.registry n) →
      fits a (t.registry n) → Enters w n asked own j k (f · a) t fits') :
    Enters w n asked own (i + j) k (fun depth => x depth >>= f depth) s fits' := by
  obtain ⟨a, t, entered, fit, ends⟩ := first
  obtain ⟨b, v, later, fit', ends'⟩ := next a t (entered.steady steady) entered.retained fit
  refine ⟨b, v, entered.trans steady later, fit', fun depth enough => ?_⟩
  rw [outcome_bind_ok (ends depth enough), ends' depth enough]

/-- What goes on after something that tells no probe of the description that is run. -/
theorem Enters.bind (steady : s.Steady n own) (first : Enters w n asked own 0 k x s fits)
    (next : ∀ a t, t.Steady n own → (s.registry n).RetainedIn (t.registry n) →
      fits a (t.registry n) → Enters w n asked own j k (f · a) t fits') :
    Enters w n asked own j k (fun depth => x depth >>= f depth) s fits' := by
  have both := first.sum steady next
  rwa [Nat.zero_add] at both

/-- One level more is enough for a computation that goes on one level further down. -/
theorem Enters.deeper {y : Nat → Play α} (entered : Enters w n asked own i k x s fits)
    (same : ∀ depth, y (depth + 1) = x depth) : Enters w n asked own i (k + 1) y s fits := by
  obtain ⟨a, t, entered, fit, ends⟩ := entered
  refine ⟨a, t, entered, fit, fun depth enough => ?_⟩
  obtain ⟨depth, rfl⟩ := Nat.exists_eq_succ_of_ne_zero (Nat.ne_zero_of_lt enough)
  rw [same]
  exact ends depth (Nat.le_of_succ_le_succ enough)

theorem enters_names (steady : s.Steady n own) {change : Registry → α × Registry}
    (quiet : ∀ r : Registry, ∃ names, r.names.Keeps names ∧ (change r).2 = { r with names }) :
    Enters w n asked own 0 k (fun _ => changeRegistry n change) s fun _ _ => True := by
  obtain ⟨names, keeps, after⟩ := quiet (s.registry n)
  refine ⟨(change (s.registry n)).1, _, .quiet steady keeps s.nextNumber, trivial, fun _ _ => ?_⟩
  rw [outcome_changeRegistry, after]

theorem enters_fresh (steady : s.Steady n own) :
    Enters w n asked own 0 k (fun _ => fresh) s fun _ _ => True := by
  have entered : Entered w n asked own 0 s _ := .quiet steady (.refl _) (s.nextNumber + 1)
  rw [registries_set_registry] at entered
  exact ⟨_, _, entered, trivial, fun _ _ => rfl⟩

end Play

namespace Pass

open Play

variable {p : Pass} {d : Draft}

theorem enters_intern (steady : s.Steady p.registry own) (text : String) :
    Enters w p.registry asked own 0 k (fun _ => p.intern text) s fun _ _ => True :=
  enters_names steady fun _ => ⟨_, (Interner.Entered.intern .none text).keeps, rfl⟩

theorem enters_note (steady : s.Steady p.registry own) (key : String) (value : AttributeValue) :
    Enters w p.registry asked own 0 k (fun _ => p.note key value) s fun _ _ => True :=
  enters_names steady fun r => ⟨_, (r.names.internAttribute_entered key value p.owner).keeps, rfl⟩

theorem enters_notes (steady : s.Steady p.registry own) (notes : Notes) :
    Enters w p.registry asked own 0 k (fun _ => p.notes notes) s fun _ _ => True := by
  unfold Pass.notes
  induction notes generalizing s with
  | nil => exact enters_pure steady trivial
  | cons first rest ih =>
    simp only [List.mapM_cons]
    refine (enters_note steady first.1 first.2).bind steady fun _ _ steady _ _ => ?_
    exact (ih steady).bind steady fun _ _ steady _ _ => enters_pure steady trivial

-- Once the types that it refers to are there, a declaration adds to the draft. What the draft then
-- refers to are those types, and what it referred to before.
section

variable (steady : s.Steady p.registry own) (resolved : d.Resolved (s.registry p.registry))
include steady resolved

theorem enters_setName (name : String) :
    Enters w p.registry asked own 0 k (fun _ => p.setName d name) s Draft.Resolved :=
  (enters_intern steady name).bind steady fun _ _ later retained _ =>
    enters_pure later (resolved.retained retained steady.consistent)

theorem enters_annotate (key : String) (value : AttributeValue) :
    Enters w p.registry asked own 0 k (fun _ => p.annotate d key value) s Draft.Resolved :=
  (enters_note steady key value).bind steady fun _ _ later retained _ =>
    enters_pure later (resolved.retained retained steady.consistent)

theorem enters_addEnumValue (name : String) (value : Int64) :
    Enters w p.registry asked own 0 k (fun _ => p.addEnumValue d name value) s Draft.Resolved :=
  (enters_intern steady name).bind steady fun _ _ later retained _ =>
    enters_pure later (resolved.retained retained steady.consistent)

theorem enters_addField {target : TypeKey}
    (known : (s.registry p.registry).Knows (w.types.hash target)) (name : String) (lens : Lens)
    (offset : Option UInt64) (notes : Notes) :
    Enters w p.registry asked own 0 k (fun _ => p.addField w.types d name target lens offset notes)
      s Draft.Resolved :=
  (enters_intern steady name).bind steady fun _ _ first kept _ =>
    (enters_fresh first).bind first fun _ _ second kept' _ =>
      (enters_notes second notes).bind second fun _ _ third kept'' _ =>
        have retained := (kept.trans kept').trans kept''
        enters_pure third ((resolved.retained retained steady.consistent).addField
          (retained.knows steady.consistent known))

theorem enters_addProperty {target : TypeKey}
    (known : (s.registry p.registry).Knows (w.types.hash target)) (name : Name)
    (getter : Value → Value) (setter : Option (Value → Value → Value)) (notes : Notes) :
    Enters w p.registry asked own 0 k
      (fun _ => p.addProperty w.types d name target getter setter notes) s Draft.Resolved :=
  (enters_notes steady notes).bind steady fun _ _ later retained _ =>
    enters_pure later ((resolved.retained retained steady.consistent).addProperty
      (retained.knows steady.consistent known))

theorem enters_addMethod {params : List TypeKey} {result : TypeKey}
    (known : ∀ type ∈ params, (s.registry p.registry).Knows (w.types.hash type))
    (answered : (s.registry p.registry).Knows (w.types.hash result)) (form : MethodForm)
    (name : String) (body : Value → List Value → Effect) (notes : Notes) :
    Enters w p.registry asked own 0 k
      (fun _ => p.addMethod w.types d form name params result body notes) s Draft.Resolved :=
  (enters_intern steady name).bind steady fun _ _ first kept _ =>
    (enters_fresh first).bind first fun _ _ second kept' _ =>
      (enters_notes second notes).bind second fun _ _ third kept'' _ =>
        have retained := (kept.trans kept').trans kept''
        enters_pure third ((resolved.retained retained steady.consistent).addMethod
          (List.forall_mem_map.mpr fun type listed =>
            retained.knows steady.consistent (known type listed))
          (retained.knows steady.consistent answered))

theorem enters_addConstructor {params : List TypeKey}
    (known : ∀ type ∈ params, (s.registry p.registry).Knows (w.types.hash type))
    (make : List Value → Value) (notes : Notes) :
    Enters w p.registry asked own 0 k (fun _ => p.addConstructor w.types d params make notes) s
      Draft.Resolved :=
  (enters_fresh steady).bind steady fun _ _ first kept _ =>
    (enters_notes first notes).bind first fun _ _ second kept' _ =>
      have retained := kept.trans kept'
      enters_pure second ((resolved.retained retained steady.consistent).addConstructor
        (List.forall_mem_map.mpr fun type listed =>
          retained.knows steady.consistent (known type listed)))

end

end Pass

end Script

end TypeCatalog
