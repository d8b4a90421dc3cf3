import TypeCatalog.Proofs.Entering
import TypeCatalog.Proofs.Registrations

/-!
What a description does that only declares members of types of a finite family. Every declaration
registers the types that it refers to, and then adds to the draft. As long as registering a type
ends when at most `k` types of the family are lacking, so does running such a description.
-/
namespace TypeCatalog

namespace Script

open Play

variable {w : World} {n k : Nat} {asked : TypeKey × ModuleId → Prop} {own : Option TypeHandle}
  {s t : Session} {family : List TypeKey} {type : TypeKey} {owner : ModuleId} {r r' : Registry}

/-- The types of a family that a registry does not have. -/
def lacking (w : World) (family : List TypeKey) (r : Registry) : List TypeKey :=
  family.filter fun type => (r.anyByHash? (w.types.hash type)).isNone

/-- Whether the types of a family that a registry lacks only declare members, and refer to types of
the family. -/
def World.Covers (w : World) (family : List TypeKey) (r : Registry) : Prop :=
  ∀ type ∈ lacking w family r, ∀ decl ∈ (w.describe type).decls,
    decl.OnlyDeclares ∧ decl.mentions ⊆ family

theorem World.Closed.covers (closed : w.Closed family) (r : Registry) : w.Covers family r := by
  intro type lacks decl declared
  have listed := (List.mem_filter.mp lacks).1
  exact ⟨closed.onlyDeclare type listed decl declared, closed.mentioned type listed decl declared⟩

/-- Whether the types of a family can be registered as long as at most `k` of them are lacking. -/
def Registers (w : World) (n : Nat) (family : List TypeKey) (k : Nat) : Prop :=
  ∀ s owner type, type ∈ family → s.Steady n none → w.Covers family (s.registry n) →
    (lacking w family (s.registry n)).length ≤ k →
    Enters w n (Relation.ReflTransGen w.Asks (type, owner)) none 0 (3 * k + 1)
      (register w · n owner type) s fun h r =>
        ∃ row, r.anyByHash? (w.types.hash type) = some (h, row)

theorem mem_lacking :
    type ∈ lacking w family r ↔ type ∈ family ∧ r.anyByHash? (w.types.hash type) = none := by
  rw [lacking, List.mem_filter, Option.isNone_iff_eq_none]

theorem lacking_retained (retained : r.RetainedIn r') (consistent : r.Consistent) :
    lacking w family r' =
      (lacking w family r).filter fun type => (r'.anyByHash? (w.types.hash type)).isNone := by
  rw [lacking, lacking, List.filter_filter]
  refine List.filter_congr fun type _ => ?_
  cases before : r.anyByHash? (w.types.hash type) with
  | none => simp
  | some found => simp [retained.anyByHash? consistent before]

theorem lacking_length_le (retained : r.RetainedIn r') (consistent : r.Consistent) :
    (lacking w family r').length ≤ (lacking w family r).length := by
  rw [lacking_retained retained consistent]
  exact List.length_filter_le _ _

theorem World.Covers.retained (covers : w.Covers family r) (retained : r.RetainedIn r')
    (consistent : r.Consistent) : w.Covers family r' := by
  intro type lacks
  rw [lacking_retained retained consistent] at lacks
  exact covers type (List.mem_filter.mp lacks).1

theorem lacking_of_known (known : ∀ type ∈ family, r.Knows (w.types.hash type)) :
    lacking w family r = [] := by
  refine List.filter_eq_nil_iff.mpr fun type listed => ?_
  obtain ⟨found, there⟩ := known type listed
  simp [there]

theorem World.Covers.of_known (known : ∀ type ∈ family, r.Knows (w.types.hash type)) :
    w.Covers family r := by
  intro type lacks
  rw [lacking_of_known known] at lacks
  cases lacks

/-- With the row of a type of the family there are fewer types to be added. -/
theorem lacking_length_lt (retained : r.RetainedIn r') (consistent : r.Consistent)
    (listed : type ∈ family) (absent : r.anyByHash? (w.types.hash type) = none)
    (known : r'.Knows (w.types.hash type)) :
    (lacking w family r').length < (lacking w family r).length := by
  obtain ⟨found, there⟩ := known
  rw [lacking_retained retained consistent, List.length_filter_lt_length_iff_exists]
  exact ⟨type, List.mem_filter.mpr ⟨listed, by rw [absent]; rfl⟩, by simp [there]⟩

/-- A type that has a row is not registered again. -/
theorem outcome_register_known {depth : Nat} {h : TypeHandle} {row : Row}
    (there : (s.registry n).anyByHash? (w.types.hash type) = some (h, row)) :
    (register w (depth + 1) n owner type).outcome s = (.ok h, s) := by
  have got : (Play.registry n).outcome s = (.ok (s.registry n), s) := rfl
  rw [register, outcome_bind_ok got, there]
  rfl

theorem enters_register_known (steady : s.Steady n own)
    (known : (s.registry n).Knows (w.types.hash type)) :
    Enters w n asked own 0 (k + 1) (register w · n owner type) s fun h r =>
      ∃ row, r.anyByHash? (w.types.hash type) = some (h, row) := by
  obtain ⟨⟨h, row⟩, there⟩ := known
  refine ⟨h, s, .refl steady, ⟨row, there⟩, fun depth enough => ?_⟩
  obtain ⟨depth, rfl⟩ := Nat.exists_eq_succ_of_ne_zero (Nat.ne_zero_of_lt enough)
  exact outcome_register_known there

theorem Enters.need {i : Nat} (steady : s.Steady n own)
    (registered : Enters w n asked own 0 i (register w · n owner type) s fun h r =>
      ∃ row, r.anyByHash? (w.types.hash type) = some (h, row)) :
    Enters w n asked own 0 i (fun depth => discard (register w depth n owner type)) s
      fun _ r => r.Knows (w.types.hash type) :=
  registered.bind (f := fun _ _ => pure ()) steady fun _ _ later _ there =>
    enters_pure later ⟨_, there.choose_spec⟩

namespace Registers

theorem need (registers : Registers w n family k) (steady : s.Steady n own)
    (covers : w.Covers family (s.registry n))
    (few : (lacking w family (s.registry n)).length ≤ k) (listed : type ∈ family)
    (reach : ∀ q, Relation.ReflTransGen w.Asks (type, owner) q → asked q) :
    Enters w n asked own 0 (3 * k + 1) (fun depth => discard (register w depth n owner type)) s
      fun _ r => r.Knows (w.types.hash type) := by
  have idle : s.Steady n none := ⟨steady.within, steady.consistent, nofun⟩
  obtain ⟨h, t, entered, there, ends⟩ := registers s owner type listed idle covers few
  exact Enters.need steady ⟨h, t, entered.within.mono reach, there, ends⟩

theorem needs (registers : Registers w n family k) (steady : s.Steady n own)
    (covers : w.Covers family (s.registry n))
    (few : (lacking w family (s.registry n)).length ≤ k) {types : List TypeKey}
    (listed : types ⊆ family)
    (reach : ∀ type ∈ types, ∀ q, Relation.ReflTransGen w.Asks (type, owner) q → asked q) :
    Enters w n asked own 0 (3 * k + 1)
      (fun depth => types.forM fun type => discard (register w depth n owner type)) s
      fun _ r => ∀ type ∈ types, r.Knows (w.types.hash type) := by
  induction types generalizing s with
  | nil => exact enters_pure steady (by simp)
  | cons first rest ih =>
    have here := List.cons_subset.mp listed
    have added := registers.need steady covers few here.1 (reach first List.mem_cons_self)
    refine added.bind steady
      (f := fun depth _ => rest.forM fun type => discard (register w depth n owner type))
      fun _ t later retained known => ?_
    have fewer := Nat.le_trans (lacking_length_le retained steady.consistent) few
    have covered := covers.retained retained steady.consistent
    have others := ih later covered fewer here.2 fun type member =>
      reach type (List.mem_cons_of_mem first member)
    obtain ⟨_, v, entered, all, ends⟩ := others
    refine ⟨_, v, entered, List.forall_mem_cons.mpr ⟨?_, all⟩, ends⟩
    exact entered.retained.knows later.consistent known

end Registers

/-- Whether a type is one of a family, and all that is asked for when it is registered for a module
may be asked for. -/
def World.Admits (w : World) (family : List TypeKey) (asked : TypeKey × ModuleId → Prop)
    (owner : ModuleId) (type : TypeKey) : Prop :=
  type ∈ family ∧ ∀ q, Relation.ReflTransGen w.Asks (type, owner) q → asked q

/-- A session in which a description goes on, as long as at most `k` types of a family are lacking:
its own type has a row, and what it has drafted so far refers to rows that are there. -/
structure Declaring (w : World) (p : Pass) (family : List TypeKey) (k : Nat) (s : Session)
    (d : Draft) : Prop where
  steady : s.Steady p.registry (some p.handle)
  covers : w.Covers family (s.registry p.registry)
  few : (lacking w family (s.registry p.registry)).length ≤ k
  known : (s.registry p.registry).Knows (w.types.hash p.type)
  resolved : d.Resolved (s.registry p.registry)

namespace Declaring

variable {p : Pass} {d d' : Draft} {target : TypeKey}

/-- A description goes on after rows have been added. -/
theorem later (declaring : Declaring w p family k s d)
    (steady : t.Steady p.registry (some p.handle))
    (retained : (s.registry p.registry).RetainedIn (t.registry p.registry)) :
    Declaring w p family k t d where
  steady
  covers := declaring.covers.retained retained declaring.steady.consistent
  few := Nat.le_trans (lacking_length_le retained declaring.steady.consistent) declaring.few
  known := retained.knows declaring.steady.consistent declaring.known
  resolved := declaring.resolved.retained retained declaring.steady.consistent

theorem drafted (declaring : Declaring w p family k s d)
    (resolved : d'.Resolved (s.registry p.registry)) : Declaring w p family k s d' :=
  { declaring with resolved }

theorem need_own (declaring : Declaring w p family k s d) :
    Enters w p.registry asked (some p.handle) 0 (3 * k + 1)
      (fun depth => discard (register w depth p.registry p.owner p.type)) s
      fun _ r => r.Knows (w.types.hash p.type) :=
  Enters.need declaring.steady (enters_register_known declaring.steady declaring.known)

theorem enters_probe (declaring : Declaring w p family k s d) :
    Enters w p.registry asked (some p.handle) 1 (3 * k + 2) (declare w · p d .probe) s
      Draft.Resolved := by
  have told : Enters w p.registry asked (some p.handle) 1 (3 * k + 1) (fun _ => do
      let r ← Play.registry p.registry
      Play.tell (.probed p.handle p.owner (r.isAlive p.handle))
      return d) s Draft.Resolved :=
    ⟨d, _, .told declaring.steady p.owner ((s.registry p.registry).isAlive p.handle),
      declaring.resolved, fun _ _ => rfl⟩
  exact told.deeper fun depth => by rw [declare]

section

variable (declaring : Declaring w p family k s d) (registers : Registers w p.registry family k)
include declaring registers

theorem need (admitted : w.Admits family asked p.owner target) :
    Enters w p.registry asked (some p.handle) 0 (3 * k + 1)
      (fun depth => discard (register w depth p.registry p.owner target)) s
      fun _ r => r.Knows (w.types.hash target) :=
  registers.need declaring.steady declaring.covers declaring.few admitted.1 admitted.2

theorem needs {types : List TypeKey}
    (admitted : ∀ type ∈ types, w.Admits family asked p.owner type) :
    Enters w p.registry asked (some p.handle) 0 (3 * k + 1)
      (fun depth => types.forM fun type => discard (register w depth p.registry p.owner type)) s
      fun _ r => ∀ type ∈ types, r.Knows (w.types.hash type) :=
  registers.needs declaring.steady declaring.covers declaring.few
    (fun type listed => (admitted type listed).1) fun type listed => (admitted type listed).2

theorem enters_field (admitted : w.Admits family asked p.owner target) (name : String)
    (lens : Lens) (offset : Option UInt64) (notes : Notes) :
    Enters w p.registry asked (some p.handle) 0 (3 * k + 2)
      (declare w · p d (.field name target lens offset notes)) s Draft.Resolved := by
  have added := (declaring.need registers admitted).bind declaring.steady
    fun _ _ steady retained there =>
      have now := declaring.later steady retained
      Pass.enters_addField (k := 3 * k + 1) steady now.resolved there name lens offset notes
  exact added.deeper fun depth => by rw [declare]

theorem enters_property (admitted : w.Admits family asked p.owner target) (name : String)
    (getter : Value → Value) (setter : Option (Value → Value → Value)) (notes : Notes) :
    Enters w p.registry asked (some p.handle) 0 (3 * k + 2)
      (declare w · p d (.property name target getter setter notes)) s Draft.Resolved := by
  have added := (Pass.enters_intern declaring.steady name).bind declaring.steady
    fun name _ steady retained _ =>
      have named := declaring.later steady retained
      (named.need registers admitted).bind steady fun _ _ steady retained there =>
        have now := named.later steady retained
        Pass.enters_addProperty (k := 3 * k + 1) steady now.resolved there name getter setter notes
  exact added.deeper fun depth => by rw [declare]

theorem enters_base (admitted : w.Admits family asked p.owner target) (lens : Lens) :
    Enters w p.registry asked (some p.handle) 0 (3 * k + 2) (declare w · p d (.base target lens)) s
      Draft.Resolved := by
  have added := (declaring.need registers admitted).bind declaring.steady
    fun _ _ steady retained there =>
      have now := declaring.later steady retained
      enters_pure (k := 3 * k + 1) (a := p.addBase w.types d target lens) steady
        (now.resolved.addBase there)
  exact added.deeper fun depth => by rw [declare]

theorem enters_method {params : List TypeKey} {result : TypeKey}
    (admitted : ∀ type ∈ params, w.Admits family asked p.owner type)
    (answered : w.Admits family asked p.owner result) (form : MethodForm) (name : String)
    (body : Value → List Value → Effect) (notes : Notes) :
    Enters w p.registry asked (some p.handle) 0 (3 * k + 2)
      (declare w · p d (.method form name params result body notes)) s Draft.Resolved := by
  have added := (declaring.needs registers admitted).bind declaring.steady
    fun _ _ steady retained there =>
      have taken := declaring.later steady retained
      (taken.need registers answered).bind steady fun _ _ steady' retained given =>
        have now := taken.later steady' retained
        Pass.enters_addMethod (k := 3 * k + 1) steady' now.resolved
          (fun type listed => retained.knows steady.consistent (there type listed)) given form name
          body notes
  exact added.deeper fun depth => by rw [declare]

/-- A constructor registers its own type after those that it takes, and that type has its row. -/
theorem enters_constructor {params : List TypeKey}
    (admitted : ∀ type ∈ params, w.Admits family asked p.owner type) (make : List Value → Value)
    (notes : Notes) :
    Enters w p.registry asked (some p.handle) 0 (3 * k + 2)
      (declare w · p d (.constructor params make notes)) s Draft.Resolved := by
  have added := (declaring.needs registers admitted).bind declaring.steady
    fun _ _ steady retained there =>
      have taken := declaring.later steady retained
      taken.need_own.bind steady fun _ _ steady' retained _ =>
        have now := taken.later steady' retained
        Pass.enters_addConstructor (k := 3 * k + 1) steady' now.resolved
          (fun type listed => retained.knows steady.consistent (there type listed)) make notes
  exact added.deeper fun depth => by rw [declare]

/-- A declaration registers what it refers to, and no more. -/
theorem enters_declare {decl : Decl} (plain : decl.OnlyDeclares)
    (admitted : ∀ type ∈ decl.mentions, w.Admits family asked p.owner type) :
    Enters w p.registry asked (some p.handle) (if decl.isProbe then 1 else 0) (3 * k + 2)
      (declare w · p d decl) s Draft.Resolved := by
  have steady := declaring.steady
  have resolved := declaring.resolved
  cases decl with
  | setName name =>
    exact (Pass.enters_setName steady resolved name).deeper fun depth => by rw [declare]
  | annotate key value =>
    exact (Pass.enters_annotate steady resolved key value).deeper fun depth => by rw [declare]
  | enumValue name value =>
    exact (Pass.enters_addEnumValue steady resolved name value).deeper fun depth => by rw [declare]
  | field name target lens offset notes =>
    have there := admitted target List.mem_cons_self
    exact declaring.enters_field registers there name lens offset notes
  | property name target getter setter notes =>
    have there := admitted target List.mem_cons_self
    exact declaring.enters_property registers there name getter setter notes
  | base target lens =>
    exact declaring.enters_base registers (admitted target List.mem_cons_self) lens
  | method form name params result body notes =>
    have given := admitted result (List.mem_append_right params (List.mem_singleton_self result))
    exact declaring.enters_method registers
      (fun type listed => admitted type (List.mem_append_left [result] listed)) given form name body
      notes
  | constructor params make notes =>
    exact declaring.enters_constructor registers admitted make notes
  | probe => exact declaring.enters_probe
  | panic => contradiction
  | run steps => contradiction

end

/-- The declarations of a description, one after another. -/
theorem enters_declares {decls : List Decl} (declaring : Declaring w p family k s d)
    (registers : Registers w p.registry family k) (plain : ∀ decl ∈ decls, decl.OnlyDeclares)
    (admitted : ∀ decl ∈ decls, ∀ type ∈ decl.mentions, w.Admits family asked p.owner type) :
    Enters w p.registry asked (some p.handle) (decls.countP Decl.isProbe) (3 * k + 2)
      (fun depth => decls.foldlM (declare w depth p) d) s Draft.Resolved := by
  induction decls generalizing s d with
  | nil => exact enters_pure declaring.steady declaring.resolved
  | cons first rest ih =>
    have here := List.forall_mem_cons.mp plain
    have within := List.forall_mem_cons.mp admitted
    have declared := declaring.enters_declare registers here.1 within.1
    have both := declared.sum declaring.steady fun d' t steady retained resolved' =>
      ih ((declaring.later steady retained).drafted resolved') here.2 within.2
    rw [Nat.add_comm] at both
    simpa only [List.foldlM_cons, List.countP_cons] using both

end Declaring

end Script

end TypeCatalog
