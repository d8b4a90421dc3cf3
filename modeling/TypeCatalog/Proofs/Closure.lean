import TypeCatalog.Proofs.Aliases
import TypeCatalog.Proofs.Declaring

/-!
The registration of a type of a finite family whose descriptions only declare members. Each row that
is added leaves one type fewer of the family to be described, so the registration ends however the
types refer to one another; and what a row refers to is there by the time it is published.
-/
namespace TypeCatalog

namespace Script

open Play

variable {w : World} {n k : Nat} {asked : TypeKey × ModuleId → Prop} {s t : Session}
  {family : List TypeKey} {type : TypeKey} {owner : ModuleId} {r : Registry}

/-- A session in which the row of a type has been added and is to be described. -/
def Session.adding (s : Session) (u : Universe) (n : Nat) (type : TypeKey) (m : ModuleId) :
    Session :=
  { s with registries := s.registries.set n ((s.registry n).insertSkeleton u type m).2 }

theorem registry_adding (within : n < s.registries.length) (u : Universe) (m : ModuleId) :
    (s.adding u n type m).registry n = ((s.registry n).insertSkeleton u type m).2 :=
  registry_set within _ _ _

theorem anyRow?_adding {u : Universe} (steady : s.Steady n none) (m : ModuleId) :
    ((s.adding u n type m).registry n).anyRow? ((s.registry n).insertSkeleton u type m).1 =
      some ((s.registry n).skeletonRow u type m) := by
  rw [registry_adding steady.within, Registry.anyRow?_insertSkeleton steady.consistent, if_pos rfl]

theorem steady_adding {u : Universe} (steady : s.Steady n none)
    (absent : (s.registry n).anyByHash? (u.hash type) = none) (m : ModuleId) :
    (s.adding u n type m).Steady n (some ((s.registry n).insertSkeleton u type m).1) where
  within := by
    rw [Session.adding, List.length_set]
    exact steady.within
  consistent := by
    rw [registry_adding steady.within]
    exact (Registry.retainedIn_insertSkeleton steady.consistent m absent).consistent
  open_ h same := by
    cases same
    rw [anyRow?_adding steady]
    exact nofun

theorem anyRow?_adding_of_ne {u : Universe} (steady : s.Steady n none) {m : ModuleId}
    {h : TypeHandle} (other : h ≠ ((s.registry n).insertSkeleton u type m).1) :
    ((s.adding u n type m).registry n).anyRow? h = (s.registry n).anyRow? h := by
  rw [registry_adding steady.within, Registry.anyRow?_insertSkeleton steady.consistent,
    if_neg other]

/-- A session in which a draft has been folded into the row behind a handle. -/
def Session.committing (s : Session) (n : Nat) (h : TypeHandle) (draft : Draft) : Session :=
  { s with registries := s.registries.set n ((s.registry n).commit h draft) }

theorem registry_committing (within : n < s.registries.length) (h : TypeHandle) (draft : Draft) :
    (s.committing n h draft).registry n = (s.registry n).commit h draft :=
  registry_set within _ _ _

/-- What is known of a session `t` that has been reached from `s` by adding the row of a type and
running its description, as long as no row is lost meanwhile. -/
structure AfterAdding (u : Universe) (n : Nat) (type : TypeKey) (m : ModuleId) (s t : Session) :
    Prop where
  steady : s.Steady n none
  absent : (s.registry n).anyByHash? (u.hash type) = none
  count : t.registries.length = s.registries.length
  kept : ((s.adding u n type m).registry n).RetainedIn (t.registry n)

namespace AfterAdding

variable {u : Universe} {m : ModuleId}

theorem new (after : AfterAdding u n type m s t) :
    (s.registry n).anyRow? ((s.registry n).insertSkeleton u type m).1 = none :=
  Registry.anyRow?_new after.steady.consistent _ _ _

theorem pending (after : AfterAdding u n type m s t) :
    (t.registry n).anyRow? ((s.registry n).insertSkeleton u type m).1 =
      some ((s.registry n).skeletonRow u type m) :=
  after.kept.rows (anyRow?_adding after.steady m)

theorem retained (after : AfterAdding u n type m s t) :
    (s.registry n).RetainedIn (t.registry n) := by
  have added := Registry.retainedIn_insertSkeleton after.steady.consistent m after.absent
  rw [← registry_adding after.steady.within] at added
  exact added.trans after.kept

theorem registry_committing (after : AfterAdding u n type m s t) (h : TypeHandle) (draft : Draft) :
    (t.committing n h draft).registry n = (t.registry n).commit h draft :=
  Script.registry_committing (after.count ▸ after.steady.within) h draft

/-- What is known while the row is described is known once it is published. -/
theorem knows (after : AfterAdding u n type m s t) {hash : TypeHash}
    (known : (t.registry n).Knows hash) (h : TypeHandle) (draft : Draft) :
    ((t.committing n h draft).registry n).Knows hash := by
  rw [after.registry_committing]
  exact known.commit after.kept.consistent h draft

end AfterAdding

/-- The handle of the row that is added for a type that is asked for. -/
abbrev Session.added (s : Session) (w : World) (n : Nat) (q : TypeKey × ModuleId) : TypeHandle :=
  ((s.registry n).insertSkeleton w.types q.1 (ownerOf w.types q.1 q.2)).1

/-- What there is between the addition of a row and its publication: the type that it is of has
been asked for, and its description has been run and has left a draft of all that it declares. -/
structure Drafting (w : World) (n : Nat) (asked : TypeKey × ModuleId → Prop)
    (q : TypeKey × ModuleId) (s t : Session) (draft : Draft) : Prop where
  steady : s.Steady n none
  absent : (s.registry n).anyByHash? (w.types.hash q.1) = none
  from_ : asked q
  described : Entered w n asked (some (s.added w n q)) ((w.describe q.1).decls.countP Decl.isProbe)
    (s.adding w.types n q.1 (ownerOf w.types q.1 q.2)) t
  resolved : draft.Resolved (t.registry n)
  recorded : ∀ decl ∈ (w.describe q.1).decls, draft.Records w.types q.1 decl

namespace Drafting

variable {q : TypeKey × ModuleId} {draft : Draft}

theorem after (drafting : Drafting w n asked q s t draft) :
    AfterAdding w.types n q.1 (ownerOf w.types q.1 q.2) s t where
  steady := drafting.steady
  absent := drafting.absent
  count := by
    rw [drafting.described.session, List.length_set, Session.adding, List.length_set]
  kept := drafting.described.retained

/-- The row itself has been told of only while its description was run. -/
theorem added_itself (drafting : Drafting w n asked q s t draft) :
    Added w n asked s (t.committing n (s.added w n q) draft) (s.added w n q)
      (((s.registry n).skeletonRow w.types q.1 (ownerOf w.types q.1 q.2)).publish draft) := by
  let row := (s.registry n).skeletonRow w.types q.1 (ownerOf w.types q.1 q.2)
  have grows := row.publish_grows draft
  have bare : row.Bare := skeletonRow_bare _ _ _ _
  have there : ((s.adding w.types n q.1 (ownerOf w.types q.1 q.2)).registry n).anyRow?
      (s.added w n q) = some row := anyRow?_adding drafting.steady _
  have told := drafting.described.others (.inl (there.trans_ne nofun))
  rw [if_pos rfl] at told
  refine ⟨⟨q, drafting.from_, grows.typeHash, grows.owner,
    ⟨row, draft, bare, rfl, drafting.recorded⟩, told⟩, rfl, fun hash listed => ?_⟩
  have known := Row.publish_references (by simp [Registry.skeletonRow, Row.references, typesOf])
    drafting.resolved hash listed
  exact drafting.after.knows known _ draft

/-- The rows that were added while the row was described. -/
theorem added_meanwhile (drafting : Drafting w n asked q s t draft) {h : TypeHandle} {row : Row}
    (other : h ≠ s.added w n q) (absent : (s.registry n).anyRow? h = none)
    (there : (t.registry n).anyRow? h = some row) :
    Added w n asked s (t.committing n (s.added w n q) draft) h row := by
  have before := anyRow?_adding_of_ne drafting.steady other
  obtain ⟨origin, published, known⟩ := drafting.described.added (before.trans absent) there
  exact ⟨origin, published, fun hash listed => drafting.after.knows (known hash listed) _ draft⟩

/-- No other description than those of the added rows has been told of. -/
theorem others (drafting : Drafting w n asked q s t draft) {h : TypeHandle}
    (known : (s.registry n).anyRow? h ≠ none ∨
      ((t.registry n).commit (s.added w n q) draft).anyRow? h = none) :
    t.probes h = s.probes h := by
  have different : h ≠ s.added w n q := by
    rintro rfl
    rw [Registry.anyRow?_commit drafting.after.pending] at known
    exact known.elim (fun there => there drafting.after.new) (by simp)
  rw [Registry.anyRow?_commit_of_ne drafting.after.pending different,
    ← anyRow?_adding_of_ne drafting.steady different] at known
  have told := drafting.described.others known
  rwa [if_neg fun same => different (Option.some.inj same).symm] at told

/-- A row brings with it all that is added while it is described. -/
theorem published (drafting : Drafting w n asked q s t draft) :
    Entered w n asked none 0 s (t.committing n (s.added w n q) draft) := by
  have here := drafting.after.registry_committing (s.added w n q) draft
  have pending := drafting.after.pending
  constructor
  · have before := drafting.described.session
    rw [Session.adding] at before
    rw [here, Session.committing, before]
    simp only [List.set_set]
  · rw [here]
    exact drafting.after.retained.commit drafting.after.new draft
  · intro h row absent there
    rw [here] at there
    by_cases same : h = s.added w n q
    · rw [same, Registry.anyRow?_commit pending] at there
      cases there
      exact same ▸ drafting.added_itself
    · rw [Registry.anyRow?_commit_of_ne pending same] at there
      exact drafting.added_meanwhile same absent there
  · intro h known
    rw [here] at known
    rw [if_neg (by simp)]
    exact drafting.others known

theorem anyByHash?_committed (drafting : Drafting w n asked q s t draft) :
    ∃ row, ((t.committing n (s.added w n q) draft).registry n).anyByHash? (w.types.hash q.1) =
      some (s.added w n q, row) := by
  have published := Registry.anyRow?_commit drafting.after.pending draft
  have hash := (((s.registry n).skeletonRow w.types q.1 (ownerOf w.types q.1 q.2)).publish_grows
    draft).typeHash
  have consistent :=
    Registry.commit_consistent drafting.after.kept.consistent (s.added w n q) draft
  have found := consistent.anyByHash?_of_anyRow? published
  rw [hash] at found
  rw [drafting.after.registry_committing]
  exact ⟨_, found⟩

end Drafting

/-- What holds of all declarations of a description holds of those that the registry wants. -/
theorem Description.forall_wanted {P : Decl → Prop} {d : Description}
    (all : ∀ decl ∈ d.decls, P decl)
    (initial : ∀ value, P (.constructor [] (fun _ => value) [])) (config : RegistryConfig) :
    ∀ decl ∈ d.wanted config, P decl := by
  unfold Description.wanted
  repeat' split
  · exact List.forall_mem_cons.mpr ⟨initial _, all⟩
  · exact all
  · exact all

theorem Description.mem_wanted {d : Description} {decl : Decl} (declared : decl ∈ d.decls)
    (config : RegistryConfig) : decl ∈ d.wanted config := by
  unfold Description.wanted
  repeat' split
  · exact List.mem_cons_of_mem _ declared
  · exact declared
  · exact declared

theorem Description.probes_wanted (d : Description) (config : RegistryConfig) :
    (d.wanted config).countP Decl.isProbe = d.decls.countP Decl.isProbe := by
  unfold Description.wanted
  repeat' split
  all_goals rfl

theorem knows_adding {u : Universe} (steady : s.Steady n none)
    (absent : (s.registry n).anyByHash? (u.hash type) = none) (m : ModuleId) :
    ((s.adding u n type m).registry n).Knows (u.hash type) := by
  have consistent := (steady_adding steady absent m).consistent
  exact ⟨_, consistent.anyByHash?_of_anyRow? (anyRow?_adding steady m)⟩

/-- Registering a type that has no row runs its description, and publishes what has been drafted. -/
theorem outcome_register_new {depth : Nat} {draft : Draft}
    (absent : (s.registry n).anyByHash? (w.types.hash type) = none) :
    let m := ownerOf w.types type owner
    let p : Pass := ⟨n, type, ((s.registry n).insertSkeleton w.types type m).1, m⟩
    (((w.describe type).wanted (s.registry n).config).foldlM (declare w depth p) {}).outcome
      (s.adding w.types n type m) = (.ok draft, t) →
    (register w (depth + 2) n owner type).outcome s =
      (.ok p.handle, t.committing n p.handle draft) := by
  intro m p drafted
  have got : (Play.registry n).outcome s = (.ok (s.registry n), s) := rfl
  have added := outcome_changeRegistry n (·.insertSkeleton w.types type m) s
  have committed := outcome_changeRegistry n (fun r => ((), r.commit p.handle draft)) t
  rw [register, outcome_bind_ok got, absent]
  dsimp only
  rw [outcome_bind_ok added, describe]
  exact outcome_guarded_ok (p := p) ((outcome_bind_ok drafted).trans committed)

/-- The declarations of a type that is registered ask for nothing else than the type does. -/
theorem admits_wanted (covers : w.Covers family r) (lacks : type ∈ lacking w family r)
    (owner : ModuleId) (config : RegistryConfig) :
    ∀ decl ∈ (w.describe type).wanted config, decl.OnlyDeclares ∧ ∀ other ∈ decl.mentions,
      w.Admits family (Relation.ReflTransGen w.Asks (type, owner)) (ownerOf w.types type owner)
        other := by
  refine Description.forall_wanted (fun decl declared => ?_)
    (fun _ => ⟨trivial, by simp [Decl.mentions]⟩) config
  obtain ⟨plain, listed⟩ := covers type lacks decl declared
  exact ⟨plain, fun other mentioned =>
    ⟨listed mentioned, fun q later => .head ⟨⟨decl, declared, mentioned⟩, rfl⟩ later⟩⟩

/-- With its row added, a type of the family is described while fewer of them are lacking. -/
theorem declaring_adding (steady : s.Steady n none)
    (absent : (s.registry n).anyByHash? (w.types.hash type) = none) (listed : type ∈ family)
    (covers : w.Covers family (s.registry n))
    (few : (lacking w family (s.registry n)).length ≤ k + 1) (m : ModuleId) :
    Declaring w ⟨n, type, ((s.registry n).insertSkeleton w.types type m).1, m⟩ family k
      (s.adding w.types n type m) {} := by
  have there := knows_adding steady absent m
  have retained := Registry.retainedIn_insertSkeleton steady.consistent m absent
  rw [← registry_adding steady.within] at retained
  have less := lacking_length_lt retained steady.consistent listed absent there
  exact {
    steady := steady_adding steady absent m
    covers := covers.retained retained steady.consistent
    few := Nat.le_of_lt_succ (Nat.lt_of_lt_of_le less few)
    known := there
    resolved := by simp [Draft.Resolved, Draft.references, typesOf] }

/-- One more type of the family may be lacking at each level. -/
theorem Registers.succ (registers : Registers w n family k) :
    Registers w n family (k + 1) := by
  intro s owner type listed steady covers few
  cases absent : (s.registry n).anyByHash? (w.types.hash type) with
  | some found => exact enters_register_known steady ⟨found, absent⟩
  | none =>
    let m := ownerOf w.types type owner
    let p : Pass := ⟨n, type, ((s.registry n).insertSkeleton w.types type m).1, m⟩
    have begun : Declaring w p family k (s.adding w.types n type m) {} :=
      declaring_adding steady absent listed covers few m
    have admits := admits_wanted covers (mem_lacking.mpr ⟨listed, absent⟩) owner
      (s.registry n).config
    obtain ⟨draft, t, described, resolved, ends⟩ := begun.enters_declares registers
      (fun decl declared => (admits decl declared).1) fun decl declared => (admits decl declared).2
    rw [Description.probes_wanted] at described
    have recorded : ∀ decl ∈ (w.describe type).decls, draft.Records w.types type decl :=
      fun decl declared => (answers_foldlM_declare _ _ _ _ _ _ _ _ (ends _ (Nat.le_refl _))).2 decl
        (Description.mem_wanted declared _)
    have drafting : Drafting w n _ (type, owner) s t draft :=
      ⟨steady, absent, .refl, described, resolved, recorded⟩
    refine ⟨p.handle, _, drafting.published, drafting.anyByHash?_committed, fun depth enough => ?_⟩
    obtain ⟨depth, rfl⟩ : ∃ d, depth = d + 2 := ⟨depth - 2, by omega⟩
    exact outcome_register_new absent (ends depth (by omega))

/-- The types of a family can be registered, however many of them are lacking. -/
theorem registers_covered (n k : Nat) : Registers w n family k := by
  induction k with
  | succ k ih => exact ih.succ
  | zero =>
    intro s owner type listed steady covers few
    have none := List.eq_nil_of_length_eq_zero (Nat.le_zero.mp few)
    have there := List.filter_eq_nil_iff.mp none type listed
    cases found : (s.registry n).anyByHash? (w.types.hash type) with
    | none => simp [found] at there
    | some pair => exact enters_register_known steady ⟨pair, found⟩

theorem registers_all (closed : w.Closed family) (n k : Nat) (s : Session) (owner : ModuleId)
    (type : TypeKey) (listed : type ∈ family) (steady : s.Steady n none)
    (few : (lacking w family (s.registry n)).length ≤ k) :
    Enters w n (Relation.ReflTransGen w.Asks (type, owner)) none 0 (3 * k + 1)
      (register w · n owner type) s fun h r =>
        ∃ row, r.anyByHash? (w.types.hash type) = some (h, row) :=
  registers_covered n k s owner type listed steady (closed.covers _) few

/-- Whether what is asked for is asked for by a type with the hash of a built-in, on the way from
another request, or is such a type itself. -/
def World.AsksThroughBuiltIn (w : World) (p q : TypeKey × ModuleId) : Prop :=
  ∃ b, Relation.ReflTransGen w.Asks p b ∧ (PrimitiveKind.ofHash? (w.types.hash b.1)).isSome ∧
    Relation.ReflTransGen w.Asks b q

/-- What a type with the hash of a built-in asks for is asked for on behalf of the host. -/
theorem host_of_asks {b q : TypeKey × ModuleId}
    (builtIn : (PrimitiveKind.ofHash? (w.types.hash b.1)).isSome)
    (asks : Relation.ReflTransGen w.Asks b q) : ownerOf w.types q.1 q.2 = .host := by
  have known : (PrimitiveKind.ofHash? (w.types.hash q.1)).isSome ∨ q.2 = .host := by
    induction asks with
    | refl => exact .inl builtIn
    | @tail a c _ asks ih =>
      refine .inr (asks.2.trans ?_)
      unfold ownerOf
      split
      · rfl
      · rename_i other
        exact ih.resolve_left other
  unfold ownerOf
  split
  · rfl
  · rename_i other
    exact known.resolve_left other

/-- All else is asked for on behalf of the module of the registration. -/
theorem ownerOf_of_not_asksThrough {m : ModuleId} {q : TypeKey × ModuleId}
    (asks : Relation.ReflTransGen w.Asks (type, m) q)
    (other : ¬ w.AsksThroughBuiltIn (type, m) q) : ownerOf w.types q.1 q.2 = m := by
  have plain : ∀ {a}, Relation.ReflTransGen w.Asks (type, m) a → Relation.ReflTransGen w.Asks a q →
      ¬ (PrimitiveKind.ofHash? (w.types.hash a.1)).isSome :=
    fun before after builtIn => other ⟨_, before, builtIn, after⟩
  have own : ∀ {a}, Relation.ReflTransGen w.Asks (type, m) a →
      Relation.ReflTransGen w.Asks a q → a.2 = m := by
    intro a before
    induction before with
    | refl => exact fun _ => rfl
    | @tail b c before step ih =>
      intro after
      have onwards := Relation.ReflTransGen.head step after
      rw [step.2, ownerOf, if_neg (plain before onwards)]
      exact ih onwards
  rw [ownerOf, if_neg (plain asks .refl)]
  exact own asks .refl

/-- Whether the built-in types of a family refer to built-in types only. -/
def World.BuiltInsApart (w : World) (family : List TypeKey) : Prop :=
  ∀ type ∈ family, (PrimitiveKind.ofHash? (w.types.hash type)).isSome →
    ∀ decl ∈ (w.describe type).decls, ∀ other ∈ decl.mentions,
      (PrimitiveKind.ofHash? (w.types.hash other)).isSome

/-- What is asked for within a registration is asked for on behalf of its module, but for built-in
types. -/
theorem ownerOf_of_asks (closed : w.Closed family) (apart : w.BuiltInsApart family)
    (listed : type ∈ family) {m : ModuleId} {q : TypeKey × ModuleId}
    (asks : Relation.ReflTransGen w.Asks (type, m) q) :
    ownerOf w.types q.1 q.2 = ownerOf w.types q.1 m := by
  have known : q.1 ∈ family ∧
      ((PrimitiveKind.ofHash? (w.types.hash q.1)).isSome ∨ q.2 = m) := by
    induction asks with
    | refl => exact ⟨listed, .inr rfl⟩
    | @tail a b _ asks ih =>
      obtain ⟨⟨decl, declared, mentioned⟩, owner⟩ := asks
      refine ⟨closed.mentioned a.1 ih.1 decl declared mentioned, ?_⟩
      by_cases builtIn : (PrimitiveKind.ofHash? (w.types.hash a.1)).isSome
      · exact .inl (apart a.1 ih.1 builtIn decl declared b.1 mentioned)
      · rw [owner, ownerOf, if_neg builtIn]
        exact .inr (ih.2.resolve_left builtIn)
  rcases known.2 with builtIn | same
  · rw [ownerOf, ownerOf, if_pos builtIn, if_pos builtIn]
  · rw [same]

open Catalog in
/-- Registering a type of a finite family whose descriptions only declare members ends, whichever of
its types refer to which and whichever have rows already, as long as no type of the registry is
being described: no more than three levels for each type of the family are needed. The handle that
is returned is alive. The rows that were there are behind their handles as before, and none of
their descriptions has been run. Each row that has been added is published and refers to published
rows only. The description of its type has been run once: the row has one draft, of all that is
declared, and just as many probes have been told of it as the description holds. The row is owned
by the host if its type has the hash of a built-in, or has been asked for through one that does, and
by the module of the registration if not; where the built-in types of the family refer to built-in
types only, the hash of the row decides. -/
theorem registration_closes_over_references {passes : List OpenPass} (closed : w.Closed family)
    (reachable : Reachable w.types (s.catalog passes)) (within : n < s.registries.length)
    (settled : (s.catalog passes).Settled n) (m : ModuleId) (listed : type ∈ family) :
    ∃ h t,
      (∀ depth, 3 * family.length < depth →
        (register w depth n m type).outcome s = (.ok h, t)) ∧
      (∃ row, (t.registry n).row? h = some row ∧ row.typeHash = w.types.hash type) ∧
      (∀ g row, (s.registry n).anyRow? g = some row → (t.registry n).anyRow? g = some row) ∧
      (∀ g, (s.registry n).anyRow? g ≠ none ∨ (t.registry n).anyRow? g = none →
        t.probes g = s.probes g) ∧
      ∀ g row, (s.registry n).anyRow? g = none → (t.registry n).anyRow? g = some row →
        row.published = true ∧
        (∀ hash ∈ row.references,
          ∃ f other, (t.registry n).row? f = some other ∧ other.typeHash = hash) ∧
        (∃ asked by_, Relation.ReflTransGen w.Asks (type, m) (asked, by_) ∧
          row.typeHash = w.types.hash asked ∧ row.owner = ownerOf w.types asked by_ ∧
          w.Describes asked row ∧
          t.probes g = s.probes g + (w.describe asked).decls.countP Decl.isProbe ∧
          (w.AsksThroughBuiltIn (type, m) (asked, by_) → row.owner = .host) ∧
          (¬ w.AsksThroughBuiltIn (type, m) (asked, by_) → row.owner = m)) ∧
        (w.BuiltInsApart family → row.owner =
          if (PrimitiveKind.ofHash? row.typeHash).isSome then .host else m) := by
  have steady : s.Steady n none := ⟨within, reachable.allConsistent n, nofun⟩
  have few : (lacking w family (s.registry n)).length ≤ family.length := List.length_filter_le _ _
  obtain ⟨h, t, entered, ⟨row, found⟩, ends⟩ :=
    registers_all closed n family.length s m type listed steady few
  have consistent := entered.retained.consistent
  have published : ∀ g row, (t.registry n).anyRow? g = some row →
      (t.registry n).row? g = some row := by
    intro g row there
    refine Option.filter_eq_some_iff.mpr ⟨there, ?_⟩
    cases before : (s.registry n).anyRow? g with
    | none => exact (entered.added before there).published
    | some old =>
      cases Option.some.inj ((entered.retained.rows before).symm.trans there)
      have present := (SlotTable.get?_eq_some_iff.mp before).1
      exact reachable.published settled present
  have shown : ∀ {hash}, (t.registry n).Knows hash →
      ∃ f other, (t.registry n).row? f = some other ∧ other.typeHash = hash := by
    rintro hash ⟨⟨f, other⟩, there⟩
    obtain ⟨here, same⟩ := consistent.of_anyByHash? there
    exact ⟨f, other, published f other here, same⟩
  obtain ⟨there, same⟩ := consistent.of_anyByHash? found
  refine ⟨h, t, fun depth enough => ends depth (by omega), ⟨row, published h row there, same⟩,
    fun g row => entered.retained.rows, fun g known => by simpa using entered.others known,
    fun g row absent there => ?_⟩
  obtain ⟨⟨⟨asked, by_⟩, asks, hash, owner, described, told⟩, isPublished, resolved⟩ :=
    entered.added absent there
  refine ⟨isPublished, fun hash listed => shown (resolved hash listed),
    ⟨asked, by_, asks, hash, owner, described, told, ?_, fun other => ?_⟩, fun apart => ?_⟩
  · rintro ⟨b, -, builtIn, after⟩
    exact owner.trans (host_of_asks builtIn after)
  · exact owner.trans (ownerOf_of_not_asksThrough asks other)
  · rw [owner, ownerOf_of_asks closed apart listed asks, hash, ownerOf]

/-- Two types that refer to each other, one of them in a method that also takes a number. -/
def referringWorld : World where
  types := Gallery.knownTypes
  describe type :=
    if type = .user "A" then { decls := [.probe, .field "b" (.user "B") .whole none []] }
    else if type = .user "B" then
      { decls := [.base (.user "A") .whole,
          .method .shared "same" [Gallery.i32] (.user "B") (fun object _ => ⟨object, object⟩) []] }
    else {}

theorem referringWorld_closed :
    referringWorld.Closed [.user "A", .user "B", Gallery.i32] where
  onlyDeclare := by simp [referringWorld, Decl.OnlyDeclares, Gallery.int]
  mentioned := by simp [referringWorld, Decl.mentions, Gallery.int]

theorem referringWorld_apart :
    referringWorld.BuiltInsApart [.user "A", .user "B", Gallery.i32] := by
  have named : ∀ type ∈ [TypeKey.user "A", .user "B"],
      (PrimitiveKind.ofHash? (referringWorld.types.hash type)).isSome = false := by
    decide +kernel
  intro type listed builtIn decl declared
  rcases List.mem_append.mp (show type ∈ [.user "A", .user "B"] ++ [Gallery.i32] from listed) with
    named' | number
  · rw [named type named'] at builtIn
    contradiction
  · rw [List.mem_singleton.mp number] at declared
    exact absurd declared List.not_mem_nil

/-- Types that refer to each other are registered together, each described once and on behalf of the
module of the registration, and the number that one of them takes on behalf of the host. -/
theorem referring_types_registered :
    let m := ModuleId.ofName "zoo"
    ∃ h t, (∀ depth, 9 < depth →
        (register referringWorld depth 0 m (.user "A")).outcome oneRegistry = (.ok h, t)) ∧
      (∃ row, (t.registry 0).row? h = some row) ∧ t.probes h = 1 ∧
      (t.registry 0).publishedRows.length = 3 ∧
      ∀ g row, (t.registry 0).anyRow? g = some row →
        row.owner = if (PrimitiveKind.ofHash? row.typeHash).isSome then .host else m := by
  intro m
  have begun : Catalog.Reachable referringWorld.types (oneRegistry.catalog []) :=
    oneRegistry_reachable _
  have settled : (oneRegistry.catalog []).Settled 0 := nofun
  obtain ⟨h, t, ends, ⟨row, alive, -⟩, -, -, new⟩ := registration_closes_over_references
    referringWorld_closed begun Nat.one_pos settled m List.mem_cons_self
  have computed : (let ran := (register referringWorld 10 0 (.ofName "zoo")
      (.user "A")).outcome oneRegistry
    ran.1.toOption.map ran.2.probes = some 1 ∧ (ran.2.registry 0).publishedRows.length = 3) := by
    decide +kernel
  rw [ends 10 (by decide)] at computed
  exact ⟨h, t, ends, ⟨row, alive⟩, Option.some.inj computed.1, computed.2, fun g row there =>
    (new g row rfl there).2.2.2 referringWorld_apart⟩

/-- Types without members, but for one that has the hash of a built-in type and a field of another
type. -/
def confusedWorld : World where
  types := Gallery.knownTypes
  describe type :=
    if type = .user "Fake" then { decls := [.field "a" (.user "A") .whole none []] } else {}

theorem confusedWorld_closed (family : List TypeKey) (listed : .user "A" ∈ family) :
    confusedWorld.Closed family := by
  constructor
  all_goals
    intro type _ decl declared
    have named : decl = .field "a" (.user "A") .whole none [] := by
      by_cases fake : type = .user "Fake"
      · simpa [confusedWorld, fake] using declared
      · simp [confusedWorld, fake] at declared
    subst named
  · trivial
  · simpa [Decl.mentions] using listed

/-- A type that is not built in but has the hash of a built-in is owned by the host, and so is the
type of its field, whatever module they are registered for. -/
theorem field_of_false_built_in_owned_by_host :
    let m := ModuleId.ofName "zoo"
    let family := [TypeKey.user "Fake", .user "A"]
    let ran := (register confusedWorld 10 0 m (.user "Fake")).outcome oneRegistry
    confusedWorld.Closed family ∧
      Catalog.Reachable confusedWorld.types (oneRegistry.catalog []) ∧
      (oneRegistry.catalog []).Settled 0 ∧ ran.1.isOk ∧
      ¬ ∀ g row, (oneRegistry.registry 0).anyRow? g = none →
        (ran.2.registry 0).anyRow? g = some row →
        row.owner = if (PrimitiveKind.ofHash? row.typeHash).isSome then .host else m := by
  intro m family ran
  have computed : ran.1.isOk ∧ ((ran.2.registry 0).anyRow? ⟨⟨1, 0⟩⟩).any fun row =>
      !(PrimitiveKind.ofHash? row.typeHash).isSome && row.owner = .host := by decide +kernel
  refine ⟨confusedWorld_closed _ (by simp [family]), oneRegistry_reachable _, nofun, computed.1,
    fun owned => ?_⟩
  obtain ⟨row, there, facts⟩ := (Option.any_eq_true _ _).mp computed.2
  obtain ⟨named, host⟩ := Bool.and_eq_true_iff.mp facts
  have own := owned ⟨⟨1, 0⟩⟩ row rfl there
  rw [if_neg (by simpa using named), of_decide_eq_true host] at own
  exact ModuleId.ofName_ne_host "zoo" own.symm

end Script

end TypeCatalog
