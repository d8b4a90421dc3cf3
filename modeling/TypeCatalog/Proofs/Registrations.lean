import TypeCatalog.Gallery.Shape
import TypeCatalog.Proofs.Bookkeeping
import TypeCatalog.Proofs.Declarations
import TypeCatalog.Proofs.Pending
import TypeCatalog.Proofs.Scripts

/-!
The registration of a new type, from the beginning of its description to the end. As long as nothing
within extends the type itself, its row is hidden until the description has been run, and has all that
was declared once it shows; when the description halts, nothing is left of the row.

An extension of a type within its own description ends before the description does, and publishes
the row half described. The row is then seen, and it stays when the description halts.
-/
namespace TypeCatalog

open Script

namespace Script

/-- Whether an action leaves the row of a type that is being described alone: it neither extends the
type nor removes the module that the type is registered for. -/
def Spares (u : Universe) (type : TypeKey) (owner : ModuleId) : Action → Prop
  | .extend other _ => u.hash other ≠ u.hash type
  | .setUp name _ => .ofName name ≠ owner
  | .request (.module (.unregister m)) => m ≠ owner
  | _ => True

end Script

/-- Nothing is found by a hash that no row has. -/
theorem Registry.Consistent.lacks {r : Registry} (consistent : r.Consistent) {hash : TypeHash}
    (others : ∀ index row, r.types.rowAt? index = some row → row.typeHash ≠ hash) :
    r.anyByHash? hash = none ∧ r.typeByHash? hash = none := by
  have none : r.anyByHash? hash = none := by
    cases found : r.anyByHash? hash with
    | none => rfl
    | some pair =>
      obtain ⟨there, same⟩ := consistent.of_anyByHash? found
      exact absurd same (others _ _ (SlotTable.get?_eq_some_iff.mp there).1)
  refine ⟨none, ?_⟩
  rw [Registry.typeByHash?, Registry.byHash?, none]
  rfl

namespace Catalog

variable {u : Universe} {p : Script.Pass} {row : Row} {c d : Catalog} {n : Nat} {type : TypeKey}
  {owner : ModuleId}

theorem allows_meanwhile
    (pending : Pending (c.firstPass u n type owner).pass ((c.registry n).skeletonRow u type owner)
      d) : (Law.meanwhile (u := u) pending).allows = Spares u type owner := by
  funext action
  cases action with
  | request request =>
    cases request with
    | module request => cases request <;> rfl
    | image request => cases request <;> rfl
    | _ => rfl
  | _ => rfl

/-- Discarding a pending row leaves no row of its hash. -/
theorem Pending.discarded (pending : Pending p row c) :
    let r := (c.registry p.registry).discardPending p.handle
    r.Consistent ∧ r.anyRow? p.handle = none ∧
      ∀ index other, r.types.rowAt? index = some other → other.typeHash ≠ row.typeHash := by
  have present := (SlotTable.get?_eq_some_iff.mp pending.there).1
  have types : ((c.registry p.registry).discardPending p.handle).types =
      (c.registry p.registry).types.remove p.handle.slot.index := by
    rw [Registry.discardPending, pending.there]
    simp only [pending.unpublished, Bool.false_eq_true, if_false]
    exact Registry.types_removeRow present
  refine ⟨Registry.discardPending_consistent pending.consistent _, ?_, ?_⟩
  · rw [Registry.anyRow?, types]
    apply SlotTable.get?_of_rowAt?_none
    rw [SlotTable.rowAt?_remove, if_pos rfl]
  · intro index other there same
    rw [types, SlotTable.rowAt?_remove] at there
    split at there
    · contradiction
    · rename_i elsewhere
      exact elsewhere (pending.unique there same).1

/-- Publishing a pending row makes it visible. -/
theorem Pending.committed (pending : Pending p row c) (draft : Draft) :
    ((c.registry p.registry).commit p.handle draft).row? p.handle = some (row.publish draft) :=
  Option.filter_eq_some_iff.mpr ⟨Registry.anyRow?_commit pending.there draft, rfl⟩

theorem Reachable.meanwhile (reachable : Reachable u c)
    (run : Relation.ReflTransGen (Meanwhile u p) c d) : Reachable u d :=
  reachable.trans (Relation.ReflTransGen.mono (fun _ _ step => step.step) _ _ run)

end Catalog

namespace Script

open Play Catalog

/-- How the registration of a new type comes out, from the state in which the description of its row
begins: after a run in which that is the only description of the row, the description ends with a
draft of all that was declared, or it has halted. -/
inductive Registered (u : Universe) (start : Catalog) (p : OpenPass) (rest : List OpenPass)
    (decls : List Decl) : Except Halt TypeHandle × Session → Prop where
  | published {d : Catalog} {q : OpenPass} {draft : Draft} {t : Session}
      (run : Relation.ReflTransGen (Meanwhile u p.pass) start d) (top : d.passes = q :: rest)
      (grows : p.Grows q) (collected : draft.MadeOf q)
      (recorded : ∀ decl ∈ decls, draft.Records u p.pass.type decl)
      (after : t.catalog rest =
        { d.change p.pass.registry (.commit p.pass.handle draft) with passes := rest }) :
      Registered u start p rest decls (.ok p.pass.handle, t)
  | halted {d : Catalog} {q : OpenPass} {halt : Halt} {t : Session}
      (run : Relation.ReflTransGen (Meanwhile u p.pass) start d) (top : d.passes = q :: rest)
      (grows : p.Grows q)
      (after : t.catalog rest =
        { d.change p.pass.registry (.discard p.pass.handle) with passes := rest }) :
      Registered u start p rest decls (.error halt, t)

variable {w : World} {depth n : Nat} {owner : ModuleId} {type : TypeKey} {s t : Session}
  {passes : List OpenPass}

/-- What registering a new type does with the run of its description. -/
def guarded (p : Pass) (described : Play Unit) : Play TypeHandle := do
  onHalt described (Play.changeRegistry p.registry fun r => ((), r.discardPending p.handle))
  return p.handle

theorem outcome_guarded_ok {p : Pass} {described : Play Unit}
    (done : described.outcome s = (.ok (), t)) :
    (guarded p described).outcome s = (.ok p.handle, t) := by
  rw [guarded, onHalt, outcome_bind_ok (outcome_tryCatch_ok done)]
  rfl

theorem outcome_guarded_error {p : Pass} {described : Play Unit} {halt : Halt}
    (halted : described.outcome s = (.error halt, t)) :
    (guarded p described).outcome s = (.error halt, { t with
      registries := t.registries.set p.registry
        ((t.registry p.registry).discardPending p.handle) }) := by
  have cleaned := outcome_changeRegistry p.registry (fun r => ((), r.discardPending p.handle)) t
  apply outcome_bind_error
  rw [onHalt, outcome_tryCatch_error halted, outcome_bind_ok cleaned]
  rfl

/-- As much of the description of a pending row as is run by a law that does not let it end. -/
theorem meanwhile_declares {p : OpenPass} {row : Row}
    (pending : Pending p.pass row (s.catalog (p :: passes)))
    (lawful : w.All (Law.meanwhile (u := w.types) pending).allows) {decls : List Decl}
    (allowed : allDecls (Law.meanwhile (u := w.types) pending).allows decls)
    (numbered : s.Numbered) {answer : Except Halt Draft}
    (ran : (decls.foldlM (declare w depth p.pass) {}).outcome s = (answer, t)) :
    ∃ q, p.Grows q ∧ Relation.ReflTransGen (Meanwhile w.types p.pass) (s.catalog (p :: passes))
      (t.catalog (q :: passes)) ∧ ∀ draft, answer = .ok draft → draft.MadeOf q := by
  have fills := (tameAt lawful depth).fills_declares p allowed
  obtain ⟨q, grows, ready, fit⟩ := fills passes s.registries.length s pending.within
    ⟨.refl, numbered, Nat.le_refl _⟩
  rw [ran] at ready fit
  exact ⟨q, grows, ready.inv, fun draft made => (fit draft made).toMadeOf⟩

theorem registered_describe {p : OpenPass} {row : Row}
    (pending : Pending p.pass row (s.catalog (p :: passes)))
    (lawful : w.All (Law.meanwhile (u := w.types) pending).allows) {decls : List Decl}
    (allowed : allDecls (Law.meanwhile (u := w.types) pending).allows decls)
    (numbered : s.Numbered) :
    Registered w.types (s.catalog (p :: passes)) p passes decls
      ((guarded p.pass (describe w depth p.pass decls)).outcome s) := by
  cases depth with
  | zero =>
    have halted : (describe w 0 p.pass decls).outcome s = (.error .exhausted, s) := by
      rw [describe]
      rfl
    rw [outcome_guarded_error halted]
    exact .halted .refl rfl (.refl p) rfl
  | succ depth =>
    rcases drafted : (decls.foldlM (declare w depth p.pass) {}).outcome s with ⟨answer, t⟩
    obtain ⟨q, grows, run, fit⟩ := meanwhile_declares pending lawful allowed numbered drafted
    cases answer with
    | error halt =>
      have halted : (describe w (depth + 1) p.pass decls).outcome s = (.error halt, t) := by
        rw [describe, outcome_bind_error drafted]
      rw [outcome_guarded_error halted]
      exact .halted run rfl grows rfl
    | ok draft =>
      have recorded := (answers_foldlM_declare w depth p.pass decls {} s draft t drafted).2
      have committed := outcome_changeRegistry p.pass.registry
        (fun r => ((), r.commit p.pass.handle draft)) t
      rw [describe, outcome_guarded_ok ((outcome_bind_ok drafted).trans committed)]
      exact .published run rfl grows (fit draft rfl) recorded rfl

theorem registered_new (reachable : Reachable w.types (s.catalog passes)) (numbered : s.Numbered)
    (within : n < s.registries.length)
    (absent : (s.registry n).anyByHash? (w.types.hash type) = none)
    (spared : w.All (Spares w.types type (ownerOf w.types type owner))) :
    let m := ownerOf w.types type owner
    Registered w.types ((s.catalog passes).begun w.types n type m)
      ((s.catalog passes).firstPass w.types n type m) passes
      ((w.describe type).wanted (s.registry n).config)
      ((register w (depth + 1) n owner type).outcome s) := by
  intro m
  have pending : Pending ((s.catalog passes).firstPass w.types n type m).pass _ _ :=
    pending_begun reachable within absent
  have lawful : w.All (Law.meanwhile (u := w.types) pending).allows := by
    rw [allows_meanwhile]
    exact spared
  have got : (Play.registry n).outcome s = (.ok (s.registry n), s) := rfl
  have added := outcome_changeRegistry n (·.insertSkeleton w.types type m) s
  rw [register, outcome_bind_ok got, absent]
  dsimp only
  rw [outcome_bind_ok added]
  exact registered_describe (p := (s.catalog passes).firstPass w.types n type m) pending lawful
    (lawful.wanted type _) (numbered.set n _)

/-- The registry that a session has after the last step of a description. -/
theorem registry_of_after {d : Catalog} {op : Operation} (within : n < d.registries.length)
    (after : t.catalog passes = { d.change n op with passes := passes }) :
    t.registry n = op.run (d.registry n) := by
  have same : t.registry n = (d.change n op).registry n :=
    congrArg (fun c : Catalog => c.registry n) after
  rw [same, registry_change, if_pos ⟨rfl, within⟩]

/-- A world in which one type has a description. -/
def describing (decls : List Decl) : World where
  types := Gallery.knownTypes
  describe type := if type = .user "A" then { decls } else {}

theorem describing_all {may : Action → Prop} {decls : List Decl} (listed : allDecls may decls) :
    (describing decls).All may := by
  intro type
  show allDecls may (if type = .user "A" then _ else _ : Description).decls
  split
  · exact listed
  · trivial

/-- A session with one empty registry, which steps call by the empty name. -/
def oneRegistry : Session := Session.addRegistry {} "" {}

theorem oneRegistry_reachable (u : Universe) : Reachable u (oneRegistry.catalog []) :=
  .single (.move (.create {}))

theorem oneRegistry_numbered : oneRegistry.Numbered := by
  have empty : Session.Numbered {} := fun _ _ found => nomatch found
  exact empty.add "" {}

/-- What a computation makes of one empty registry can be reached. -/
theorem after_oneRegistry {α : Type} {u : Universe} {x : Play α}
    (tame : Tame (Catalog.Law.annotated u) 1 x) :
    let s := (x.outcome oneRegistry).2
    Reachable u (s.catalog []) ∧ s.Numbered ∧ 0 < s.registries.length := by
  have create : Move u {} (oneRegistry.catalog []) := .create {}
  have begun : Ready (Catalog.Law.annotated u) [] 1 oneRegistry :=
    ⟨.single ⟨.move create, create.collects (Nat.le_refl 0)⟩, oneRegistry_numbered, Nat.le_refl 1⟩
  have ready := tame [] 1 _ (Nat.le_refl 1) begun
  exact ⟨Relation.ReflTransGen.mono (fun _ _ => And.left) _ _ ready.inv, ready.numbered,
    ready.enough⟩

theorem ownerOf_host (u : Universe) (type : TypeKey) : ownerOf u type .host = .host := by
  unfold ownerOf
  split <;> rfl

/-- A description that extends another type, and does nothing else of its own. -/
theorem describing_spares (decl : Decl) (plain : ∀ may, decl.All may) :
    let w := describing [.run [.mk "" none (.extend (.user "B") [])], decl]
    w.All (Spares w.types (.user "A") (ownerOf w.types (.user "A") .host)) := by
  intro w
  have other : Gallery.knownTypes.hash (.user "B") ≠ Gallery.knownTypes.hash (.user "A") := by
    decide +kernel
  rw [ownerOf_host]
  exact describing_all ⟨⟨⟨other, trivial⟩, trivial⟩, plain _, trivial⟩

/-- A registration that halts leaves nothing of its type, whatever its description has done, as long
as nothing within has extended the type: no row has the type's hash, look-ups by the hash find
nothing, the handle that the description was given is dead, and the entry of each module counts just
the published rows that the module owns. -/
theorem halted_registration_leaves_no_row (reachable : Reachable w.types (s.catalog passes))
    (numbered : s.Numbered) (within : n < s.registries.length)
    (absent : (s.registry n).anyByHash? (w.types.hash type) = none)
    (spared : w.All (Spares w.types type (ownerOf w.types type owner))) {halt : Halt}
    (halted : (register w depth n owner type).outcome s = (.error halt, t)) :
    let r := t.registry n
    let hash := w.types.hash type
    let handle := ((s.registry n).insertSkeleton w.types type (ownerOf w.types type owner)).1
    (∀ index row, r.types.rowAt? index = some row → row.typeHash ≠ hash) ∧
      r.anyByHash? hash = none ∧ r.typeByHash? hash = none ∧ r.anyRow? handle = none ∧
      r.isAlive handle = false ∧ r.Tallied := by
  intro r hash handle
  have dead : r.anyRow? handle = none → r.isAlive handle = false := by
    intro none
    rw [Registry.isAlive, Registry.row?, none]
    rfl
  suffices left : r.Consistent ∧ r.anyRow? handle = none ∧ r.Tallied ∧
      ∀ index row, r.types.rowAt? index = some row → row.typeHash ≠ hash by
    obtain ⟨consistent, gone, tallied, others⟩ := left
    obtain ⟨any, published⟩ := consistent.lacks others
    exact ⟨others, any, published, gone, dead gone, tallied⟩
  cases depth with
  | zero =>
    -- Nothing has been done at all.
    rw [register] at halted
    cases halted
    have consistent := reachable.allConsistent n
    refine ⟨consistent, ?_, reachable.tallied n, fun index row present same => ?_⟩
    · exact SlotTable.get?_of_rowAt?_none (SlotTable.rowAt?_insert_index consistent.free _)
    · have leads := (consistent.hash_iff hash index).mpr ⟨row, present, same⟩
      rw [consistent.anyByHash?_eq_none absent] at leads
      contradiction
  | succ depth =>
    have registered : Registered _ _ _ _ _ ((register w (depth + 1) n owner type).outcome s) :=
      registered_new reachable numbered within absent spared
    rw [halted] at registered
    cases registered with
    | @halted d q _ _ run top grows after =>
      have pending := (pending_begun reachable within absent).run run
      have tallied : (d.registry n).Tallied :=
        ((reachable_begun reachable within absent).meanwhile run).tallied n
      obtain ⟨consistent, gone, others⟩ := pending.discarded
      have here : r = (d.registry n).discardPending handle :=
        registry_of_after pending.within after
      rw [here]
      refine ⟨consistent, gone, ?_, others⟩
      exact Operation.run_tallied pending.consistent tallied (.discard handle)

/-- A description that extends another type, which stays, before it halts. -/
theorem halted_after_extending_other :
    let w := describing [.run [.mk "" none (.extend (.user "B") [])], .panic]
    ∃ halt t, (register w 8 0 .host (.user "A")).outcome oneRegistry = (.error halt, t) ∧
      (t.registry 0).typeByHash? (w.types.hash (.user "A")) = none ∧
      (t.registry 0).isAlive ⟨0, 0⟩ = false := by
  intro w
  have spared := describing_spares .panic fun _ => trivial
  have failed : ((register w 8 0 .host (.user "A")).outcome oneRegistry).1.isOk = false := by
    decide +kernel
  rcases ran : (register w 8 0 .host (.user "A")).outcome oneRegistry with ⟨answer, t⟩
  rw [ran] at failed
  cases answer with
  | ok h => contradiction
  | error halt =>
    have begun : Reachable w.types (oneRegistry.catalog []) := oneRegistry_reachable _
    have left :=
      halted_registration_leaves_no_row begun oneRegistry_numbered Nat.one_pos rfl spared ran
    exact ⟨halt, t, rfl, left.2.2.1, left.2.2.2.2.1⟩

/-- A description that extends its own type publishes the row, which stays when it halts. -/
theorem row_stays_after_extending_itself :
    let w := describing [.run [.mk "" none (.extend (.user "A") [])], .panic]
    let type := TypeKey.user "A"
    let ran := (register w 8 0 .host type).outcome oneRegistry
    Reachable w.types (oneRegistry.catalog []) ∧ oneRegistry.Numbered ∧
      (oneRegistry.registry 0).anyByHash? (w.types.hash type) = none ∧ ran.1.isOk = false ∧
      (ran.2.registry 0).typeByHash? (w.types.hash type) = some ⟨0, 0⟩ ∧
      (ran.2.registry 0).isAlive ⟨0, 0⟩ = true ∧ ((ran.2.registry 0).entry .host).types = 1 :=
  ⟨oneRegistry_reachable _, oneRegistry_numbered, rfl, by decide +kernel⟩

/-- The row of a new type has no members yet. -/
theorem skeletonRow_bare (r : Registry) (u : Universe) (type : TypeKey) (owner : ModuleId) :
    (r.skeletonRow u type owner).Bare := ⟨rfl, rfl, rfl, rfl, rfl, rfl⟩

/-- While a type is being described no query shows it: not after any of its declarations, or of those
that run within them, and whatever else happens meanwhile, as long as no other description of the row
ends and its module stays. A registration goes on in just such steps if nothing within extends the
type. The step that ends the description publishes the row, which then holds all that has been
declared; if the description halts instead, the type stays hidden. -/
theorem type_shown_once_described (reachable : Reachable w.types (s.catalog passes))
    (numbered : s.Numbered) (within : n < s.registries.length)
    (absent : (s.registry n).anyByHash? (w.types.hash type) = none)
    (spared : w.All (Spares w.types type (ownerOf w.types type owner))) :
    let u := w.types
    let m := ownerOf u type owner
    let p := ((s.catalog passes).firstPass u n type m).pass
    let start := (s.catalog passes).begun u n type m
    let begun : Session := { s with
      registries := s.registries.set n ((s.registry n).insertSkeleton u type m).2 }
    (∀ d, Relation.ReflTransGen (Meanwhile u p) start d →
      d.Open p passes ∧ (d.registry n).Hides (u.hash type) ∧
        (d.registry n).isAlive p.handle = false) ∧
    (∀ decls, allDecls (Spares u type m) decls → ∀ answer t,
      (decls.foldlM (declare w depth p) {}).outcome begun = (answer, t) →
        (t.registry n).Hides (u.hash type) ∧ (t.registry n).isAlive p.handle = false) ∧
    (∀ h t, (register w (depth + 1) n owner type).outcome s = (.ok h, t) → h = p.handle ∧
      ∃ d draft row, Relation.ReflTransGen (Meanwhile u p) start d ∧
        t.catalog passes = { d.change n (.commit h draft) with passes := passes } ∧
        (∀ decl ∈ (w.describe type).wanted (s.registry n).config, draft.Records u type decl) ∧
        (t.registry n).row? h = some row ∧ row.typeHash = u.hash type ∧ row.HoldsAll draft) ∧
    (∀ halt t, (register w (depth + 1) n owner type).outcome s = (.error halt, t) →
      ∃ d, Relation.ReflTransGen (Meanwhile u p) start d ∧
        t.catalog passes = { d.change n (.discard p.handle) with passes := passes } ∧
        (t.registry n).Hides (u.hash type)) := by
  intro u m p start begun
  have pending : Pending p ((s.registry n).skeletonRow u type m) start :=
    pending_begun reachable within absent
  have registered : Registered _ _ _ _ _ ((register w (depth + 1) n owner type).outcome s) :=
    registered_new reachable numbered within absent spared
  refine ⟨fun d run => ?_, fun decls listed answer t ran => ?_, fun h t done => ?_,
    fun halt t halted => ?_⟩
  · have later := pending.run run
    exact ⟨open_begun.run pending run, later.hides, later.not_alive⟩
  · rw [← allows_meanwhile pending] at spared listed
    obtain ⟨q, -, run, -⟩ := meanwhile_declares (s := begun)
      (p := (s.catalog passes).firstPass u n type m) pending spared listed (numbered.set n _) ran
    have later := pending.run run
    exact ⟨later.hides, later.not_alive⟩
  · rw [done] at registered
    cases registered with
    | @published d q draft _ run top grows collected recorded after =>
      have later := pending.run run
      let row := (s.registry n).skeletonRow u type m
      have shown : (t.registry n).row? p.handle = some (row.publish draft) :=
        (registry_of_after later.within after).symm ▸ later.committed draft
      have held := (open_begun.run pending run).held_of_top top
      have named : ∀ a ∈ draft.names, ∀ b ∈ draft.names, a.id = b.id → a = b :=
        fun a first b second => Interner.Holds.eq_of_id (held a (collected.names a first))
          (held b (collected.names b second))
      exact ⟨rfl, d, draft, _, run, after, recorded, shown, (row.publish_grows draft).typeHash,
        Row.publish_holdsAll (Row.skeleton_sound _ _ _ _ _ _) (skeletonRow_bare _ _ _ _) named⟩
  · rw [halted] at registered
    cases registered with
    | @halted d q _ _ run top grows after =>
      refine ⟨d, run, after, ?_⟩
      have later := pending.run run
      obtain ⟨consistent, -, others⟩ := later.discarded
      have here : t.registry n = (d.registry n).discardPending p.handle :=
        registry_of_after later.within after
      rw [here]
      exact consistent.hides fun index row present same => absurd same (others index row present)

/-- A description that extends another type and declares an alternative, which the row then has. -/
theorem alternative_shown_after_extending_other :
    let w := describing [.run [.mk "" none (.extend (.user "B") [])], .enumValue "x" 1]
    ∃ h t row, (register w 8 0 .host (.user "A")).outcome oneRegistry = (.ok h, t) ∧
      (t.registry 0).row? h = some row ∧ ∃ e ∈ row.enumValues, e.name.text = "x" := by
  intro w
  have spared := describing_spares (.enumValue "x" 1) fun _ => trivial
  have done : ((register w 8 0 .host (.user "A")).outcome oneRegistry).1.isOk = true := by
    decide +kernel
  rcases ran : (register w 8 0 .host (.user "A")).outcome oneRegistry with ⟨answer, t⟩
  rw [ran] at done
  cases answer with
  | error halt => contradiction
  | ok h =>
    have begun : Reachable w.types (oneRegistry.catalog []) := oneRegistry_reachable _
    have shown := (type_shown_once_described begun oneRegistry_numbered Nat.one_pos rfl
      spared).2.2.1 h t ran
    obtain ⟨-, d, draft, row, -, -, recorded, alive, -, holds⟩ := shown
    obtain ⟨e, listed, text, -⟩ := recorded (.enumValue "x" 1)
      (by simp [w, describing, Description.wanted])
    obtain ⟨first, there, found⟩ := holds.enumValues e listed
    have same : first.name = e.name := by simpa using List.find?_some found
    exact ⟨h, t, row, rfl, alive, first, there, same ▸ text⟩

/-- A description that extends its own type shows the type before it has declared all it declares. -/
theorem type_shown_half_described :
    let w := describing [.run [.mk "" none (.extend (.user "A") [])], .enumValue "x" 1]
    let type := TypeKey.user "A"
    let p := ((oneRegistry.catalog []).firstPass w.types 0 type .host).pass
    let begun : Session := { oneRegistry with
      registries := oneRegistry.registries.set 0
        ((oneRegistry.registry 0).insertSkeleton w.types type .host).2 }
    let half := (((w.describe type).decls.take 1).foldlM (declare w 7 p) {}).outcome begun
    let whole := (register w 8 0 .host type).outcome oneRegistry
    Reachable w.types (oneRegistry.catalog []) ∧ oneRegistry.Numbered ∧
      (oneRegistry.registry 0).anyByHash? (w.types.hash type) = none ∧ half.1.isOk = true ∧
      (half.2.registry 0).typeByHash? (w.types.hash type) = some p.handle ∧
      ((half.2.registry 0).row? p.handle).map (·.enumValues.length) = some 0 ∧
      ((whole.2.registry 0).row? p.handle).map (·.enumValues.length) = some 1 :=
  ⟨oneRegistry_reachable _, oneRegistry_numbered, rfl, by decide +kernel⟩

end Script

end TypeCatalog
