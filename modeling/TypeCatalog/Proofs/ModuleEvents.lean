import TypeCatalog.Proofs.Bookkeeping
import TypeCatalog.Proofs.Rollback

/-!
What decides whether a module is initialized. Of all changes to a registry only two touch that:
marking the module, which completes a set-up, and removing it. The entries of modules are made and
counted in by many others, but those keep the mark. So a computation is followed by the list of its
events, and a module is initialized after them as the latest of its own events says. The events of
a computation that is made of others are theirs, in their order, up to where it halts.
-/
namespace TypeCatalog

namespace Registry

variable {r s : Registry} {m : ModuleId}

theorem isInitialized_congr (same : s.modules = r.modules) :
    s.isInitialized m = r.isInitialized m := by
  rw [isInitialized, isInitialized, moduleInfo?, moduleInfo?, same]

theorem isInitialized_eq (r : Registry) (m : ModuleId) :
    r.isInitialized m = (r.entry m).initialized := by
  rw [isInitialized, entry]
  cases r.moduleInfo? m <;> rfl

theorem isInitialized_updateModule {change : ModuleInfo → ModuleInfo}
    (keeps : ∀ info, (change info).initialized = info.initialized) (r : Registry)
    (owner m : ModuleId) : (r.updateModule owner change).isInitialized m = r.isInitialized m := by
  rw [isInitialized_eq, isInitialized_eq, kept_updateModule ModuleInfo.initialized keeps]

@[simp] theorem isInitialized_addTypeTo (r : Registry) (owner m : ModuleId) :
    (r.addTypeTo owner).isInitialized m = r.isInitialized m := by
  refine isInitialized_updateModule ?_ r owner m
  exact fun _ => rfl

@[simp] theorem isInitialized_dropTypeFrom (r : Registry) (owner m : ModuleId) :
    (r.dropTypeFrom owner).isInitialized m = r.isInitialized m := by
  rw [isInitialized_eq, isInitialized_eq, dropTypeFrom, entry_modifyModule r owner m rfl]
  split
  · rename_i same
    rw [same]
  · rfl

@[simp] theorem isInitialized_indexName (r : Registry) (name : NameId) (index : Nat)
    (m : ModuleId) : (r.indexName name index).isInitialized m = r.isInitialized m :=
  isInitialized_congr (modules_indexName r name index)

@[simp] theorem isInitialized_unindexName (r : Registry) (name : NameId) (index : Nat)
    (m : ModuleId) : (r.unindexName name index).isInitialized m = r.isInitialized m :=
  isInitialized_congr (modules_unindexName r name index)

@[simp] theorem isInitialized_exchange (r : Registry) (types : SlotTable Row) (index : Nat)
    (old new : Row) (m : ModuleId) :
    (r.exchange types index old new).isInitialized m = r.isInitialized m :=
  isInitialized_congr (modules_exchange r types index old new)

theorem isInitialized_insertRow (r : Registry) (row : Row) (m : ModuleId) :
    (r.insertRow row).2.isInitialized m = r.isInitialized m := by
  rw [insertRow_eq]
  dsimp only
  split
  · rw [isInitialized_addTypeTo, isInitialized_indexName]
    rfl
  · rw [isInitialized_indexName]
    rfl

theorem isInitialized_replaceRow (r : Registry) (index : Nat) (row : Row) (m : ModuleId) :
    (r.replaceRow index row).isInitialized m = r.isInitialized m := by
  cases present : r.types.rowAt? index with
  | none =>
    unfold replaceRow
    rw [present]
  | some old =>
    rw [replaceRow_eq present]
    dsimp only
    split
    · rw [isInitialized_exchange]
    · rw [isInitialized_addTypeTo, isInitialized_dropTypeFrom, isInitialized_exchange]

theorem isInitialized_removeRow (r : Registry) (index : Nat) (m : ModuleId) :
    (r.removeRow index).isInitialized m = r.isInitialized m := by
  cases present : r.types.rowAt? index with
  | none => rw [removeRow_empty present]
  | some row =>
    rw [removeRow_eq present]
    dsimp only
    repeat' split
    all_goals simp only [isInitialized_dropTypeFrom, isInitialized_unindexName]
    all_goals rfl

theorem isInitialized_commit (r : Registry) (h : TypeHandle) (draft : Draft) (m : ModuleId) :
    (r.commit h draft).isInitialized m = r.isInitialized m := by
  cases alive : r.anyRow? h with
  | none => rw [commit_dead alive]
  | some old =>
    rw [commit_eq alive]
    dsimp only
    split
    · rw [isInitialized_exchange]
    · rw [isInitialized_addTypeTo, isInitialized_exchange]

theorem isInitialized_discardPending (r : Registry) (h : TypeHandle) (m : ModuleId) :
    (r.discardPending h).isInitialized m = r.isInitialized m := by
  unfold discardPending
  repeat' split
  · rfl
  · exact isInitialized_removeRow r _ m
  · rfl

theorem isInitialized_addFunction (r : Registry) (owner : ModuleId) (name : String)
    (params : List TypeHash) (returnType : TypeHash) (callable : Callable) (m : ModuleId) :
    (r.addFunction owner name params returnType callable).2.isInitialized m =
      r.isInitialized m := by
  rw [addFunction]
  dsimp only
  split
  · rfl
  · refine isInitialized_updateModule ?_ _ _ m
    exact fun _ => rfl

theorem isInitialized_mergeType (options : MergeOptions) (state : Registry × MergeReport)
    (type : Image.ReadType) (m : ModuleId) :
    (mergeType options state type).1.isInitialized m = state.1.isInitialized m := by
  obtain ⟨r, report⟩ := state
  rw [mergeType]
  dsimp only
  split
  · exact isInitialized_insertRow _ _ m
  · split
    · exact isInitialized_replaceRow _ _ _ m
    · rfl

theorem isInitialized_merge (r : Registry) (exports : ExportTable) (bytes : List UInt8)
    (options : MergeOptions) (m : ModuleId) :
    (r.merge exports bytes options).2.isInitialized m = r.isInitialized m := by
  unfold merge
  split
  · rfl
  · rename_i types decoded
    split
    · rfl
    · refine List.foldlRecOn types (mergeType options)
        (motive := fun state => state.1.isInitialized m = r.isInitialized m) ?_ ?_
      · rfl
      · intro state same type _
        exact (isInitialized_mergeType options state type m).trans same

theorem isInitialized_markInitialized (r : Registry) (m k : ModuleId) :
    (r.markInitialized m).isInitialized k = if k = m then true else r.isInitialized k := by
  rw [isInitialized_eq, isInitialized_eq, markInitialized, entry_updateModule]
  split <;> rfl

theorem isInitialized_unregisterModule (r : Registry) (m k : ModuleId) :
    (r.unregisterModule m).2.isInitialized k = if k = m then false else r.isInitialized k := by
  rw [isInitialized, isInitialized, moduleInfo?_unregisterModule]
  split <;> rfl

end Registry

namespace Script

/-- What touches the initialization of a module in the registry of a number: a set-up of the module
that has been completed there, or a removal of the module from there. -/
inductive ModuleEvent where
  | completed (n : Nat) (m : ModuleId)
  | removed (n : Nat) (m : ModuleId)
deriving DecidableEq

namespace ModuleEvent

variable {n : Nat} {m : ModuleId} {before : Bool} {log later : List ModuleEvent} {e : ModuleEvent}

/-- Whether an event is one of a module in the registry of a number. -/
def isOf (n : Nat) (m : ModuleId) : ModuleEvent → Bool
  | completed n' m' | removed n' m' => n' = n ∧ m' = m

def isCompletion : ModuleEvent → Bool
  | completed .. => true
  | removed .. => false

/-- The latest event of a module in the registry of a number. -/
def latest? (n : Nat) (m : ModuleId) (log : List ModuleEvent) : Option ModuleEvent :=
  (log.filter (isOf n m)).getLast?

/-- Whether a module is initialized after some events. -/
def initializedAfter (n : Nat) (m : ModuleId) (before : Bool) (log : List ModuleEvent) : Bool :=
  ((latest? n m log).map isCompletion).getD before

theorem initializedAfter_append :
    initializedAfter n m before (log ++ later) =
      initializedAfter n m (initializedAfter n m before log) later := by
  unfold initializedAfter latest?
  rw [List.filter_append, List.getLast?_append]
  cases (later.filter (isOf n m)).getLast? <;> rfl

theorem isOf_of_latest? (latest : latest? n m log = some e) : e.isOf n m = true :=
  (List.mem_filter.mp (List.mem_of_getLast? latest)).2

theorem latest?_eq_none (others : ∀ e ∈ log, e.isOf n m = false) : latest? n m log = none := by
  rw [latest?, List.getLast?_eq_none_iff, List.filter_eq_nil_iff]
  intro e listed
  rw [others e listed]
  exact Bool.false_ne_true

theorem initializedAfter_iff : initializedAfter n m before log = true ↔
    latest? n m log = some (.completed n m) ∨ latest? n m log = none ∧ before = true := by
  unfold initializedAfter
  cases latest : latest? n m log with
  | none => simp
  | some e =>
    have own := isOf_of_latest? latest
    cases e <;> simp_all [isOf, isCompletion]

end ModuleEvent

open ModuleEvent

/-- The events of a change to the registry of number `n`. -/
def eventsOf (n : Nat) : Operation → List ModuleEvent
  | .markInitialized m => [.completed n m]
  | .unregister m => [.removed n m]
  | _ => []

theorem isInitialized_run (r : Registry) (op : Operation) (n : Nat) (m : ModuleId) :
    (op.run r).isInitialized m = initializedAfter n m (r.isInitialized m) (eventsOf n op) := by
  cases op with
  | configure config => rfl
  | intern text user => rfl
  | declare owner name =>
    refine Registry.isInitialized_updateModule ?_ _ owner m
    exact fun _ => rfl
  | markInitialized owner =>
    rw [Operation.run, Registry.isInitialized_markInitialized]
    by_cases same : m = owner
    · simp [eventsOf, initializedAfter, latest?, isOf, isCompletion, same]
    · simp [eventsOf, initializedAfter, latest?, isOf, same, Ne.symm same]
  | addFunction owner name params returnType callable =>
    exact r.isInitialized_addFunction owner name params returnType callable m
  | unregister owner =>
    rw [Operation.run, Registry.isInitialized_unregisterModule]
    by_cases same : m = owner
    · simp [eventsOf, initializedAfter, latest?, isOf, isCompletion, same]
    · simp [eventsOf, initializedAfter, latest?, isOf, same, Ne.symm same]
  | merge exports bytes options => exact r.isInitialized_merge exports bytes options m
  | skeleton u type owner => exact Registry.isInitialized_insertRow _ _ m
  | commit h draft => exact r.isInitialized_commit h draft m
  | discard h => exact r.isInitialized_discardPending h m

theorem eventsOf_elsewhere (op : Operation) {n k : Nat} (other : k ≠ n) (m : ModuleId)
    (before : Bool) : initializedAfter k m before (eventsOf n op) = before := by
  cases op <;> simp [eventsOf, initializedAfter, latest?, isOf, Ne.symm other]

/-- What is known of a session that a computation has left after some events. -/
structure Session.Tracks (s : Session) (log : List ModuleEvent) (t : Session) : Prop where
  numbered : t.Numbered
  longer : s.registries.length ≤ t.registries.length
  flags : ∀ n m, (t.registry n).isInitialized m =
    initializedAfter n m ((s.registry n).isInitialized m) log

namespace Session

variable {s t v : Session} {n : Nat} {log later : List ModuleEvent}

theorem Tracks.refl (numbered : s.Numbered) : s.Tracks [] s :=
  ⟨numbered, Nat.le_refl _, fun _ _ => rfl⟩

theorem Tracks.trans (first : s.Tracks log t) (second : t.Tracks later v) :
    s.Tracks (log ++ later) v where
  numbered := second.numbered
  longer := Nat.le_trans first.longer second.longer
  flags n m := by rw [second.flags, first.flags, initializedAfter_append]

/-- Only the registries and their names are looked at. -/
theorem Tracks.congr (tracks : s.Tracks log t) (registries : v.registries = t.registries)
    (names : v.registryNames = t.registryNames) : s.Tracks log v where
  numbered := by
    rw [Numbered, registries, names]
    exact tracks.numbered
  longer := by
    rw [registries]
    exact tracks.longer
  flags n m := by
    rw [registry, registries]
    exact tracks.flags n m

theorem Tracks.of_bare (tracks : s.Tracks log t) (same : v.bare = t.bare) : s.Tracks log v :=
  have registries := congrArg Session.registries same
  have names := congrArg Session.registryNames same
  tracks.congr registries names

theorem registry_changed (s : Session) (n : Nat) (op : Operation) (k : Nat) :
    (s.changed n op).registry k =
      if k = n ∧ n < s.registries.length then op.run (s.registry n) else s.registry k :=
  Catalog.registry_change (s.catalog []) n op k

theorem tracks_changed (numbered : s.Numbered) (within : n < s.registries.length)
    (op : Operation) : s.Tracks (eventsOf n op) (s.changed n op) where
  numbered := numbered.set n _
  longer := Nat.le_of_eq (List.length_set ..).symm
  flags k m := by
    rw [registry_changed]
    by_cases here : k = n
    · rw [if_pos ⟨here, within⟩, here]
      exact isInitialized_run (s.registry n) op n m
    · rw [if_neg fun both => here both.1, eventsOf_elsewhere op here]

/-- In a new registry no module is initialized. -/
theorem tracks_addRegistry (numbered : s.Numbered) (name : String) (config : RegistryConfig) :
    s.Tracks [] (s.addRegistry name { config }) where
  numbered := numbered.add name _
  longer := by
    rw [addRegistry, List.length_append]
    exact Nat.le_add_right _ _
  flags k m := by
    have added : (s.addRegistry name { config }).registry k = _ :=
      Catalog.registry_create (s.catalog []) config k
    rw [added]
    split
    · rename_i last
      have fresh : s.registry k = {} :=
        Catalog.registry_of_le (c := s.catalog []) (Nat.le_of_eq last.symm)
      rw [fresh]
      rfl
    · rfl

theorem tracks_named (numbered : s.Numbered) (name : String) :
    s.Tracks [] (s.named name).2 ∧ (s.named name).1 < (s.named name).2.registries.length := by
  rw [named]
  cases found : s.registryNames.find? name with
  | some n => exact ⟨.refl numbered, numbered name n found⟩
  | none => exact ⟨tracks_addRegistry numbered name {}, by simp⟩

end Session

/-- The events of a request that is asked of the registry of number `n`. -/
def Request.events (n : Nat) (request : Request) : List ModuleEvent :=
  (request.removed?.map (ModuleEvent.removed n)).toList

theorem Request.Effect.tracks {n : Nat} {s t : Session} {request : Request}
    (effect : request.Effect n s t) (numbered : s.Numbered) (within : n < s.registries.length) :
    s.Tracks (request.events n) t := by
  have changed := Session.tracks_changed numbered within
  cases effect with
  | nothing kept =>
    rw [events, kept]
    exact .refl numbered
  | creates name config => exact Session.tracks_addRegistry numbered name config
  | declares m name => exact changed (.declare m name)
  | interns text user => exact changed (.intern text user)
  | removes m => exact changed (.unregister m)
  | writes withBytes => exact (Session.Tracks.refl numbered).congr rfl rfl
  | merges source patches overrides bytes options => exact changed (.merge s.exports bytes options)

section

variable {α β : Type}

/-- The events of what follows a computation, if the computation does not halt. -/
def afterEvents (x : Play α) (next : α → Session → List ModuleEvent) (s : Session) :
    List ModuleEvent :=
  match x.outcome s with
  | (.ok a, t) => next a t
  | (.error _, _) => []

/-- The events of a computation, and of what follows it. -/
def thenEvents (x : Play α) (events : Session → List ModuleEvent)
    (next : α → Session → List ModuleEvent) (s : Session) : List ModuleEvent :=
  events s ++ afterEvents x next s

/-- The events of one computation after another, up to the first that halts. -/
def eventsOfEach (f : α → Play PUnit) (events : α → Session → List ModuleEvent) :
    List α → Session → List ModuleEvent
  | [], _ => []
  | a :: rest, s => thenEvents (f a) (events a) (fun _ => eventsOfEach f events rest) s

/-- The events of one computation after another, each of which continues from an answer. -/
def eventsOfFold (f : β → α → Play β) (events : α → Session → List ModuleEvent) :
    List α → β → Session → List ModuleEvent
  | [], _, _ => []
  | a :: rest, b, s => thenEvents (f b a) (events a) (eventsOfFold f events rest) s

end

namespace Play

variable {α β : Type} {k n : Nat} {x : Play α} {f : α → Play β} {s t : Session}
  {log : Session → List ModuleEvent} {after : α → Session → List ModuleEvent}

theorem afterEvents_nil (none : ∀ a t, after a t = []) : afterEvents x after s = [] := by
  rw [afterEvents]
  split
  · exact none _ _
  · rfl

theorem thenEvents_nil (first : log s = []) (none : ∀ a t, after a t = []) :
    thenEvents x log after s = [] := by
  rw [thenEvents, first, afterEvents_nil none, List.append_nil]

theorem eventsOfEach_nil {f : α → Play PUnit} {events : α → Session → List ModuleEvent}
    {items : List α} (none : ∀ a ∈ items, ∀ s, events a s = []) (s : Session) :
    eventsOfEach f events items s = [] := by
  induction items generalizing s with
  | nil => rfl
  | cons first rest ih =>
    have later := ih fun a listed => none a (List.mem_cons_of_mem first listed)
    exact thenEvents_nil (none first List.mem_cons_self s) fun _ => later

theorem eventsOfFold_nil {f : β → α → Play β}
    {events : α → Session → List ModuleEvent} {items : List α}
    (none : ∀ a ∈ items, ∀ s, events a s = []) (b : β) (s : Session) :
    eventsOfFold f events items b s = [] := by
  induction items generalizing b s with
  | nil => rfl
  | cons first rest ih =>
    have later := ih fun a listed => none a (List.mem_cons_of_mem first listed)
    exact thenEvents_nil (none first List.mem_cons_self s) later

/-- Whether the events of a computation say what becomes of every module, in all sessions of at
least `k` registries. -/
def Tracked (k : Nat) (x : Play α) (log : Session → List ModuleEvent) : Prop :=
  ∀ s : Session, s.Numbered → k ≤ s.registries.length → s.Tracks (log s) (x.outcome s).2

/-- Whether a computation keeps the marks of all modules. -/
abbrev Idle (k : Nat) (x : Play α) : Prop := Tracked k x fun _ => []

theorem Tracked.bind (first : Tracked k x log) (next : ∀ a, Tracked k (f a) (after a)) :
    Tracked k (x >>= f) (thenEvents x log after) := by
  intro s numbered enough
  have tracks := first s numbered enough
  rw [thenEvents, afterEvents]
  rcases done : x.outcome s with ⟨answer, t⟩
  rw [done] at tracks
  cases answer with
  | ok a =>
    rw [outcome_bind_ok done]
    exact tracks.trans (next a t tracks.numbered (Nat.le_trans enough tracks.longer))
  | error halt =>
    rw [outcome_bind_error done, List.append_nil]
    exact tracks

theorem Tracked.then_idle (first : Tracked k x log) (next : ∀ a, Idle k (f a)) :
    Tracked k (x >>= f) log := by
  intro s numbered enough
  have both := first.bind next s numbered enough
  rwa [thenEvents, afterEvents_nil fun _ _ => rfl, List.append_nil] at both

theorem Idle.then (first : Idle k x) (next : ∀ a, Tracked k (f a) (after a)) :
    Tracked k (x >>= f) (afterEvents x after) := Tracked.bind first next

theorem Idle.bind (first : Idle k x) (next : ∀ a, Idle k (f a)) : Idle k (x >>= f) :=
  first.then_idle next

theorem Still.idle (still : Still x) : Idle k x :=
  fun s numbered _ => (Session.Tracks.refl numbered).of_bare (still s)

theorem Tracked.wrap (tracked : Tracked k x log) (g : α → β) :
    Tracked k (x >>= fun a => pure (g a)) log :=
  tracked.then_idle fun _ => (still_pure _).idle

theorem Tracked.mono {m : Nat} (tracked : Tracked k x log) (more : k ≤ m) : Tracked m x log :=
  fun s numbered enough => tracked s numbered (Nat.le_trans more enough)

theorem tracked_forM {f : α → Play PUnit} {events : α → Session → List ModuleEvent}
    (each : ∀ a, Tracked k (f a) (events a)) (items : List α) :
    Tracked k (items.forM f) (eventsOfEach f events items) := by
  induction items with
  | nil => exact (still_pure _).idle
  | cons first rest ih => exact (each first).bind fun _ => ih

theorem tracked_foldlM {f : β → α → Play β} {events : α → Session → List ModuleEvent}
    (each : ∀ b a, Tracked k (f b a) (events a)) (items : List α) (b : β) :
    Tracked k (items.foldlM f b) (eventsOfFold f events items b) := by
  induction items generalizing b with
  | nil => exact (still_pure _).idle
  | cons first rest ih =>
    rw [List.foldlM_cons]
    exact (each b first).bind ih

theorem idle_mapM {f : α → Play β} (each : ∀ a, Idle k (f a)) (items : List α) :
    Idle k (items.mapM f) := by
  induction items with
  | nil => exact (still_pure _).idle
  | cons first rest ih =>
    rw [List.mapM_cons]
    exact (each first).bind fun _ => ih.wrap _

/-- What is left to be seen of a change to a registry is which operation it is. -/
theorem tracked_changeRegistry {change : Registry → α × Registry} (op : Operation)
    (runs : ∀ r, (change r).2 = op.run r) :
    Tracked (n + 1) (changeRegistry n change) fun _ => eventsOf n op := by
  intro s numbered within
  rw [outcome_changeRegistry, runs]
  exact Session.tracks_changed numbered within op

theorem Tracked.tryCatch {handler : Halt → Play α} (tracked : Tracked k x log)
    (handled : ∀ halt, Idle k (handler halt)) : Tracked k (tryCatch x handler) log := by
  intro s numbered enough
  have ran := tracked s numbered enough
  rcases done : x.outcome s with ⟨answer, t⟩
  rw [done] at ran
  cases answer with
  | ok a =>
    rw [outcome_tryCatch_ok done]
    exact ran
  | error halt =>
    have caught := ran.trans (handled halt t ran.numbered (Nat.le_trans enough ran.longer))
    rw [outcome_tryCatch_error done]
    rwa [List.append_nil] at caught

theorem idle_fresh : Idle k Play.fresh :=
  fun _ numbered _ => (Session.Tracks.refl numbered).congr rfl rfl

end Play

namespace Pass

open Play

variable {u : Universe} (p : Pass) (d : Draft)

theorem idle_intern (text : String) : Idle (p.registry + 1) (p.intern text) :=
  tracked_changeRegistry (.intern text p.owner) fun _ => rfl

theorem idle_note (key : String) (value : AttributeValue) :
    Idle (p.registry + 1) (p.note key value) := by
  cases value with
  | string text =>
    intro s numbered within
    rw [outcome_note_string within]
    exact ((p.idle_intern key).bind fun _ => (p.idle_intern text).wrap _) s numbered within
  | _ => exact (p.idle_intern key).wrap fun name => Attribute.mk name _

theorem idle_notes (notes : Notes) : Idle (p.registry + 1) (p.notes notes) :=
  idle_mapM (fun _ => p.idle_note _ _) notes

theorem idle_addField (name : String) (target : TypeKey) (lens : Lens) (offset : Option UInt64)
    (notes : Notes) : Idle (p.registry + 1) (p.addField u d name target lens offset notes) :=
  (p.idle_intern name).bind fun _ => idle_fresh.bind fun _ => (p.idle_notes notes).wrap _

theorem idle_addProperty (name : Name) (target : TypeKey) (getter : Value → Value)
    (setter : Option (Value → Value → Value)) (notes : Notes) :
    Idle (p.registry + 1) (p.addProperty u d name target getter setter notes) :=
  (p.idle_notes notes).wrap _

theorem idle_addMethod (form : MethodForm) (name : String) (params : List TypeKey)
    (result : TypeKey) (body : Value → List Value → Effect) (notes : Notes) :
    Idle (p.registry + 1) (p.addMethod u d form name params result body notes) :=
  (p.idle_intern name).bind fun _ => idle_fresh.bind fun _ => (p.idle_notes notes).wrap _

theorem idle_addConstructor (params : List TypeKey) (make : List Value → Value) (notes : Notes) :
    Idle (p.registry + 1) (p.addConstructor u d params make notes) :=
  idle_fresh.bind fun _ => (p.idle_notes notes).wrap _

end Pass

end Script

end TypeCatalog
