import TypeCatalog.Proofs.Laws

/-!
What the requests of a script do to the registries. Most of them change nothing but the words of the
session; the rest are single steps of the catalog, whatever descriptions are open meanwhile. So each
request keeps every law that allows it.
-/
namespace TypeCatalog

namespace Script

/-- The catalog of a session while descriptions are open. -/
def Session.catalog (s : Session) (passes : List OpenPass) : Catalog where
  registries := s.registries
  exports := s.exports
  nextNumber := s.nextNumber
  passes := passes

/-- A session without what steps have stored and told. -/
def Session.bare (s : Session) : Session where
  registries := s.registries
  registryNames := s.registryNames
  exports := s.exports
  nextNumber := s.nextNumber

def Session.Numbered (s : Session) : Prop :=
  ∀ name n, s.registryNames.find? name = some n → n < s.registries.length

theorem Session.Numbered.set {s : Session} (numbered : s.Numbered) (n : Nat) (r : Registry) :
    Session.Numbered { s with registries := s.registries.set n r } := by
  intro name m found
  rw [List.length_set]
  exact numbered name m found

theorem Session.Numbered.add {s : Session} (numbered : s.Numbered) (name : String)
    (r : Registry) : (s.addRegistry name r).Numbered := by
  intro other n found
  rw [Session.addRegistry, List.length_append, List.length_singleton]
  rw [Session.addRegistry, Index.find?_insert] at found
  split at found
  · cases Option.some.inj found
    exact Nat.lt_succ_self _
  · exact Nat.lt_succ_of_lt (numbered other n found)

namespace Play

variable {α β : Type} {u : Universe} {k n : Nat} {x : Play α} {f : α → Play β} {s t : Session}

/-- What a computation answers, and the session that it leaves. -/
def outcome (x : Play α) (s : Session) : Except Halt α × Session := x.run.run s

theorem outcome_bind_ok {a : α} (done : x.outcome s = (.ok a, t)) :
    (x >>= f).outcome s = (f a).outcome t := by
  unfold outcome at done ⊢
  rw [ExceptT.run_bind, StateT.run_bind, done]
  rfl

theorem outcome_bind_error {halt : Halt} (halted : x.outcome s = (.error halt, t)) :
    (x >>= f).outcome s = (.error halt, t) := by
  unfold outcome at halted ⊢
  rw [ExceptT.run_bind, StateT.run_bind, halted]
  rfl

theorem outcome_bind_eq_ok {b : β} (done : (x >>= f).outcome s = (.ok b, t)) :
    ∃ a s', x.outcome s = (.ok a, s') ∧ (f a).outcome s' = (.ok b, t) := by
  rcases first : x.outcome s with ⟨answer, s'⟩
  cases answer with
  | ok a =>
    rw [outcome_bind_ok first] at done
    exact ⟨a, s', rfl, done⟩
  | error halt =>
    rw [outcome_bind_error first] at done
    cases done

theorem outcome_tryCatch_ok {handler : Halt → Play α} {a : α} (done : x.outcome s = (.ok a, t)) :
    (tryCatch x handler).outcome s = (.ok a, t) := by
  unfold outcome at done ⊢
  rw [ExceptT.run_tryCatch, StateT.run_bind, done]
  rfl

theorem outcome_tryCatch_error {handler : Halt → Play α} {halt : Halt}
    (halted : x.outcome s = (.error halt, t)) :
    (tryCatch x handler).outcome s = (handler halt).outcome t := by
  unfold outcome at halted ⊢
  rw [ExceptT.run_tryCatch, StateT.run_bind, halted]
  rfl

theorem outcome_changeRegistry (n : Nat) (change : Registry → α × Registry) (s : Session) :
    (changeRegistry n change).outcome s = (.ok (change (s.registry n)).1,
      { s with registries := s.registries.set n (change (s.registry n)).2 }) := rfl

/-- Whether a computation leaves the registries, and what they share, as they are. -/
def Still (x : Play α) : Prop := ∀ s, (x.outcome s).2.bare = s.bare

theorem still_pure (a : α) : Still (pure a) := fun _ => rfl

theorem still_throw (halt : Halt) : Still (throw halt : Play α) := fun _ => rfl

theorem still_fail (cause : Failure) : Still (fail cause : Play α) := fun _ => rfl

theorem still_get : Still get := fun _ => rfl

theorem still_registry (n : Nat) : Still (registry n) := fun _ => rfl

theorem still_tell (entry : Entry) : Still (tell entry) := fun _ => rfl

theorem still_setObject (word : String) (value : Value) : Still (setObject word value) :=
  fun _ => rfl

theorem still_dropObject (word : String) : Still (dropObject word) := fun _ => rfl

theorem Still.bind (first : Still x) (next : ∀ a, Still (f a)) : Still (x >>= f) := by
  intro s
  rcases done : x.outcome s with ⟨answer, t⟩
  have before := first s
  rw [done] at before
  cases answer with
  | ok a =>
    rw [outcome_bind_ok done, ← before]
    exact next a t
  | error halt =>
    rw [outcome_bind_error done]
    exact before

theorem Still.wrap (still : Still x) (g : α → β) : Still (x >>= fun a => pure (g a)) :=
  still.bind fun _ => still_pure _

theorem still_mapM {f : α → Play β} (each : ∀ a, Still (f a)) (items : List α) :
    Still (items.mapM f) := by
  induction items with
  | nil => exact still_pure _
  | cons first rest ih =>
    rw [List.mapM_cons]
    exact (each first).bind fun _ => ih.wrap _

theorem still_orMissing (what : Referent) (word : String) (found : Option α) :
    Still (orMissing what word found) := by
  cases found with
  | some a => exact still_pure a
  | none => exact still_fail _

theorem still_query (result : Except QueryError α) : Still (query result) := by
  cases result with
  | ok a => exact still_pure a
  | error cause => exact still_fail _

theorem still_typeHandle (n : Nat) (word : String) : Still (typeHandle n word) := by
  refine still_get.bind fun s => ?_
  split
  · exact still_pure _
  · exact (still_orMissing _ _ _).wrap _

theorem still_member (word : String) : Still (member word) :=
  still_get.bind fun _ => still_orMissing _ _ _

theorem still_function (word : String) : Still (function word) :=
  still_get.bind fun _ => still_orMissing _ _ _

theorem still_call (word : String) : Still (call word) :=
  still_get.bind fun _ => still_orMissing _ _ _

theorem still_object (word : String) : Still (object word) :=
  still_get.bind fun _ => still_orMissing _ _ _

theorem still_presentObject (word : String) : Still (presentObject word) := by
  refine (still_object word).bind fun v => ?_
  split
  · exact still_fail _
  · exact still_pure v

end Play

open Play

variable {u : Universe} {n : Nat}

theorem Operand.still_value (operand : Operand) : Still (operand.value u) := by
  cases operand with
  | literal value => exact still_pure value
  | copy word =>
    refine (still_object word).bind fun v => ?_
    split
    · exact still_pure _
    · exact still_throw _

theorem Operand.still_values (operands : List Operand) : Still (values u operands) :=
  still_mapM still_value operands

theorem Lending.still_receiver (lending : Lending) : Still lending.receiver := by
  cases lending with
  | nothing => exact still_pure _
  | shared word => exact (still_object word).wrap _
  | exclusive word => exact (still_object word).wrap _

theorem Lending.still_settle (lending : Lending) (r : Receiver) : Still (lending.settle r) := by
  unfold settle
  split
  · exact still_setObject _ _
  · exact still_pure _

theorem Lending.still_call (lending : Lending) (invoke : Receiver → CallOutcome) :
    Still (lending.call invoke) :=
  lending.still_receiver.bind fun _ => (lending.still_settle _).bind fun _ => still_query _

namespace MemberRequest

theorem still_read (readable : List MemberKind) (word object : String) :
    Still (read u readable word object) := by
  refine (still_member word).bind fun m => (still_presentObject object).bind fun v => ?_
  refine (still_registry _).bind fun r => ?_
  dsimp only
  split
  · split
    · exact (still_query _).wrap _
    · exact still_pure _
  · exact still_pure _

theorem still_write (word object : String) (value : Operand) :
    Still (write u word object value) := by
  refine (still_member word).bind fun m => value.still_value.bind fun given => ?_
  refine (still_presentObject object).bind fun v => (still_registry _).bind fun r => ?_
  dsimp only
  split
  · exact (still_query _).bind fun changed => (still_setObject _ changed).bind fun _ => still_pure _
  · exact still_pure _

theorem still_answer (request : MemberRequest) : Still (request.answer u n) := by
  cases request with
  | member word kind selector =>
    exact (still_typeHandle n word).bind fun _ => (still_registry _).wrap _
  | methodsNamed word name =>
    exact (still_typeHandle n word).bind fun _ => (still_registry _).wrap _
  | view word => exact (still_member word).bind fun _ => (still_registry _).wrap _
  | «attribute» word key => exact (still_member word).bind fun _ => (still_registry _).wrap _
  | get word object => exact (still_read _ word object).wrap _
  | lend word object exclusive => exact (still_read _ word object).wrap _
  | set word object value => exact still_write word object value
  | getField word object name =>
    refine (still_typeHandle n word).bind fun h => (still_presentObject object).bind fun v => ?_
    exact (still_registry _).bind fun _ => (still_query _).wrap _

end MemberRequest

namespace CallRequest

theorem still_shown (call : ResolvedCall) : Still (shown n call) := (still_registry n).wrap _

theorem still_perform (receiver : Lending) (args : List Value)
    (resolve : Registry → Except QueryError ResolvedCall) :
    Still (perform u n receiver args resolve) :=
  (still_registry n).bind fun _ => receiver.still_call _

theorem still_invokeNamed (name : String) (args : List Operand) :
    Still (invokeNamed u n name args) :=
  (Operand.still_values args).bind fun _ => still_perform _ _ _

theorem still_answer (request : CallRequest) : Still (request.answer u n) := by
  cases request with
  | construct word args =>
    refine (still_typeHandle n word).bind fun h => (Operand.still_values args).bind fun given => ?_
    exact (still_perform _ _ _).wrap _
  | invoke word name receiver args =>
    refine (still_typeHandle n word).bind fun h => (Operand.still_values args).bind fun given => ?_
    exact (still_perform _ _ _).wrap _
  | invokeFunction name args => exact (still_invokeNamed name args).wrap _
  | resolveMethod word name types =>
    refine (still_typeHandle n word).bind fun h => (still_registry _).bind fun r => ?_
    exact (still_query _).bind still_shown
  | resolveConstructor word types =>
    refine (still_typeHandle n word).bind fun h => (still_registry _).bind fun r => ?_
    exact (still_query _).bind still_shown
  | resolveFunction name types =>
    exact (still_registry n).bind fun r => (still_query _).bind still_shown
  | ofMember word =>
    refine (still_member word).bind fun m => (still_registry _).bind fun r => ?_
    split
    · exact (still_query _).bind still_shown
    · exact still_pure _
  | ofFunction word =>
    refine (still_function word).bind fun function => (still_registry _).bind fun r => ?_
    exact (still_query _).bind still_shown
  | view word => exact (still_call word).bind fun stored => still_shown stored.item
  | call word receiver args =>
    refine (still_call word).bind fun stored => (Operand.still_values args).bind fun given => ?_
    exact (still_perform _ _ _).wrap _
  | invokeMember word receiver args =>
    refine (still_member word).bind fun m => (Operand.still_values args).bind fun given => ?_
    refine (still_registry _).bind fun r => ?_
    split
    · exact (still_perform _ _ _).wrap _
    · exact still_pure _
  | invokeHandle word args =>
    refine (still_function word).bind fun f => (Operand.still_values args).bind fun given => ?_
    exact (still_perform _ _ _).wrap _
  | raw word kind position mode receiver args =>
    refine (still_typeHandle n word).bind fun h => (still_registry _).bind fun r => ?_
    refine (still_orMissing _ _ _).bind fun row => (still_orMissing _ _ _).bind fun callable => ?_
    exact (Operand.still_values args).bind fun _ => (receiver.still_call _).wrap _

end CallRequest

theorem ValueRequest.still_answer (request : ValueRequest) : Still (request.answer u) := by
  cases request with
  | value operand => exact operand.still_value.wrap _
  | view word => exact (still_object word).wrap _
  | take word => exact (still_object word).bind fun _ => (still_setObject _ _).wrap _
  | is word type => exact (still_object word).wrap _
  | write word datum =>
    refine (still_object word).bind fun v => ?_
    dsimp only
    split
    · exact (still_setObject _ _).wrap _
    · exact still_pure _
  | into word type =>
    refine (still_object word).bind fun v => ?_
    split
    · exact (still_dropObject _).wrap _
    · exact still_pure _
  | receiver lending => exact lending.still_receiver.wrap _
  | receives lending type => exact lending.still_receiver.wrap _
  | convert operand target =>
    refine operand.still_value.bind fun v => ?_
    dsimp only
    split
    · exact (still_throw _).bind fun _ => still_pure _
    · exact still_pure _
  | numeric operand => exact operand.still_value.wrap _
  | layout type => exact still_pure _

/-- A session in which a registry has been changed. -/
def Session.changed (s : Session) (n : Nat) (op : Operation) : Session :=
  { s with registries := s.registries.set n (op.run (s.registry n)) }

/-- The module that a request removes. -/
def Request.removed? : Request → Option ModuleId
  | .module (.unregister m) => some m
  | _ => none

theorem Request.eq_of_removed? {request : Request} {m : ModuleId}
    (removes : request.removed? = some m) : request = .module (.unregister m) := by
  unfold removed? at removes
  split at removes
  · rw [Option.some.inj removes]
  · contradiction

/-- What a request that is asked of the registry of number `n` leaves of a session, apart from the
words: the session itself, unless the request makes a registry, changes one or exports from it. -/
inductive Request.Effect (n : Nat) (s : Session) : Request → Session → Prop where
  | nothing {request : Request} (kept : request.removed? = none) : Effect n s request s
  | creates (name : String) (config : RegistryConfig) :
      Effect n s (.type (.newRegistry name config)) (s.addRegistry name { config })
  | declares (m : ModuleId) (name : String) :
      Effect n s (.module (.declare m name)) (s.changed n (.declare m name))
  | interns (text : String) (user : ModuleId) :
      Effect n s (.module (.intern text user)) (s.changed n (.intern text user))
  | removes (m : ModuleId) :
      Effect n s (.module (.unregister m)) (s.changed n (.unregister m))
  | writes (withBytes : Bool) :
      Effect n s (.image (.write withBytes))
        { s with exports := (Image.ofRegistry (s.registry n) s.exports).2 }
  | merges (source : ImageSource) (patches : List Patch) (overrides : MergeOverrides)
      (bytes : List UInt8) (options : MergeOptions) :
      Effect n s (.image (.merge source patches overrides))
        (s.changed n (.merge s.exports bytes options))

/-- Whether a computation leaves what some request may leave. -/
def Request.Does (n : Nat) (request : Request) (x : Play Reply) : Prop :=
  ∀ s, ∃ t, request.Effect n s t ∧ (x.outcome s).2.bare = t.bare

theorem Play.Still.does {x : Play Reply} (still : Still x) {request : Request}
    (kept : request.removed? = none) : request.Does n x :=
  fun s => ⟨s, .nothing kept, still s⟩

theorem TypeRequest.does_answer (request : TypeRequest) :
    Request.Does n (.type request) (request.answer u n) := by
  have still_ask : ∀ {α : Type} (word : String) (question : Registry → TypeHandle → α),
      Still (ask n word question) :=
    fun word _ => (still_typeHandle n word).bind fun _ => (still_registry _).wrap _
  cases request with
  | newRegistry name config => exact fun s => ⟨_, .creates name config, rfl⟩
  | find name => exact ((still_registry n).wrap _).does rfl
  | findHash hash => exact ((still_registry n).wrap _).does rfl
  | handleOf type => exact ((still_registry n).wrap _).does rfl
  | list => exact ((still_registry n).wrap _).does rfl
  | view word => exact ((still_ask word _).wrap _).does rfl
  | isAlive word => exact ((still_ask word _).wrap _).does rfl
  | same word other =>
    refine ((still_typeHandle n word).bind fun first => still_get.bind fun s => ?_).does rfl
    exact (still_orMissing _ _ _).wrap _
  | derives word target => exact ((still_ask word _).wrap _).does rfl
  | enumValue word name => exact ((still_ask word _).wrap _).does rfl
  | enumName word value => exact ((still_ask word _).wrap _).does rfl
  | «attribute» word key => exact ((still_ask word _).wrap _).does rfl
  | verify =>
    refine ((still_registry n).bind fun r => ?_).does rfl
    split
    · exact still_pure _
    · exact still_fail _

theorem ModuleRequest.does_answer (request : ModuleRequest) :
    Request.Does n (.module request) (request.answer n) := by
  cases request with
  | functionsNamed name => exact ((still_registry n).wrap _).does rfl
  | functionView word =>
    exact ((still_function word).bind fun _ => (still_registry _).wrap _).does rfl
  | functions => exact ((still_registry n).wrap _).does rfl
  | declare m name => exact fun s => ⟨_, .declares m name, rfl⟩
  | info owner => exact ((still_registry n).wrap _).does rfl
  | unregister m => exact fun s => ⟨_, .removes m, rfl⟩
  | isInitialized owner => exact ((still_registry n).wrap _).does rfl
  | intern text user => exact fun s => ⟨_, .interns text user, rfl⟩
  | findName text => exact ((still_registry n).wrap _).does rfl
  | nameText word =>
    refine (still_get.bind fun s => (still_orMissing _ _ _).bind fun id => ?_).does rfl
    exact (still_registry n).wrap _

theorem ImageRequest.does_answer (request : ImageRequest) :
    Request.Does n (.image request) (request.answer n) := by
  cases request with
  | write withBytes => exact fun s => ⟨_, .writes withBytes, rfl⟩
  | merge source patches overrides =>
    intro s
    have merged : ∀ bytes options (next : Except MergeError MergeReport → Play Reply),
        (∀ result, Still (next result)) → ∃ t,
          Request.Effect n s (.image (.merge source patches overrides)) t ∧
          ((changeRegistry n (·.merge s.exports bytes options) >>= next).outcome s).2.bare =
            t.bare := by
      intro bytes options next still
      refine ⟨_, .merges source patches overrides bytes options, ?_⟩
      rw [outcome_bind_ok (outcome_changeRegistry n _ s)]
      exact still _ _
    have got : (get : Play Session).outcome s = (.ok s, s) := rfl
    rw [answer, outcome_bind_ok got]
    dsimp only
    cases source with
    | literal bytes =>
      have given : (Pure.pure bytes : Play (List UInt8)).outcome s = (.ok bytes, s) := rfl
      dsimp only
      rw [outcome_bind_ok given]
      refine merged _ _ _ fun result => ?_
      split
      · exact still_pure _
      · exact still_fail _
    | stored word =>
      dsimp only
      cases s.images.find? word with
      | none => exact ⟨s, .nothing rfl, rfl⟩
      | some bytes =>
        have read : (orMissing .image word (some bytes)).outcome s = (.ok bytes, s) := rfl
        rw [outcome_bind_ok read]
        refine merged _ _ _ fun result => ?_
        split
        · exact still_pure _
        · exact still_fail _

theorem Request.does_answer (request : Request) : request.Does n (request.answer u n) := by
  cases request with
  | type request => exact request.does_answer
  | member request => exact request.still_answer.does rfl
  | call request => exact request.still_answer.does rfl
  | module request => exact request.does_answer
  | image request => exact request.does_answer
  | value request => exact request.still_answer.does rfl

/-- A session of at least `k` registries that is in a state of a law while descriptions are open. -/
structure Ready (law : Catalog.Law u) (passes : List OpenPass) (k : Nat) (s : Session) : Prop where
  inv : law.inv (s.catalog passes)
  numbered : s.Numbered
  enough : k ≤ s.registries.length

variable {law : Catalog.Law u} {passes : List OpenPass} {k : Nat} {s t : Session}

theorem Ready.mono {m : Nat} (ready : Ready law passes k s) (fewer : m ≤ k) :
    Ready law passes m s :=
  ⟨ready.inv, ready.numbered, Nat.le_trans fewer ready.enough⟩

/-- Only the registries, and what they share, are looked at. -/
theorem Ready.of_bare (ready : Ready law passes k s) (same : t.bare = s.bare) :
    Ready law passes k t := by
  have registries := congrArg Session.registries same
  have names := congrArg Session.registryNames same
  have exports := congrArg Session.exports same
  have number := congrArg Session.nextNumber same
  simp only [Session.bare] at registries names exports number
  refine ⟨?_, ?_, registries ▸ ready.enough⟩
  · rw [Session.catalog, registries, exports, number]
    exact ready.inv
  · rw [Session.Numbered, registries, names]
    exact ready.numbered

/-- What is left to be seen of a change to a registry is that it keeps the law. -/
theorem Ready.set {later : List OpenPass} (ready : Ready law passes k s) (n : Nat) (r : Registry)
    (inv : law.inv ({ s with registries := s.registries.set n r }.catalog later)) :
    Ready law later k { s with registries := s.registries.set n r } :=
  ⟨inv, ready.numbered.set n r, by rw [List.length_set]; exact ready.enough⟩

namespace Play

variable {α β : Type} {x : Play α} {f : α → Play β}

/-- Whether a computation keeps a law in every session of at least `k` registries, whatever
descriptions are open. -/
def Tame (law : Catalog.Law u) (k : Nat) (x : Play α) : Prop :=
  ∀ passes m s, k ≤ m → Ready law passes m s → Ready law passes m (x.outcome s).2

theorem Still.ready (still : Still x) (ready : Ready law passes k s) :
    Ready law passes k (x.outcome s).2 := ready.of_bare (still s)

theorem Still.tame (still : Still x) : Tame law k x := fun _ _ _ _ ready => still.ready ready

theorem ready_bind (first : Ready law passes k (x.outcome s).2)
    (next : ∀ a t, x.outcome s = (.ok a, t) → Ready law passes k t →
      Ready law passes k ((f a).outcome t).2) : Ready law passes k ((x >>= f).outcome s).2 := by
  rcases done : x.outcome s with ⟨answer, t⟩
  rw [done] at first
  cases answer with
  | ok a =>
    rw [outcome_bind_ok done]
    exact next a t done first
  | error halt =>
    rw [outcome_bind_error done]
    exact first

theorem Tame.bind (first : Tame law k x) (next : ∀ a, Tame law k (f a)) : Tame law k (x >>= f) :=
  fun passes m s more ready => ready_bind (first passes m s more ready) fun a t _ =>
    next a passes m t more

theorem Tame.wrap (tame : Tame law k x) (g : α → β) : Tame law k (x >>= fun a => pure (g a)) :=
  tame.bind fun _ => (still_pure _).tame

theorem Tame.discard (tame : Tame law k x) : Tame law k (discard x) := tame.wrap fun _ => ()

theorem Tame.mono {m : Nat} (tame : Tame law k x) (more : k ≤ m) : Tame law m x :=
  fun passes m' s enough => tame passes m' s (Nat.le_trans more enough)

theorem Tame.tryCatch {handler : Halt → Play α} (tame : Tame law k x)
    (handled : ∀ halt, Tame law k (handler halt)) : Tame law k (tryCatch x handler) := by
  intro passes m s more ready
  rcases done : x.outcome s with ⟨answer, t⟩
  have after := tame passes m s more ready
  rw [done] at after
  cases answer with
  | ok a =>
    rw [outcome_tryCatch_ok done]
    exact after
  | error halt =>
    rw [outcome_tryCatch_error done]
    exact handled halt passes m t more after

theorem tame_forM {f : α → Play PUnit} {items : List α} (each : ∀ a ∈ items, Tame law k (f a)) :
    Tame law k (items.forM f) := by
  induction items with
  | nil => exact (still_pure _).tame
  | cons first rest ih =>
    exact (each first List.mem_cons_self).bind fun _ =>
      ih fun a listed => each a (List.mem_cons_of_mem first listed)

theorem tame_changeRegistry {change : Registry → α × Registry} (op : Operation)
    (runs : ∀ r, (change r).2 = op.run r) (move : ∀ c, Catalog.Move u c (c.change n op)) :
    Tame law k (changeRegistry n change) := by
  intro passes m s _ ready
  rw [outcome_changeRegistry, runs]
  exact ready.set n _ (law.keep ready.inv (move (s.catalog passes)) (Nat.le_refl _))

theorem ready_addRegistry (ready : Ready law passes k s) (name : String)
    (config : RegistryConfig) : Ready law passes k (s.addRegistry name { config }) where
  inv := law.keep ready.inv (.create config) (Nat.le_refl _)
  numbered := ready.numbered.add name _
  enough := by
    rw [Session.addRegistry, List.length_append]
    exact Nat.le_add_right_of_le ready.enough

theorem outcome_named (name : String) (s : Session) :
    (modifyGet (·.named name) : Play Nat).outcome s = (.ok (s.named name).1, (s.named name).2) := rfl

/-- The registry of a name is there once it has been asked for. -/
theorem ready_named (ready : Ready law passes k s) {name : String}
    (done : (modifyGet (·.named name) : Play Nat).outcome s = (.ok n, t)) :
    Ready law passes (max k (n + 1)) t := by
  rw [outcome_named, Session.named] at done
  cases found : s.registryNames.find? name with
  | some m =>
    rw [found] at done
    cases done
    exact ⟨ready.inv, ready.numbered, Nat.max_le.mpr ⟨ready.enough, ready.numbered name _ found⟩⟩
  | none =>
    rw [found] at done
    cases done
    have added := ready_addRegistry ready name {}
    exact ⟨added.inv, added.numbered, Nat.max_le.mpr ⟨added.enough, by simp⟩⟩

theorem tame_unregister {m : ModuleId} (cleared : law.clears m) :
    Tame law k (changeRegistry n (·.unregisterModule m)) :=
  fun _ _ _ _ ready => ready.set n _ (law.unregister n cleared ready.inv)

theorem tame_declare (m : ModuleId) (name : String) :
    Tame law k (changeRegistry n fun r => ((), r.declareModule m name)) :=
  tame_changeRegistry (.declare m name) (fun _ => rfl) fun _ => .declare n m name

end Play

/-- A request keeps every law that allows it. -/
theorem Request.tame_answer (request : Request) (allowed : law.allows (.request request)) :
    Tame law k (request.answer u n) := by
  intro passes m s _ ready
  obtain ⟨t, effect, same⟩ := request.does_answer s
  refine Ready.of_bare ?_ same
  cases effect with
  | nothing => exact ready
  | creates name config => exact ready_addRegistry ready name config
  | declares owner name =>
    exact ready.set n _ (law.keep ready.inv (.declare n owner name) (Nat.le_refl _))
  | interns text user =>
    exact ready.set n _ (law.keep ready.inv (.intern n text user) (Nat.le_refl _))
  | removes owner => exact ready.set n _ (law.unregister n allowed ready.inv)
  | writes withBytes =>
    exact ⟨law.keep ready.inv (.write n) (Nat.le_refl _), ready.numbered, ready.enough⟩
  | merges source patches overrides bytes options =>
    exact ready.set n _ (law.merge n bytes options allowed ready.inv)

end Script

end TypeCatalog
