import TypeCatalog.Proofs.Pending
import TypeCatalog.Proofs.Resolution
import TypeCatalog.Proofs.Typing
import TypeCatalog.Registry.View

/-!
Calls that have been resolved. What resolution looks at are hashes, and what a call looks at are the
receiver and the arguments themselves; since rows show callables and links as they are, a call that
has been resolved for arguments runs on them. The links on the way lead through bases that are
embedded in the receiver. Only a void argument stops the call, although resolution accepts it.
-/
namespace TypeCatalog

theorem Except.eq_ok_of_any {ε α : Type} {x : Except ε α} {p : α → Bool}
    (found : x.toOption.any p = true) : ∃ a, x = .ok a ∧ p a = true := by
  cases x with
  | error e => cases found
  | ok a => exact ⟨a, rfl, found⟩

theorem Except.eq_error_of_map {ε α β : Type} {x : Except ε α} {f : α → β} {e : ε}
    (failed : x.map f = .error e) : x = .error e := by
  cases x with
  | error e' => exact congrArg _ (Except.error.inj failed)
  | ok a => cases failed

namespace Program

variable {P : Program}

/-- Whether links lead from one type to another, each from the base that the last one has led to. -/
def Path (P : Program) : TypeKey → List BaseLink → TypeKey → Prop
  | first, [], last => first = last
  | first, link :: links, last => P.Links first link ∧ P.Path link.part.target links last

theorem Path.further {first last : TypeKey} {links : List BaseLink} {link : BaseLink}
    (path : P.Path first links last) (more : P.Links last link) :
    P.Path first (links ++ [link]) link.part.target := by
  induction links generalizing first with
  | nil =>
    obtain rfl : first = last := path
    exact ⟨more, rfl⟩
  | cons next rest ih => exact ⟨path.1, ih path.2⟩

/-- Whether a route leads from a type to the type of the row that is behind its handle. -/
structure Leads (P : Program) (r : Registry) (first : TypeKey) (route : Route) : Prop where
  alive : ∀ h ∈ route.path, r.isAlive h = true
  path : ∀ row, r.row? route.handle = some row →
    ∃ last, P.Describes last row ∧ P.Path first route.links last

variable {r : Registry} {first : TypeKey}

/-- Following a base of the row that a route leads to. -/
theorem Leads.further (consistent : r.Consistent)
    (typed : ∀ index row, r.types.rowAt? index = some row → ∃ type, P.Describes type row)
    {route : Route} (leads : P.Leads r first route) {row : Row}
    (there : r.row? route.handle = some row) {link : BaseLink} (listed : link ∈ row.bases)
    {handle : TypeHandle} {base : Row} (published : r.byHash? link.base = some (handle, base)) :
    P.Leads r first ⟨handle, route.links ++ [link], route.path ++ [handle]⟩ := by
  obtain ⟨last, describes, path⟩ := leads.path row there
  have links := describes.members.bases link listed
  obtain ⟨any, shown⟩ := Option.filter_eq_some_iff.mp published
  obtain ⟨own, same⟩ := consistent.of_anyByHash? any
  have here : r.row? handle = some base := Option.filter_eq_some_iff.mpr ⟨own, shown⟩
  refine ⟨fun h member => ?_, fun row' there' => ?_⟩
  · rcases List.mem_append.mp member with before | new
    · exact leads.alive h before
    · rw [List.mem_singleton.mp new, Registry.isAlive, here]
      rfl
  · cases Option.some.inj (here.symm.trans there')
    obtain ⟨type, describes'⟩ := typed _ _ (Registry.rowAt?_of_row? here)
    have target := describes'.eq_of_hash links.known (same.trans links.base)
    exact ⟨type, describes', target ▸ path.further links⟩

theorem leads_nearest? (consistent : r.Consistent)
    (typed : ∀ index row, r.types.rowAt? index = some row → ∃ type, P.Describes type row)
    {p : Row → Bool} {start : TypeHandle} {own : Row} (there : r.row? start = some own)
    (describes : P.Describes first own) {route : Route} {row : Row}
    (found : r.nearest? p start own = some (route, row)) :
    P.Leads r first route ∧ r.row? route.handle = some row := by
  refine Registry.nearestFrom_induction (Q := P.Leads r first) ?_ ?_
    (SearchEnd.found?_eq_some_iff.mp found)
  · intro route row link handle base leads there listed published
    exact leads.further consistent typed there listed published
  · intro only listed
    rw [List.mem_singleton.mp listed]
    refine ⟨fun h member => ?_, fun row' there' => ?_⟩
    · rw [List.mem_singleton.mp member, Registry.isAlive, there]
      rfl
    · cases Option.some.inj (there.symm.trans there')
      exact ⟨first, describes, rfl⟩

/-- Whether a receiver holds an object of a type, and one that may be changed if need be. -/
def Lends (P : Program) (type : TypeKey) (mutating : Bool) (receiver : Receiver) : Prop :=
  ∃ object ∈ P.values, object.typeOf = type ∧
    (receiver = .exclusive object ∨ mutating = false ∧ receiver = .shared object)

theorem lends_descend {type : TypeKey} {mutating : Bool} {receiver : Receiver}
    (lends : P.Lends type mutating receiver) {link : BaseLink} (links : P.Links type link) :
    ∃ inner, link.part.descend? receiver = some inner ∧
      P.Lends link.part.target mutating inner := by
  obtain ⟨object, listed, own, kind⟩ := lends
  obtain ⟨part, target⟩ := links.view object listed own
  have viewed : link.part.view? object = some (link.part.lens.view object) :=
    if_pos (own.trans links.owner.symm)
  rcases kind with rfl | ⟨reading, rfl⟩
  · exact ⟨_, congrArg (Option.map _) viewed, _, part, target, .inl rfl⟩
  · exact ⟨_, congrArg (Option.map _) viewed, _, part, target, .inr ⟨reading, rfl⟩⟩

/-- The links of a path lead to a base of the receiver, on which the call is made. -/
theorem throughBases_eq {last : TypeKey} {links : List BaseLink} (path : P.Path first links last)
    {mutating : Bool} {receiver : Receiver} (lends : P.Lends first mutating receiver)
    (name : String) (call : Receiver → CallOutcome) :
    ∃ inner, P.Lends last mutating inner ∧
      (ResolvedCall.throughBases name call links receiver).answer = (call inner).answer ∧
      (ResolvedCall.throughBases name call links receiver).activations =
        (call inner).activations := by
  induction links generalizing first receiver with
  | nil =>
    obtain rfl : first = last := path
    exact ⟨receiver, lends, rfl, rfl⟩
  | cons link rest ih =>
    obtain ⟨part, descends, lends'⟩ := lends_descend lends path.1
    obtain ⟨inner, lent, answer, activations⟩ := ih path.2 lends'
    refine ⟨inner, lent, ?_⟩
    rw [ResolvedCall.throughBases, descends]
    dsimp only
    split
    · exact ⟨answer, activations⟩
    · exact ⟨answer, activations⟩

theorem takeReceiver_ok {type : TypeKey} {flags : MethodFlags} {receiver : Receiver}
    (lends : flags.isStatic = false → P.Lends type flags.isMutating receiver)
    {callable : Callable} (access : callable.access = flags.access type) :
    ∃ object, callable.takeReceiver P.facts receiver = .ok object := by
  unfold Callable.takeReceiver
  rw [access, MethodFlags.access]
  cases fixed : flags.isStatic with
  | true => exact ⟨_, rfl⟩
  | false =>
    obtain ⟨object, _, own, kind⟩ := lends fixed
    cases mutating : flags.isMutating with
    | true =>
      rcases kind with rfl | ⟨reading, -⟩
      · exact ⟨object, by simp [Receiver.change?, own]⟩
      · rw [mutating] at reading
        cases reading
    | false =>
      rcases kind with rfl | ⟨-, rfl⟩
      · exact ⟨object, by simp [Receiver.read?, Receiver.object?, Option.filter_some, own]⟩
      · exact ⟨object, by simp [Receiver.read?, Receiver.object?, Option.filter_some, own]⟩

/-- What resolution has found: a callable of this access, shown as it is, whose parameters take
arguments of these types. -/
structure Accepts (P : Program) (access : Access) (call : ResolvedCall) (args : List TypeHash) :
    Prop where
  shows : P.Shows access call.callable call.params
  viable : List.Forall₂ (fun a p => (rank a p).isViable = true) args call.params

end Program

/-- Whether a call has run its callable, once, on an argument of each parameter's type. -/
def CallOutcome.Runs (outcome : CallOutcome) (callable : Callable) : Prop :=
  (∃ result, outcome.answer = .ok result) ∧
    ∃ object arguments, outcome.activations = [⟨callable.number, object, arguments⟩] ∧
      arguments.map Value.typeOf = callable.params

theorem CallOutcome.runs_congr {a b : CallOutcome} (answer : a.answer = b.answer)
    (activations : a.activations = b.activations) (callable : Callable) :
    a.Runs callable ↔ b.Runs callable := by
  unfold Runs
  rw [answer, activations]

/-- Once the number of arguments and the receiver are right, the arguments decide. -/
theorem Callable.enter_eq {u : Universe} {c : Callable} {receiver : Receiver} {args : List Value}
    {object : Value} (mode : ArgMode) (length : args.length = c.arity)
    (received : c.takeReceiver u receiver = .ok object) : c.enter u mode receiver args =
      (takeArguments u mode 0 c.params args).map fun taken => (object, taken) := by
  rw [enter, if_pos length, received]
  rfl

theorem ResolvedCall.params_of_exact {u : Universe} (call : ResolvedCall) {args : List Value}
    (exact : call.mode u args = .exact) : args.map (Value.typeHash u) = call.params := by
  unfold mode at exact
  split at exact
  · rename_i same
    simp only [Bool.and_eq_true, decide_eq_true_eq] at same
    exact same.2
  · cases exact

theorem Callable.present_of_takeArguments {u : Universe} {mode : ArgMode} {params : List TypeKey}
    {args taken : List Value} {position : Nat} (length : args.length = params.length)
    (done : takeArguments u mode position params args = .ok taken) :
    ∀ v ∈ args, v.isVoid = false := by
  induction params generalizing args taken position with
  | nil =>
    rw [List.length_eq_zero_iff.mp length]
    simp
  | cons param params ih =>
    cases args with
    | nil => cases length
    | cons v args =>
      obtain ⟨datum, first, done⟩ := Except.eq_ok_of_bind done
      obtain ⟨rest, others, -⟩ := Except.eq_ok_of_bind done
      refine List.forall_mem_cons.mpr ⟨?_, ih (Nat.succ.inj length) others⟩
      cases v with
      | void =>
        obtain ⟨e, refused⟩ := takeArgument_void u mode position param
        cases refused.symm.trans first
      | _ => rfl

namespace Program

variable {P : Program}

/-- Once the receiver is right, a call runs unless one of its arguments is void. -/
theorem runs_iff_present {access : Access} {call : ResolvedCall} {args : List Value}
    (accepts : P.Accepts access call (args.map (Value.typeHash P.facts)))
    (known : ∀ v ∈ args, v.typeOf ∈ P.types) {receiver : Receiver} {object : Value}
    (received : call.callable.takeReceiver P.facts receiver = .ok object) :
    (call.callable.invoke P.facts (call.mode P.facts args) receiver args).Runs call.callable ↔
      ∀ v ∈ args, v.isVoid = false := by
  have length : args.length = call.callable.arity := by
    have counted := accepts.viable.length_eq
    rw [List.length_map] at counted
    exact counted.trans accepts.shows.arity.symm
  have entered := Callable.enter_eq (call.mode P.facts args) length received
  constructor
  · rintro ⟨⟨result, answer⟩, -⟩
    unfold Callable.invoke at answer
    rw [entered] at answer
    cases done : Callable.takeArguments P.facts (call.mode P.facts args) 0 call.callable.params
        args with
    | error e =>
      rw [done] at answer
      cases answer
    | ok taken => exact Callable.present_of_takeArguments length done
  · intro present
    have viable := accepts.viable
    rw [accepts.shows.params, List.forall₂_map_left_iff, List.forall₂_map_right_iff] at viable
    obtain ⟨taken, done, types⟩ := takeArguments_ok viable known accepts.shows.known present
      (fun exact => (call.params_of_exact exact).trans accepts.shows.params) 0
    unfold Callable.invoke
    rw [entered, done]
    exact ⟨⟨_, rfl⟩, object, taken, rfl, types⟩

end Program

namespace Registry

/-- What may be resolved: a method of a type by its name, a constructor of a type, or a global
function by its name. -/
inductive Query where
  | method (type : TypeHandle) (name : String)
  | constructor (type : TypeHandle)
  | function (name : String)

def resolve (r : Registry) (args : List TypeHash) : Query → Except QueryError ResolvedCall
  | .method type name => r.resolveMethod type name args
  | .constructor type => r.resolveConstructor type args
  | .function name => r.resolveFunction name args

end Registry

/-- The method that a call is of. -/
def ResolvedCall.method? (r : Registry) (call : ResolvedCall) : Option Method :=
  match call.target with
  | .method m => r.method? m
  | _ => none

namespace Program

variable {P : Program} {r : Registry} {args : List TypeHash} {call : ResolvedCall}

/-- What is known of a call that has been resolved: whether it needs a receiver, and that its links
lead from the type that was asked to the one that declares the method. -/
structure Resolves (P : Program) (r : Registry) (args : List TypeHash) (query : Registry.Query)
    (call : ResolvedCall) (flags : MethodFlags) (type : TypeKey) : Prop where
  alive : call.isAlive r = true
  accepts : P.Accepts (flags.access type) call args
  straight : flags.isStatic = true → call.upcasts = []
  path : flags.isStatic = false → ∃ method start name own first,
    query = .method start name ∧ call.method? r = some method ∧ method.flags = flags ∧
      r.row? start = some own ∧ P.Describes first own ∧ P.Path first call.upcasts type

/-- A call without a receiver. -/
theorem resolves_static {query : Registry.Query} (alive : call.isAlive r = true)
    (accepts : P.Accepts .none call args) (straight : call.upcasts = []) :
    ∃ flags type, P.Resolves r args query call flags type :=
  ⟨{ isStatic := true }, default, alive, accepts, fun _ => straight, fun fixed => nomatch fixed⟩

theorem resolveFunction_resolves
    (typed : ∀ index row, r.functions.rowAt? index = some row →
      P.Shows .none row.callable row.params)
    {name : String} (resolved : r.resolveFunction name args = .ok call) :
    ∃ flags type, P.Resolves r args (.function name) call flags type := by
  obtain ⟨h, row, bindings, here, viable, rfl⟩ := Registry.resolveFunction_eq_ok resolved
  refine resolves_static ?_ ⟨?_, viable⟩ rfl
  · show ((r.functionRow? h).isSome && true) = true
    rw [here]
    rfl
  · exact typed _ _ (SlotTable.get?_eq_some_iff.mp here).1

theorem resolveConstructor_resolves
    (typed : ∀ index row, r.types.rowAt? index = some row → ∃ type, P.Describes type row)
    {type : TypeHandle} (resolved : r.resolveConstructor type args = .ok call) :
    ∃ flags owner, P.Resolves r args (.constructor type) call flags owner := by
  obtain ⟨row, position, bindings, there, made, viable⟩ := Registry.resolveConstructor_eq_ok resolved
  obtain ⟨own, c, found, present, rfl⟩ := Registry.constructorAt_eq_ok made
  cases there.symm.trans found
  obtain ⟨owner, describes⟩ := typed _ _ (Registry.rowAt?_of_row? there)
  refine resolves_static ?_ ⟨?_, viable c present⟩ rfl
  · obtain ⟨within, -⟩ := List.getElem?_eq_some_iff.mp present
    show ((r.row? type).any _ && true) = true
    rw [there]
    simp [TypeHandle.member, within]
  · exact describes.members.constructors c (List.mem_of_getElem? present)

theorem resolveMethod_resolves (consistent : r.Consistent)
    (typed : ∀ index row, r.types.rowAt? index = some row → ∃ type, P.Describes type row)
    {type : TypeHandle} {name : String} (resolved : r.resolveMethod type name args = .ok call) :
    ∃ flags owner, P.Resolves r args (.method type name) call flags owner := by
  obtain ⟨start, p, route, row, position, method, bindings, there, nearest, present, viable, rfl⟩ :=
    Registry.resolveMethod_eq_ok resolved
  obtain ⟨first, describes⟩ := typed _ _ (Registry.rowAt?_of_row? there)
  obtain ⟨leads, here⟩ := leads_nearest? consistent typed there describes nearest
  obtain ⟨last, describes', path⟩ := leads.path row here
  obtain ⟨within, -⟩ := List.getElem?_eq_some_iff.mp present
  refine ⟨method.flags, last, ?_, ⟨?_, viable⟩, ?_, fun instance_ => ?_⟩
  · show ((r.row? route.handle).any _ && route.path.all r.isAlive) = true
    rw [here, List.all_eq_true.mpr leads.alive]
    simp [TypeHandle.member, within]
  · exact describes'.members.methods method (List.mem_of_getElem? present)
  · exact fun fixed => if_pos fixed
  · refine ⟨method, type, name, start, first, rfl, ?_, rfl, there, describes, ?_⟩
    · show (r.row? route.handle).bind _ = some method
      rw [here]
      exact present
    · dsimp only
      rw [instance_]
      exact path

theorem resolve_resolves (consistent : r.Consistent)
    (types : ∀ index row, r.types.rowAt? index = some row → ∃ type, P.Describes type row)
    (functions : ∀ index row, r.functions.rowAt? index = some row →
      P.Shows .none row.callable row.params)
    {query : Registry.Query} (resolved : r.resolve args query = .ok call) :
    ∃ flags type, P.Resolves r args query call flags type := by
  cases query with
  | method type name => exact resolveMethod_resolves consistent types resolved
  | constructor type => exact resolveConstructor_resolves types resolved
  | function name => exact resolveFunction_resolves functions resolved

/-- Whether a receiver serves a call that has been resolved on a type. A method that is not static
needs an object of the type, and one that may be changed if the method changes it. -/
def Serves (P : Program) (r : Registry) (call : ResolvedCall) (start : TypeHandle)
    (receiver : Receiver) : Prop :=
  ∀ method, call.method? r = some method → method.flags.isStatic = false →
    ∃ object ∈ P.values, object.typeHash P.facts = r.typeHash start ∧
      (receiver = .exclusive object ∨ method.flags.isMutating = false ∧ receiver = .shared object)

/-- A receiver that serves the call is taken where the links lead. -/
theorem Resolves.takes {query : Registry.Query} {flags : MethodFlags} {type : TypeKey}
    (resolves : P.Resolves r args query call flags type) {receiver : Receiver}
    (served : ∀ start name, query = .method start name → P.Serves r call start receiver)
    (name : String) (invoke : Receiver → CallOutcome) :
    ∃ inner object, call.callable.takeReceiver P.facts inner = .ok object ∧
      (ResolvedCall.throughBases name invoke call.upcasts receiver).answer =
        (invoke inner).answer ∧
      (ResolvedCall.throughBases name invoke call.upcasts receiver).activations =
        (invoke inner).activations := by
  have access := resolves.accepts.shows.access
  cases fixed : flags.isStatic with
  | true =>
    obtain ⟨object, received⟩ :
        ∃ object, call.callable.takeReceiver P.facts receiver = .ok object :=
      takeReceiver_ok (fun free => nomatch fixed.symm.trans free) access
    rw [resolves.straight fixed]
    exact ⟨receiver, object, received, rfl, rfl⟩
  | false =>
    obtain ⟨method, start, asked, own, first, here, found, rfl, there, describes, path⟩ :=
      resolves.path fixed
    obtain ⟨object, listed, same, kind⟩ := served start asked here method found fixed
    have hash : object.typeHash P.facts = own.typeHash := by
      rw [same, Registry.typeHash, there]
      rfl
    have fits : object.typeOf = first :=
      P.distinct (P.typed object listed) describes.known (hash.trans describes.hash)
    obtain ⟨inner, lends, answer, activations⟩ :=
      throughBases_eq path ⟨object, listed, fits, kind⟩ name invoke
    obtain ⟨taken, received⟩ := takeReceiver_ok (fun _ => lends) access
    exact ⟨inner, taken, received, answer, activations⟩

variable (P)

/-- In every state, a call that has been resolved is alive, and whenever it is alive it runs its
callable on the arguments that it was resolved for, unless one of them is void. -/
theorem resolved_call_runs {a : Archive} (run : P.Run a) (n : Nat) {query : Registry.Query}
    {args : List Value} (known : ∀ v ∈ args, v.typeOf ∈ P.types) {call : ResolvedCall}
    (resolved : (a.catalog.registry n).resolve (args.map (Value.typeHash P.facts)) query = .ok call)
    {receiver : Receiver} (served : ∀ start name, query = .method start name →
      P.Serves (a.catalog.registry n) call start receiver) :
    call.isAlive (a.catalog.registry n) = true ∧
      ∀ r, call.isAlive r = true →
        ((call.invoke r P.facts receiver args).Runs call.callable ↔
          ∀ v ∈ args, v.isVoid = false) := by
  have typed := Run.typed run
  have consistent := Catalog.Reachable.allConsistent (Run.reachable run) n
  obtain ⟨flags, type, resolves⟩ :=
    resolve_resolves consistent (typed.rows n) (typed.functions n) resolved
  refine ⟨resolves.alive, fun r alive => ?_⟩
  have arity : args.length = call.params.length := by
    have counted := resolves.accepts.viable.length_eq
    rwa [List.length_map] at counted
  obtain ⟨inner, object, received, answer, activations⟩ := resolves.takes served call.name
    fun inner => call.callable.invoke P.facts (call.mode P.facts args) inner args
  rw [ResolvedCall.invoke, if_neg (by simp [alive]), if_neg (by simp [arity]),
    CallOutcome.runs_congr answer activations]
  exact runs_iff_present resolves.accepts known received

end Program

-- A method of a base, called on an object of a type that embeds the base.
namespace Embedded

def types : List TypeKey := PrimitiveKind.all.map .primitive ++ [.user "A", .user "B"]

/-- The built-in types, and a type that embeds another one. -/
def program : Program where
  facts := Gallery.knownTypes
  types := { type | type ∈ types }
  values := { v | v = .object "A" [] ∨ v = .object "B" [] }
  builtIn kind := List.mem_append_left _ (List.mem_map_of_mem (PrimitiveKind.mem_all kind))
  distinct := by
    have apart : (types.map Gallery.knownTypes.hash).Nodup := by decide +kernel
    exact List.inj_on_of_nodup_map apart
  typed := by
    rintro v (rfl | rfl)
    · exact List.mem_append_right _ List.mem_cons_self
    · exact List.mem_append_right _ (List.mem_cons_of_mem _ List.mem_cons_self)

/-- A method that answers its argument. -/
def callable : Callable where
  number := 0
  access := .exclusive (.user "A")
  params := [Gallery.i64]
  body object arguments := ⟨arguments.headD .void, object⟩

def link : BaseLink :=
  ⟨program.facts.hash (.user "A"), .user "B", .user "A", Gallery.memberLens "A" (.user "A")⟩

-- The states of the run that describes both types.
def created : Catalog := { registries := [{}] }

def baseBegun : Catalog := created.begun program.facts 0 (.user "A") .host

def basePass : OpenPass := created.firstPass program.facts 0 (.user "A") .host

def methodName : Name := ((baseBegun.registry 0).intern "m" .host).1

def methodNamed : Catalog :=
  { baseBegun.change 0 (.intern "m" .host) with
    passes := [{ basePass with names := [methodName] }] }

def methodMade : Catalog :=
  { methodNamed with
    nextNumber := 1
    passes := [{ basePass with names := [methodName], made := [.callable callable] }] }

def baseDraft : Draft where
  methods := [⟨methodName, [program.facts.hash Gallery.i64], program.facts.hash Gallery.i64,
    { isMutating := true }, .empty, callable, []⟩]

def baseDescribed : Catalog :=
  { methodMade.change 0 (.commit basePass.pass.handle baseDraft) with passes := [] }

def derivedBegun : Catalog := baseDescribed.begun program.facts 0 (.user "B") .host

def derivedPass : OpenPass := baseDescribed.firstPass program.facts 0 (.user "B") .host

def described : Catalog :=
  { derivedBegun.change 0 (.commit derivedPass.pass.handle { bases := [link] }) with passes := [] }

theorem known_user {key : String} (listed : key = "A" ∨ key = "B") :
    TypeKey.user key ∈ program.types := by
  refine List.mem_append_right _ ?_
  rcases listed with rfl | rfl
  · exact List.mem_cons_self
  · exact List.mem_cons_of_mem _ List.mem_cons_self

theorem shows_callable : program.Shows (.exclusive (.user "A")) callable
    [program.facts.hash Gallery.i64] where
  access := rfl
  params := rfl
  known type listed := by
    rw [List.mem_singleton.mp listed]
    exact program.builtIn _

theorem links_link : program.Links (.user "B") link where
  owner := rfl
  base := rfl
  known := known_user (.inl rfl)
  view := by
    rintro object (rfl | rfl) own
    · exact absurd own (by decide)
    · exact ⟨.inl rfl, rfl⟩

theorem run_created : program.Run ⟨created, []⟩ := by
  refine .tail .refl ?_
  exact {
    step := .move (.create {})
    changed := Catalog.changedBy_create {} trivial
    begun := by simp [created]
    lasting := by simp
    images := by simp }

theorem run_baseBegun : program.Run ⟨baseBegun, []⟩ := by
  refine run_created.tail (.register ?_ run_created.reachable .host ?_ (known_user (.inl rfl)) ?_)
  · simp [created]
  · decide
  · rfl

/-- The row that is being described. -/
theorem basePass_there : ((baseBegun.registry 0).anyRow? basePass.pass.handle).isSome = true := by
  have free := (run_created.reachable.allConsistent 0).free
  exact Option.isSome_of_eq_some (Catalog.anyRow?_firstPass (by simp [created]) free rfl)

theorem run_methodNamed : program.Run ⟨methodNamed, []⟩ := by
  refine run_baseBegun.tail ?_
  refine .of_change (.move (.enter (p := basePass) rfl "m")) rfl trivial trivial ?_ ?_
  · exact List.forall_mem_singleton.mpr (.inl ⟨basePass, List.mem_cons_self, rfl⟩)
  · exact List.forall_mem_singleton.mpr basePass_there

theorem run_methodMade : program.Run ⟨methodMade, []⟩ := by
  let p := { basePass with names := [methodName] }
  refine run_methodNamed.tail ?_
  exact {
    step := .move (.make (p := p) rfl (e := .callable callable) rfl)
    changed := fun _ => .inl rfl
    begun := List.forall_mem_singleton.mpr (.inl ⟨p, List.mem_cons_self, rfl⟩)
    lasting := fun _ _ dead => dead
    images := by simp }

theorem baseDraft_madeOf :
    baseDraft.MadeOf { basePass with names := [methodName], made := [.callable callable] } :=
  ⟨by simp [Draft.names, baseDraft], by simp [baseDraft], by simp [baseDraft]; rfl,
    by simp [baseDraft]⟩

theorem run_baseDescribed : program.Run ⟨baseDescribed, []⟩ := by
  have entered : methodMade.registry 0 = ((baseBegun.registry 0).intern "m" .host).2 :=
    (Catalog.registry_change baseBegun 0 (.intern "m" .host) 0).trans
      (if_pos ⟨rfl, by simp [baseBegun, created, Catalog.begun, Catalog.change]⟩)
  have there : ((methodMade.registry 0).anyRow? basePass.pass.handle).isSome = true := by
    rw [entered]
    exact basePass_there
  refine run_methodMade.tail (.commit ?_ rfl baseDraft_madeOf ⟨?_, ?_, ?_⟩)
  · exact List.forall_mem_singleton.mpr there
  · exact List.forall_mem_singleton.mpr shows_callable
  · simp [baseDraft]
  · simp [baseDraft]

theorem derived_absent :
    (baseDescribed.registry 0).anyByHash? (program.facts.hash (.user "B")) = none :=
  Option.isNone_iff_eq_none.mp (by decide +kernel)

theorem run_derivedBegun : program.Run ⟨derivedBegun, []⟩ := by
  refine run_baseDescribed.tail
    (.register ?_ run_baseDescribed.reachable .host ?_ (known_user (.inr rfl)) derived_absent)
  · simp [baseDescribed]
  · decide

theorem derivedDraft_madeOf : Draft.MadeOf { bases := [link] } derivedPass :=
  ⟨by simp [Draft.names], by simp, by simp, by simp⟩

theorem run_described : program.Run ⟨described, []⟩ := by
  have free := (run_baseDescribed.reachable.allConsistent 0).free
  have there : ((derivedBegun.registry 0).anyRow? derivedPass.pass.handle).isSome = true :=
    Option.isSome_of_eq_some (Catalog.anyRow?_firstPass (by decide) free rfl)
  refine run_derivedBegun.tail (.commit ?_ rfl derivedDraft_madeOf ⟨?_, ?_, ?_⟩)
  · exact List.forall_mem_singleton.mpr there
  · simp
  · simp
  · exact List.forall_mem_singleton.mpr links_link

/-- The call of the base's method on the handle of the type that embeds it. -/
def call : Except QueryError ResolvedCall :=
  (described.registry 0).resolve [program.facts.hash (.primitive (.integer ⟨true, .w32⟩))]
    (.method derivedPass.pass.handle "m")

/-- An argument of 32 bits is converted for the base's method. -/
theorem base_method_called : ∃ c, call = .ok c ∧ c.isAlive (described.registry 0) = true ∧
    (c.invoke (described.registry 0) program.facts (.exclusive (.object "B" []))
      [.ofInt ⟨true, .w32⟩ 5]).Runs c.callable := by
  have resolves : call.toOption.any (fun _ => true) = true := by decide +kernel
  obtain ⟨c, resolved, -⟩ := Except.eq_ok_of_any resolves
  have known : ∀ v ∈ [Value.ofInt ⟨true, .w32⟩ 5], v.typeOf ∈ program.types :=
    List.forall_mem_singleton.mpr (program.builtIn _)
  have served : ∀ start name,
      Registry.Query.method derivedPass.pass.handle "m" = .method start name →
        program.Serves (described.registry 0) c start (.exclusive (.object "B" [])) := by
    rintro start name same method - -
    cases same
    exact ⟨.object "B" [], .inr rfl, by decide +kernel, .inl rfl⟩
  have runs := program.resolved_call_runs run_described 0 known resolved served
  refine ⟨c, resolved, runs.1, (runs.2 _ runs.1).mpr ?_⟩
  exact List.forall_mem_singleton.mpr rfl

/-- A function of a void parameter, which accepts a void argument and fails on it. -/
def ignore : Callable where
  number := 1
  access := .none
  params := [.primitive .void]
  body object _ := ⟨.void, object⟩

def voidHash : TypeHash := program.facts.hash (.primitive .void)

def declared : Catalog :=
  described.change 0 (.addFunction .host "ignore" [voidHash] voidHash ignore)

theorem run_declared : program.Run ⟨declared, []⟩ := by
  have shows : program.Shows .none ignore [voidHash] := {
    access := rfl
    params := rfl
    known := List.forall_mem_singleton.mpr (program.builtIn .void) }
  refine run_described.tail (.of_change ?_ rfl shows trivial ?_ ?_)
  · exact .move (.addFunction 0 .host "ignore" [voidHash] voidHash ignore)
  · exact fun p running => .inl ⟨p, running, rfl⟩
  · simp [described]

theorem void_accepted_and_refused : ∃ a n args c,
    program.Run a ∧ (∀ v ∈ args, v.typeOf ∈ program.types) ∧
      (a.catalog.registry n).resolve (args.map (Value.typeHash program.facts))
        (.function "ignore") = .ok c ∧
      (c.invoke (a.catalog.registry n) program.facts .none args).answer =
        .error (.typeMismatch voidHash voidHash) := by
  have refused : ((declared.registry 0).resolve [voidHash] (.function "ignore")).toOption.any
      (fun c =>
        (c.invoke (declared.registry 0) program.facts .none [.void]).answer.map (fun _ => ()) =
          .error (.typeMismatch voidHash voidHash)) = true := by decide +kernel
  obtain ⟨c, resolved, failed⟩ := Except.eq_ok_of_any refused
  refine ⟨⟨declared, []⟩, 0, [.void], c, run_declared, ?_, resolved, ?_⟩
  · exact List.forall_mem_singleton.mpr (program.builtIn .void)
  · exact Except.eq_error_of_map (of_decide_eq_true failed)

end Embedded

end TypeCatalog
