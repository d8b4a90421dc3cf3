import TypeCatalog.Proofs.Registrations

/-!
Using what is gone. A handle of a type, a member or a function outlives its row when the row is
removed or replaced. Whatever is done with it then is refused as stale before anything else is looked
at, whichever object, name and arguments are passed, and the object stays as it is. Reading a field
of a type by name is the exception: the name is looked for first, among the fields of no row.
-/
namespace TypeCatalog

namespace Registry

variable {r : Registry}

theorem row?_of_stale {h : TypeHandle} (stale : r.isAlive h = false) : r.row? h = none := by
  simpa [isAlive] using stale

theorem resolveMethod_stale {h : TypeHandle} (stale : r.isAlive h = false) (name : String)
    (args : List TypeHash) : r.resolveMethod h name args = .error .staleHandle := by
  rw [resolveMethod, row?_of_stale stale]
  rfl

theorem resolveConstructor_stale {h : TypeHandle} (stale : r.isAlive h = false)
    (args : List TypeHash) : r.resolveConstructor h args = .error .staleHandle := by
  rw [resolveConstructor, row?_of_stale stale]
  rfl

theorem functionCall_stale {h : FunctionHandle} (stale : r.isFunctionAlive h = false) :
    r.functionCall h = .error .staleHandle := by
  have gone : r.functionRow? h = none := by simpa [isFunctionAlive] using stale
  rw [functionCall, gone]
  rfl

theorem fieldNamed?_stale {h : TypeHandle} (stale : r.isAlive h = false) (name : String) :
    r.fieldNamed? h name = none := by
  rw [fieldNamed?, row?_of_stale stale]
  cases r.names.find? name <;> rfl

theorem methodCall_stale {m : MemberHandle} (gone : r.method? m = none) :
    r.methodCall m = .error .staleHandle := by
  unfold method? at gone
  unfold methodCall
  cases found : r.row? m.owner with
  | none => rfl
  | some row =>
    rw [found, Option.bind_some] at gone
    simp [orStale, gone, bind, Except.bind]

theorem constructorCall_stale {m : MemberHandle} (gone : r.constructor? m = none) :
    r.constructorCall m = .error .staleHandle := by
  unfold constructor? at gone
  unfold constructorCall constructorAt
  cases found : r.row? m.owner with
  | none => rfl
  | some row =>
    rw [found, Option.bind_some] at gone
    simp [orStale, gone, bind, Except.bind]

theorem viewField_stale {m : MemberHandle} (gone : r.field? m = none) (object : Value) :
    r.viewField m object = .error .staleHandle := by
  rw [viewField, gone]
  rfl

theorem setField_stale {m : MemberHandle} (gone : r.field? m = none) (u : Universe)
    (object value : Value) : r.setField u m object value = .error .staleHandle := by
  rw [setField, gone]
  rfl

theorem getProperty_stale {m : MemberHandle} (gone : r.property? m = none) (u : Universe)
    (object : Value) : r.getProperty u m object = .error .staleHandle := by
  rw [getProperty, gone]
  rfl

theorem setProperty_stale {m : MemberHandle} (gone : r.property? m = none) (u : Universe)
    (object value : Value) : r.setProperty u m object value = .error .staleHandle := by
  rw [setProperty, gone]
  rfl

theorem viewBase_stale {m : MemberHandle} (gone : r.base? m = none) (object : Value) :
    r.viewBase m object = .error .staleHandle := by
  rw [viewBase, gone]
  rfl

end Registry

namespace Script

open Play

def StaleType (s : Session) (word : String) : Prop :=
  ∃ k h, s.types.find? word = some ⟨k, h⟩ ∧ (s.registry k).isAlive h = false

/-- A word for a member of one of some kinds that is there no longer. -/
def StaleMember (s : Session) (kinds : List MemberKind) (word : String) : Prop :=
  ∃ k kind m, s.members.find? word = some ⟨k, kind, m⟩ ∧ kind ∈ kinds ∧
    ((s.registry k).memberView kind m).isValid = false

def StaleFunction (s : Session) (word : String) : Prop :=
  ∃ k h, s.functions.find? word = some ⟨k, h⟩ ∧ (s.registry k).isFunctionAlive h = false

/-- Whether operands have values. -/
def Given (u : Universe) (s : Session) (args : List Operand) : Prop :=
  ∃ values, (Operand.values u args).outcome s = (.ok values, s)

def Present (s : Session) (word : String) : Prop :=
  ∃ object, s.objects.find? word = some object ∧ object.isVoid = false

/-- Whether the object that is lent to a call is there. -/
def Lending.Possible (s : Session) : Lending → Prop
  | .nothing => True
  | .shared word | .exclusive word => (s.objects.find? word).isSome

/-- The requests that use a stale handle. -/
inductive UsesStale (u : Universe) (s : Session) : Request → Prop where
  | construct {word : String} {args : List Operand} (stale : StaleType s word)
      (given : Given u s args) : UsesStale u s (.call (.construct word args))
  | invoke {word : String} {args : List Operand} {receiver : Lending} (name : String)
      (stale : StaleType s word) (given : Given u s args) (possible : receiver.Possible s) :
      UsesStale u s (.call (.invoke word name receiver args))
  | resolveMethod {word : String} (name : String) (types : List TypeHash)
      (stale : StaleType s word) : UsesStale u s (.call (.resolveMethod word name types))
  | resolveConstructor {word : String} (types : List TypeHash) (stale : StaleType s word) :
      UsesStale u s (.call (.resolveConstructor word types))
  | ofMember {word : String} (stale : StaleMember s [.method, .constructor] word) :
      UsesStale u s (.call (.ofMember word))
  | invokeMember {word : String} {args : List Operand} {receiver : Lending}
      (stale : StaleMember s [.method, .constructor] word) (given : Given u s args)
      (possible : receiver.Possible s) : UsesStale u s (.call (.invokeMember word receiver args))
  | ofFunction {word : String} (stale : StaleFunction s word) :
      UsesStale u s (.call (.ofFunction word))
  | invokeHandle {word : String} {args : List Operand} (stale : StaleFunction s word)
      (given : Given u s args) : UsesStale u s (.call (.invokeHandle word args))
  | get {word object : String} (stale : StaleMember s [.field, .property, .base] word)
      (present : Present s object) : UsesStale u s (.member (.get word object))
  | view {word object : String} (stale : StaleMember s [.field, .base] word)
      (present : Present s object) : UsesStale u s (.member (.lend word object false))
  | viewMut {word object : String} (stale : StaleMember s [.base] word)
      (present : Present s object) : UsesStale u s (.member (.lend word object true))
  | set {word object : String} {value : Operand} (stale : StaleMember s [.field, .property] word)
      (given : ∃ v, (value.value u).outcome s = (.ok v, s)) (present : Present s object) :
      UsesStale u s (.member (.set word object value))

namespace Play

variable {α β : Type} {s : Session} {cause : QueryError} {x : Play α} {f : α → Play β}

/-- Whether a computation fails for a reason; it may put objects back, but as they were. -/
def Refuses (cause : QueryError) (s : Session) (x : Play α) : Prop :=
  ∃ objects, x.outcome s = (.error (.failed (.query cause)), { s with objects }) ∧
    ∀ word, objects.find? word = s.objects.find? word

theorem refuses_query (cause : QueryError) : Refuses cause s (query (.error cause) : Play α) :=
  ⟨s.objects, rfl, fun _ => rfl⟩

theorem Refuses.bind (refuses : Refuses cause s x) : Refuses cause s (x >>= f) := by
  obtain ⟨objects, failed, same⟩ := refuses
  exact ⟨objects, outcome_bind_error failed, same⟩

theorem Refuses.after {a : α} (refuses : Refuses cause s (f a)) (done : x.outcome s = (.ok a, s)) :
    Refuses cause s (x >>= f) := by
  obtain ⟨objects, failed, same⟩ := refuses
  exact ⟨objects, (outcome_bind_ok done).trans failed, same⟩

theorem outcome_orMissing {a : α} (what : Referent) (word : String) {found : Option α}
    (there : found = some a) : (orMissing what word found).outcome s = (.ok a, s) := by
  subst there
  rfl

theorem outcome_typeHandle {stored : In TypeHandle} {word : String}
    (found : s.types.find? word = some stored) (n : Nat) :
    (typeHandle n word).outcome s = (.ok stored, s) := by
  have got : (get : Play Session).outcome s = (.ok s, s) := rfl
  rw [typeHandle, outcome_bind_ok got, found]
  rfl

theorem outcome_member {stored : In (MemberKind × MemberHandle)} {word : String}
    (found : s.members.find? word = some stored) :
    (member word).outcome s = (.ok stored, s) :=
  outcome_orMissing .member word found

theorem outcome_function {stored : In FunctionHandle} {word : String}
    (found : s.functions.find? word = some stored) :
    (function word).outcome s = (.ok stored, s) :=
  outcome_orMissing .function word found

theorem outcome_object {object : Value} {word : String}
    (found : s.objects.find? word = some object) :
    (Play.object word).outcome s = (.ok object, s) :=
  outcome_orMissing .object word found

theorem outcome_presentObject {object : Value} {word : String}
    (found : s.objects.find? word = some object) (present : object.isVoid = false) :
    (presentObject word).outcome s = (.ok object, s) := by
  rw [presentObject, outcome_bind_ok (outcome_object found), present]
  rfl

theorem refuses_registry {k : Nat} {f : Registry → Play β}
    (next : Refuses cause s (f (s.registry k))) : Refuses cause s (registry k >>= f) :=
  next.after rfl

end Play

section

variable {α : Type} {u : Universe} {s : Session} {cause : QueryError} {word : String}

theorem StaleType.refuses {f : In TypeHandle → Play α} (stale : StaleType s word) {n : Nat}
    (next : ∀ k h, (s.registry k).isAlive h = false → Refuses cause s (f ⟨k, h⟩)) :
    Refuses cause s (typeHandle n word >>= f) := by
  obtain ⟨k, h, found, dead⟩ := stale
  exact (next k h dead).after (outcome_typeHandle found n)

theorem StaleMember.refuses {f : In (MemberKind × MemberHandle) → Play α} {kinds : List MemberKind}
    (stale : StaleMember s kinds word)
    (next : ∀ k, ∀ kind ∈ kinds, ∀ m, ((s.registry k).memberView kind m).isValid = false →
      Refuses cause s (f ⟨k, kind, m⟩)) :
    Refuses cause s (member word >>= f) := by
  obtain ⟨k, kind, m, found, listed, gone⟩ := stale
  exact (next k kind listed m gone).after (outcome_member found)

theorem StaleFunction.refuses {f : In FunctionHandle → Play α} (stale : StaleFunction s word)
    (next : ∀ k h, (s.registry k).isFunctionAlive h = false → Refuses cause s (f ⟨k, h⟩)) :
    Refuses cause s (function word >>= f) := by
  obtain ⟨k, h, found, dead⟩ := stale
  exact (next k h dead).after (outcome_function found)

theorem Given.refuses {f : List Value → Play α} {args : List Operand} (given : Given u s args)
    (next : ∀ values, Refuses cause s (f values)) :
    Refuses cause s (Operand.values u args >>= f) := by
  obtain ⟨values, valued⟩ := given
  exact (next values).after valued

theorem Present.refuses {f : Value → Play α} (present : Present s word)
    (next : ∀ object, Refuses cause s (f object)) :
    Refuses cause s (presentObject word >>= f) := by
  obtain ⟨object, found, solid⟩ := present
  exact (next object).after (outcome_presentObject found solid)

end

variable {u : Universe} {s : Session} {n : Nat} {word : String}

/-- What is lent to a call and given back unchanged is as it was. -/
theorem Lending.lent_and_returned {receiver : Lending} (possible : receiver.Possible s) :
    ∃ lent objects, receiver.receiver.outcome s = (.ok lent, s) ∧
      (receiver.settle lent).outcome s = (.ok (), { s with objects }) ∧
      ∀ word, objects.find? word = s.objects.find? word := by
  cases receiver with
  | nothing => exact ⟨.none, s.objects, rfl, rfl, fun _ => rfl⟩
  | shared word =>
    obtain ⟨object, found⟩ := Option.isSome_iff_exists.mp possible
    exact ⟨.sharing object, s.objects, outcome_bind_ok (outcome_object found), rfl, fun _ => rfl⟩
  | exclusive word =>
    obtain ⟨object, found⟩ := Option.isSome_iff_exists.mp possible
    have lent : (receiver (.exclusive word)).outcome s = (.ok (.lending object), s) :=
      outcome_bind_ok (outcome_object found)
    by_cases void : object.isVoid = true
    · refine ⟨_, s.objects, lent, ?_, fun _ => rfl⟩
      rw [Receiver.lending, if_pos void]
      rfl
    · refine ⟨_, s.objects.insert word object, lent, ?_, fun other => ?_⟩
      · rw [Receiver.lending, if_neg void]
        rfl
      · rw [Index.find?_insert]
        split
        · rename_i same
          rw [same, found]
        · rfl

/-- A call that fails before anything runs gives back what it was lent. -/
theorem Lending.refuses_call {cause : QueryError} {receiver : Lending}
    (possible : receiver.Possible s) {invoke : Receiver → CallOutcome}
    (failed : ∀ lent, invoke lent = .failed cause lent) :
    Refuses cause s (receiver.call invoke) := by
  obtain ⟨lent, objects, taken, returned, same⟩ := lent_and_returned possible
  refine ⟨objects, ?_, same⟩
  rw [call, outcome_bind_ok taken, failed]
  exact (outcome_bind_ok returned).trans rfl

namespace CallRequest

theorem refuses_perform {cause : QueryError} {receiver : Lending} {args : List Value}
    {resolve : Registry → Except QueryError ResolvedCall}
    (failed : resolve (s.registry n) = .error cause) (possible : receiver.Possible s) :
    Refuses cause s (perform u n receiver args resolve) := by
  have got : (registry n).outcome s = (.ok (s.registry n), s) := rfl
  apply Refuses.after _ got
  apply Lending.refuses_call possible
  intro lent
  rw [failed]

/-- The call of a member that is gone is refused, if members of its kind have calls. -/
theorem memberCall?_stale {r : Registry} {kind : MemberKind} {m : MemberHandle}
    (calls : kind ∈ [.method, .constructor]) (stale : (r.memberView kind m).isValid = false) :
    memberCall? r kind m = some (.error .staleHandle) := by
  cases kind <;> simp at calls
  · have gone : r.method? m = none := by simpa [Registry.memberView] using stale
    rw [memberCall?, Registry.methodCall_stale gone]
  · have gone : r.constructor? m = none := by simpa [Registry.memberView] using stale
    rw [memberCall?, Registry.constructorCall_stale gone]

variable {args : List Operand} {receiver : Lending}

theorem construct_refused (stale : StaleType s word) (given : Given u s args) :
    Refuses .staleHandle s ((Request.call (.construct word args)).answer u n) := by
  refine stale.refuses fun k h dead => given.refuses fun values => Refuses.bind ?_
  exact refuses_perform (Registry.resolveConstructor_stale dead _) trivial

theorem invoke_refused (stale : StaleType s word) (name : String) (given : Given u s args)
    (possible : receiver.Possible s) :
    Refuses .staleHandle s ((Request.call (.invoke word name receiver args)).answer u n) := by
  refine stale.refuses fun k h dead => given.refuses fun values => Refuses.bind ?_
  exact refuses_perform (Registry.resolveMethod_stale dead name _) possible

theorem resolveMethod_refused (stale : StaleType s word) (name : String) (types : List TypeHash) :
    Refuses .staleHandle s ((Request.call (.resolveMethod word name types)).answer u n) := by
  refine stale.refuses fun k h dead => refuses_registry ?_
  rw [Registry.resolveMethod_stale dead]
  exact (refuses_query _).bind

theorem resolveConstructor_refused (stale : StaleType s word) (types : List TypeHash) :
    Refuses .staleHandle s ((Request.call (.resolveConstructor word types)).answer u n) := by
  refine stale.refuses fun k h dead => refuses_registry ?_
  rw [Registry.resolveConstructor_stale dead]
  exact (refuses_query _).bind

theorem ofMember_refused (stale : StaleMember s [.method, .constructor] word) :
    Refuses .staleHandle s ((Request.call (.ofMember word)).answer u n) := by
  refine stale.refuses fun k kind calls m gone => refuses_registry ?_
  rw [memberCall?_stale calls gone]
  exact (refuses_query _).bind

theorem invokeMember_refused (stale : StaleMember s [.method, .constructor] word)
    (given : Given u s args) (possible : receiver.Possible s) :
    Refuses .staleHandle s ((Request.call (.invokeMember word receiver args)).answer u n) := by
  refine stale.refuses fun k kind calls m gone => given.refuses fun values => refuses_registry ?_
  rw [memberCall?_stale calls gone]
  apply Refuses.bind
  apply refuses_perform rfl
  split
  · trivial
  · exact possible

theorem ofFunction_refused (stale : StaleFunction s word) :
    Refuses .staleHandle s ((Request.call (.ofFunction word)).answer u n) := by
  refine stale.refuses fun k h dead => refuses_registry ?_
  rw [Registry.functionCall_stale dead]
  exact (refuses_query _).bind

theorem invokeHandle_refused (stale : StaleFunction s word) (given : Given u s args) :
    Refuses .staleHandle s ((Request.call (.invokeHandle word args)).answer u n) := by
  refine stale.refuses fun k h dead => given.refuses fun values => Refuses.bind ?_
  exact refuses_perform (Registry.functionCall_stale dead) trivial

end CallRequest

namespace MemberRequest

/-- Reading a member that is gone is refused, if members of its kind can be read. -/
theorem read_refused {readable kinds : List MemberKind} {object : String}
    (stale : StaleMember s kinds word) (subset : kinds ⊆ readable)
    (data : readable ⊆ [.field, .property, .base]) (present : Present s object) :
    Refuses .staleHandle s (read u readable word object) := by
  refine stale.refuses fun k kind listed m gone => present.refuses fun v => refuses_registry ?_
  have usable : kind ∈ readable := subset listed
  have refused : Refuses .staleHandle s (do
      if kind ∈ readable then return some (← query (.error .staleHandle)) else return none :
        Play (Option Value)) := by
    rw [if_pos usable]
    exact (refuses_query .staleHandle).bind
  have dataKind := data usable
  cases kind <;> simp at dataKind
  case field =>
    have none : (s.registry k).field? m = none := by simpa [Registry.memberView] using gone
    simpa only [Registry.viewField_stale none] using refused
  case property =>
    have none : (s.registry k).property? m = none := by simpa [Registry.memberView] using gone
    simpa only [Registry.getProperty_stale none] using refused
  case base =>
    have none : (s.registry k).base? m = none := by simpa [Registry.memberView] using gone
    simpa only [Registry.viewBase_stale none] using refused

theorem write_refused {object : String} {value : Operand}
    (stale : StaleMember s [.field, .property] word)
    (given : ∃ v, (value.value u).outcome s = (.ok v, s)) (present : Present s object) :
    Refuses .staleHandle s (write u word object value) := by
  obtain ⟨new, valued⟩ := given
  refine stale.refuses fun k kind listed m gone => Refuses.after ?_ valued
  refine present.refuses fun v => refuses_registry ?_
  cases kind <;> simp at listed
  case field =>
    have none : (s.registry k).field? m = none := by simpa [Registry.memberView] using gone
    simp only [Registry.setField_stale none]
    exact (refuses_query .staleHandle).bind
  case property =>
    have none : (s.registry k).property? m = none := by simpa [Registry.memberView] using gone
    simp only [Registry.setProperty_stale none]
    exact (refuses_query .staleHandle).bind

/-- A field that is read by its name from a type that is gone is said not to be there. -/
theorem getField_of_stale {object : String} (name : String) (stale : StaleType s word)
    (present : Present s object) :
    Refuses (.notFound "field" name) s ((getField word object name).answer u n) := by
  refine stale.refuses fun k h dead => present.refuses fun v => refuses_registry ?_
  rw [Registry.getNamedField, Registry.fieldNamed?_stale dead]
  exact (refuses_query _).bind

end MemberRequest

/-- Whatever is done with a stale handle of a type, a member or a function is refused as stale,
except reading a field by its name, and every object stays as it is: a type is not constructed from,
nor are its constructors and methods resolved or invoked; a method, a constructor and a function have
no call and are not invoked; a field or a property is neither read nor written, a field not viewed,
and a base not viewed, changed or copied out. -/
theorem stale_handles_refused {request : Request} (uses : UsesStale u s request) (n : Nat) :
    ∃ objects, (request.answer u n).outcome s =
        (.error (.failed (.query .staleHandle)), { s with objects }) ∧
      ∀ word, objects.find? word = s.objects.find? word := by
  show Refuses .staleHandle s (request.answer u n)
  cases uses with
  | construct stale given => exact CallRequest.construct_refused stale given
  | invoke name stale given possible => exact CallRequest.invoke_refused stale name given possible
  | resolveMethod name types stale => exact CallRequest.resolveMethod_refused stale name types
  | resolveConstructor types stale => exact CallRequest.resolveConstructor_refused stale types
  | ofMember stale => exact CallRequest.ofMember_refused stale
  | invokeMember stale given possible => exact CallRequest.invokeMember_refused stale given possible
  | ofFunction stale => exact CallRequest.ofFunction_refused stale
  | invokeHandle stale given => exact CallRequest.invokeHandle_refused stale given
  | get stale present =>
    exact (MemberRequest.read_refused stale (fun _ => id) (fun _ => id) present).bind
  | view stale present =>
    exact (MemberRequest.read_refused stale (fun _ => id) (by simp) present).bind
  | viewMut stale present =>
    exact (MemberRequest.read_refused stale (fun _ => id) (by simp) present).bind
  | set stale given present => exact MemberRequest.write_refused stale given present

/-- A type with a field, of which a handle and an object are kept when it has been removed. -/
def measured : World := describing [.field "size" Gallery.i32 .whole none []]

def afterRemoval : Session :=
  let steps : List Step := [
    .mk "" (some "h") (.register (.user "A") (.ofName "plug")),
    .mk "" (some "o") (.request (.value (.value (.literal (.object "A" []))))),
    .mk "" none (.request (.module (.unregister (.ofName "plug"))))]
  ((steps.forM (tellStep measured 8)).outcome {}).2

theorem afterRemoval_stale : StaleType afterRemoval "h" ∧ Present afterRemoval "o" := by
  have computed : (afterRemoval.types.find? "h").any (fun stored =>
      (afterRemoval.registry stored.registry).isAlive stored.item = false) = true ∧
      (afterRemoval.objects.find? "o").any (fun object => object.isVoid = false) = true := by
    decide +kernel
  obtain ⟨stored, found, dead⟩ := (Option.any_eq_true _ _).mp computed.1
  obtain ⟨object, there, solid⟩ := (Option.any_eq_true _ _).mp computed.2
  exact ⟨⟨_, _, found, of_decide_eq_true dead⟩, ⟨object, there, of_decide_eq_true solid⟩⟩

/-- A method of the removed type is invoked on the object, which stays as it is. -/
theorem method_of_removed_type_refused :
    let request := Request.call (.invoke "h" "grow" (.exclusive "o") [])
    ∃ objects, (request.answer measured.types 0).outcome afterRemoval =
        (.error (.failed (.query .staleHandle)), { afterRemoval with objects }) ∧
      ∀ word, objects.find? word = afterRemoval.objects.find? word := by
  intro request
  obtain ⟨stale, object, there, -⟩ := afterRemoval_stale
  have given : Given measured.types afterRemoval [] := ⟨[], rfl⟩
  have possible : (Lending.exclusive "o").Possible afterRemoval := by
    rw [Lending.Possible, there]
    rfl
  exact stale_handles_refused (.invoke "grow" stale given possible) 0

/-- The field of the removed type is read from the object by its name. -/
theorem field_of_removed_type_not_found :
    StaleType afterRemoval "h" ∧ Present afterRemoval "o" ∧
      (((Request.member (.getField "h" "o" "size")).answer measured.types 0).outcome
        afterRemoval).1 = .error (.failed (.query (.notFound "field" "size"))) := by
  obtain ⟨stale, present⟩ := afterRemoval_stale
  obtain ⟨objects, failed, -⟩ :=
    MemberRequest.getField_of_stale (u := measured.types) (n := 0) "size" stale present
  exact ⟨stale, present, congrArg Prod.fst failed⟩

end Script

end TypeCatalog
