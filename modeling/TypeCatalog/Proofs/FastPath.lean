import TypeCatalog.Proofs.Calls

/-!
Taking arguments as they are. A call that was resolved without a conversion takes its arguments as
they are while their hashes are those of the parameters, and has them converted otherwise. A row
shows a callable with the hashes of the types that it really takes, and no two types have one hash;
so arguments that are taken as they are would be passed on unchanged by a conversion as well, and
nobody can tell which way a call has gone.
-/
namespace TypeCatalog

/-- The call with its arguments converted where they do not fit, however it was resolved. -/
def ResolvedCall.invokeConverting (r : Registry) (u : Universe) (c : ResolvedCall)
    (receiver : Receiver) (args : List Value) : CallOutcome :=
  if c.isAlive r = false then .failed .staleHandle receiver
  else if args.length ≠ c.params.length then
    .failed (.arityMismatch c.params.length args.length) receiver
  else
    throughBases c.name (fun inner => c.callable.invoke u .convert inner args) c.upcasts receiver

/-- The calls that a registry hands out: for the types of some arguments, or for a handle. -/
inductive Registry.HandsOut (r : Registry) : ResolvedCall → Prop where
  | resolved {query : Query} {args : List TypeHash} {call : ResolvedCall}
      (found : r.resolve args query = .ok call) : HandsOut r call
  | method {m : MemberHandle} {call : ResolvedCall} (found : r.methodCall m = .ok call) :
      HandsOut r call
  | constructor {m : MemberHandle} {call : ResolvedCall} (found : r.constructorCall m = .ok call) :
      HandsOut r call
  | function {h : FunctionHandle} {call : ResolvedCall} (found : r.functionCall h = .ok call) :
      HandsOut r call

/-- Arguments of the parameters' types are taken as they are in either way. -/
theorem Callable.takeArguments_of_fits (u : Universe) (mode : ArgMode) {params : List TypeKey}
    {args : List Value} (fits : List.Forall₂ (fun v p => Value.get? v p = some v) args params)
    (position : Nat) : takeArguments u mode position params args = .ok args := by
  induction fits generalizing position with
  | nil => rfl
  | @cons v param args params first _ ih =>
    have one : takeArgument u mode position param v = .ok v := by
      unfold takeArgument
      rw [first]
    rw [takeArguments, one, ih]
    rfl

/-- A call on arguments of the parameters' types is the same in either way. -/
theorem Callable.invoke_of_fits (u : Universe) (c : Callable) {args : List Value}
    (fits : List.Forall₂ (fun v p => Value.get? v p = some v) args c.params) (receiver : Receiver) :
    c.invoke u .exact receiver args = c.invoke u .convert receiver args := by
  have entered : c.enter u .exact receiver args = c.enter u .convert receiver args := by
    simp only [enter, takeArguments_of_fits u _ fits]
  rw [invoke, invoke, entered]

namespace Program

variable {P : Program}

/-- Arguments whose hashes are those of the parameters are of the parameters' types. -/
theorem fits_of_hashes {params : List TypeKey} {args : List Value}
    (known : ∀ v ∈ args, v.typeOf ∈ P.types) (accepted : ∀ p ∈ params, p ∈ P.types)
    (present : ∀ v ∈ args, v.isVoid = false)
    (same : args.map (Value.typeHash P.facts) = params.map P.facts.hash) :
    List.Forall₂ (fun v p => Value.get? v p = some v) args params := by
  induction args generalizing params with
  | nil =>
    rw [List.map_nil, eq_comm, List.map_eq_nil_iff] at same
    rw [same]
    exact .nil
  | cons v args ih =>
    cases params with
    | nil => cases same
    | cons param params =>
      obtain ⟨first, rest⟩ := List.cons.inj same
      obtain ⟨knownFirst, knownRest⟩ := List.forall_mem_cons.mp known
      obtain ⟨acceptedFirst, acceptedRest⟩ := List.forall_mem_cons.mp accepted
      obtain ⟨presentFirst, presentRest⟩ := List.forall_mem_cons.mp present
      have own : v.typeOf = param := P.distinct knownFirst acceptedFirst first
      exact .cons (Value.get?_of_typeOf own presentFirst)
        (ih knownRest acceptedRest presentRest rest)

/-- A call that a registry hands out has a callable that is shown as it is. -/
theorem shows_of_handsOut {r : Registry} (consistent : r.Consistent)
    (types : ∀ index row, r.types.rowAt? index = some row → ∃ type, P.Describes type row)
    (functions : ∀ index row, r.functions.rowAt? index = some row →
      P.Shows .none row.callable row.params)
    {call : ResolvedCall} (handed : r.HandsOut call) :
    ∃ access, P.Shows access call.callable call.params := by
  cases handed with
  | resolved found =>
    obtain ⟨flags, type, resolves⟩ := resolve_resolves consistent types functions found
    exact ⟨_, resolves.accepts.shows⟩
  | @method m _ found =>
    obtain ⟨row, there, found⟩ := Except.eq_ok_of_bind found
    obtain ⟨method, present, found⟩ := Except.eq_ok_of_bind found
    cases found
    obtain ⟨type, describes⟩ :=
      types _ _ (Registry.rowAt?_of_row? (Registry.eq_some_of_orStale there))
    have listed := List.mem_of_getElem? (Registry.eq_some_of_orStale present)
    exact ⟨_, describes.members.methods method listed⟩
  | constructor found =>
    obtain ⟨row, constructor, there, present, rfl⟩ := Registry.constructorAt_eq_ok found
    obtain ⟨type, describes⟩ := types _ _ (Registry.rowAt?_of_row? there)
    exact ⟨_, describes.members.constructors constructor (List.mem_of_getElem? present)⟩
  | function found =>
    obtain ⟨row, there, found⟩ := Except.eq_ok_of_bind found
    cases found
    have own := Registry.eq_some_of_orStale there
    exact ⟨_, functions _ _ (SlotTable.get?_eq_some_iff.mp own).1⟩

variable (P)

/-- A call that comes from any state may always convert its arguments: it answers the same, runs its
callable as often and on the same arguments, and leaves the receiver the same. -/
theorem invoke_eq_invokeConverting {a : Archive} (run : P.Run a) (n : Nat) {call : ResolvedCall}
    (handed : (a.catalog.registry n).HandsOut call) {args : List Value}
    (known : ∀ v ∈ args, v.typeOf ∈ P.types) (present : ∀ v ∈ args, v.isVoid = false)
    (r : Registry) (receiver : Receiver) :
    call.invoke r P.facts receiver args = call.invokeConverting r P.facts receiver args := by
  have typed := Run.typed run
  have consistent := Catalog.Reachable.allConsistent (Run.reachable run) n
  obtain ⟨access, shows⟩ :=
    shows_of_handsOut consistent (typed.rows n) (typed.functions n) handed
  have same : (fun inner => call.callable.invoke P.facts (call.mode P.facts args) inner args) =
      fun inner => call.callable.invoke P.facts .convert inner args := by
    funext inner
    cases way : call.mode P.facts args with
    | exact =>
      have hashes := (call.params_of_exact way).trans shows.params
      have fits := fits_of_hashes known shows.known present hashes
      exact call.callable.invoke_of_fits P.facts fits inner
    | convert => rfl
  rw [ResolvedCall.invoke, ResolvedCall.invokeConverting, same]

end Program

namespace Embedded

/-- The base's method on the handle of the type that embeds it, for an argument of its own type. -/
def exactCall : Except QueryError ResolvedCall :=
  (described.registry 0).resolve [program.facts.hash Gallery.i64]
    (.method derivedPass.pass.handle "m")

/-- An argument that is taken as it is, and one that the same call converts. -/
theorem exact_call_reused : ∃ c, exactCall = .ok c ∧
    c.mode program.facts [.ofInt ⟨true, .w64⟩ 5] = .exact ∧
    c.mode program.facts [.ofInt ⟨true, .w32⟩ 5] = .convert ∧
    ∀ v ∈ [Value.ofInt ⟨true, .w64⟩ 5, .ofInt ⟨true, .w32⟩ 5], ∀ receiver,
      c.invoke (described.registry 0) program.facts receiver [v] =
        c.invokeConverting (described.registry 0) program.facts receiver [v] := by
  have resolves : exactCall.toOption.any (fun c =>
      c.mode program.facts [.ofInt ⟨true, .w64⟩ 5] = .exact &&
        c.mode program.facts [.ofInt ⟨true, .w32⟩ 5] = .convert) = true := by decide +kernel
  obtain ⟨c, resolved, ways⟩ := Except.eq_ok_of_any resolves
  simp only [Bool.and_eq_true, decide_eq_true_eq] at ways
  refine ⟨c, resolved, ways.1, ways.2, fun v listed receiver => ?_⟩
  have given : v.typeOf ∈ program.types ∧ v.isVoid = false := by
    simp only [List.mem_cons, List.not_mem_nil, or_false] at listed
    rcases listed with rfl | rfl
    · exact ⟨program.builtIn _, rfl⟩
    · exact ⟨program.builtIn _, rfl⟩
  exact program.invoke_eq_invokeConverting run_described 0 (.resolved resolved)
    (List.forall_mem_singleton.mpr given.1) (List.forall_mem_singleton.mpr given.2) _ _

end Embedded

end TypeCatalog
