import TypeCatalog.Proofs.Handles
import TypeCatalog.Proofs.Resolution

/-!
Calls over whole runs. A call keeps what resolution has found, while its target may grow, be replaced
or go. As long as the call is alive its target is still what the call keeps; once a type on the way
to it or the target itself has ended, the call stays dead and no longer does anything.
-/
namespace TypeCatalog

/-- The parameters, the result and the callable of what a target names. -/
def CallTarget.shape? (r : Registry) : CallTarget → Option (List TypeHash × TypeHash × Callable)
  | .method m => (r.method? m).map fun d => (d.params, d.returnType, d.callable)
  | .constructor m => (r.row? m.owner).bind fun row =>
      (row.constructors[m.position]?).map fun c => (c.params, row.typeHash, c.callable)
  | .function h => (r.functionRow? h).map fun f => (f.params, f.returnType, f.callable)

/-- The type that declares the target, if it is a member. -/
def CallTarget.owner? : CallTarget → Option TypeHandle
  | .method m | .constructor m => some m.owner
  | .function _ => none

/-- The types that a call depends on: the one that declares its target, and those on the way. -/
def ResolvedCall.types (call : ResolvedCall) : List TypeHandle :=
  call.target.owner?.toList ++ call.path

theorem ResolvedCall.owner_mem {call : ResolvedCall} {h : TypeHandle}
    (own : call.target.owner? = some h) : h ∈ call.types := by
  rw [types, own]
  exact List.mem_cons_self

/-- Whether a call keeps just what its target is in a registry. -/
def ResolvedCall.Pins (call : ResolvedCall) (r : Registry) : Prop :=
  call.target.shape? r = some (call.params, call.returnType, call.callable)

namespace Registry

variable {r s : Registry} {call : ResolvedCall}

/-- The ways to a resolved call. -/
inductive Builds (r : Registry) : ResolvedCall → Prop where
  | resolveMethod {type : TypeHandle} {name : String} {args : List TypeHash} {call : ResolvedCall}
      (resolved : r.resolveMethod type name args = .ok call) : Builds r call
  | resolveConstructor {type : TypeHandle} {args : List TypeHash} {call : ResolvedCall}
      (resolved : r.resolveConstructor type args = .ok call) : Builds r call
  | resolveFunction {name : String} {args : List TypeHash} {call : ResolvedCall}
      (resolved : r.resolveFunction name args = .ok call) : Builds r call
  | methodCall {m : MemberHandle} {call : ResolvedCall} (made : r.methodCall m = .ok call) :
      Builds r call
  | constructorCall {m : MemberHandle} {call : ResolvedCall}
      (made : r.constructorCall m = .ok call) : Builds r call
  | functionCall {h : FunctionHandle} {call : ResolvedCall} (made : r.functionCall h = .ok call) :
      Builds r call

/-- A call that has just been built: it keeps what its target is, and its types are published. -/
structure Built (r : Registry) (call : ResolvedCall) : Prop where
  pins : call.Pins r
  alive : ∀ h ∈ call.types, r.isAlive h = true

theorem methodCall_built {m : MemberHandle} (made : r.methodCall m = .ok call) : r.Built call := by
  obtain ⟨row, found, made⟩ := Except.eq_ok_of_bind made
  obtain ⟨method, found', made⟩ := Except.eq_ok_of_bind made
  have there := eq_some_of_orStale found
  have present := eq_some_of_orStale found'
  cases made
  constructor
  · simp [ResolvedCall.Pins, CallTarget.shape?, method?, there, present]
  · simp [ResolvedCall.types, CallTarget.owner?, isAlive_of_row? there]

theorem constructorAt_built {type : TypeHandle} {position : Nat} {bindings : List ArgBinding}
    (made : r.constructorAt type position bindings = .ok call) : r.Built call := by
  obtain ⟨row, c, there, present, rfl⟩ := constructorAt_eq_ok made
  constructor
  · simp [ResolvedCall.Pins, CallTarget.shape?, TypeHandle.member, there, present]
  · simp [ResolvedCall.types, CallTarget.owner?, TypeHandle.member, isAlive_of_row? there]

theorem functionCallOf_built {h : FunctionHandle} {row : FunctionRow}
    (there : r.functionRow? h = some row) (bindings : List ArgBinding) :
    r.Built (functionCallOf h row bindings) := by
  constructor
  · simp [ResolvedCall.Pins, CallTarget.shape?, functionCallOf, there]
  · simp [ResolvedCall.types, CallTarget.owner?, functionCallOf]

theorem resolveMethod_walk {type : TypeHandle} {name : String} {args : List TypeHash}
    (resolved : r.resolveMethod type name args = .ok call) :
    ∃ m, call.target = .method m ∧ r.Walk type call.path m.owner ∧ call.Pins r := by
  obtain ⟨start, p, route, row, position, method, bindings, there, nearest, present, -, rfl⟩ :=
    resolveMethod_eq_ok resolved
  obtain ⟨walk, here⟩ := walk_nearest? there nearest
  refine ⟨_, rfl, walk, ?_⟩
  simp [ResolvedCall.Pins, CallTarget.shape?, method?, TypeHandle.member, here, present]

theorem Builds.built (builds : r.Builds call) (consistent : r.Consistent) : r.Built call := by
  cases builds with
  | resolveMethod resolved =>
    obtain ⟨m, target, walk, pins⟩ := resolveMethod_walk resolved
    refine ⟨pins, fun h member => walk.alive consistent h ?_⟩
    rw [ResolvedCall.types, target] at member
    rcases List.mem_append.mp member with own | way
    · rw [List.mem_singleton.mp own]
      exact walk.last_mem
    · exact way
  | resolveConstructor resolved =>
    obtain ⟨_, _, _, _, made, _⟩ := resolveConstructor_eq_ok resolved
    exact constructorAt_built made
  | resolveFunction resolved =>
    obtain ⟨h, row, bindings, there, _, rfl⟩ := resolveFunction_eq_ok resolved
    exact functionCallOf_built there bindings
  | methodCall made => exact methodCall_built made
  | constructorCall made => exact constructorAt_built made
  | functionCall made =>
    obtain ⟨row, found, made⟩ := Except.eq_ok_of_bind made
    cases made
    exact functionCallOf_built (eq_some_of_orStale found) []

/-- What is in both registries behind one handle has at most grown. -/
structure Grown (r s : Registry) : Prop where
  types : ∀ h old new, r.row? h = some old → s.row? h = some new → old.Grows new
  functions : ∀ h old new, r.functionRow? h = some old → s.functionRow? h = some new → new = old

theorem method_alive_iff {m : MemberHandle} :
    ResolvedCall.isTargetAlive s (.method m) = true ↔
      ∃ row, s.row? m.owner = some row ∧ m.position < row.methods.length := by
  rw [ResolvedCall.isTargetAlive]
  cases s.row? m.owner <;> simp

theorem constructor_alive_iff {m : MemberHandle} :
    ResolvedCall.isTargetAlive s (.constructor m) = true ↔
      ∃ row, s.row? m.owner = some row ∧ m.position < row.constructors.length := by
  rw [ResolvedCall.isTargetAlive]
  cases s.row? m.owner <;> simp

theorem Grown.refl (r : Registry) : r.Grown r where
  types _ old _ there there' := Option.some.inj (there.symm.trans there') ▸ .refl old
  functions _ _ _ there there' := Option.some.inj (there'.symm.trans there)

/-- A target that is alive is what it was. -/
theorem Grown.shape? (grown : r.Grown s) {target : CallTarget}
    {shape : List TypeHash × TypeHash × Callable} (before : target.shape? r = some shape)
    (alive : ResolvedCall.isTargetAlive s target = true) : target.shape? s = some shape := by
  cases target with
  | method m =>
    obtain ⟨d, found, rfl⟩ := Option.map_eq_some_iff.mp before
    obtain ⟨old, there, present⟩ := Option.bind_eq_some_iff.mp found
    obtain ⟨new, later, -⟩ := method_alive_iff.mp alive
    have same := sameMembers there later (grown.types _ _ _ there later) m.position
    exact congrArg (Option.map _) (same.method d found)
  | constructor m =>
    obtain ⟨old, there, found⟩ := Option.bind_eq_some_iff.mp before
    obtain ⟨c, present, rfl⟩ := Option.map_eq_some_iff.mp found
    obtain ⟨new, later, -⟩ := constructor_alive_iff.mp alive
    have grows := grown.types _ _ _ there later
    have same := sameMembers there later grows m.position
    have kept : s.constructor? m = some c :=
      same.constructor c (Option.bind_eq_some_iff.mpr ⟨old, there, present⟩)
    rw [Registry.constructor?, later, Option.bind_some] at kept
    rw [CallTarget.shape?, later, Option.bind_some, kept, Option.map_some, grows.typeHash]
  | function h =>
    obtain ⟨row, there, rfl⟩ := Option.map_eq_some_iff.mp before
    obtain ⟨new, later⟩ := Option.isSome_iff_exists.mp alive
    rw [CallTarget.shape?, later, grown.functions _ _ _ there later]
    rfl

/-- A call is alive if its types and its function are, since no row loses a member. -/
theorem Built.isAlive_later (built : r.Built call) (grown : r.Grown s)
    (types : ∀ h ∈ call.types, s.isAlive h = true)
    (function : ∀ h, call.target = .function h → s.isFunctionAlive h = true) :
    call.isAlive s = true := by
  have way : call.path.all s.isAlive = true :=
    List.all_eq_true.mpr fun h listed => types h (List.mem_append_right _ listed)
  refine Bool.and_eq_true_iff.mpr ⟨?_, way⟩
  have pins := built.pins
  unfold ResolvedCall.Pins at pins
  cases named : call.target with
  | method m =>
    rw [named] at pins
    obtain ⟨d, found, -⟩ := Option.map_eq_some_iff.mp pins
    obtain ⟨old, there, present⟩ := Option.bind_eq_some_iff.mp found
    have owner := types m.owner (ResolvedCall.owner_mem (by rw [named]; rfl))
    obtain ⟨new, later⟩ := Option.isSome_iff_exists.mp owner
    have grows := (grown.types _ _ _ there later).methods.length_le
    have within := (List.getElem?_eq_some_iff.mp present).1
    exact method_alive_iff.mpr ⟨new, later, Nat.lt_of_lt_of_le within grows⟩
  | constructor m =>
    rw [named] at pins
    obtain ⟨old, there, found⟩ := Option.bind_eq_some_iff.mp pins
    obtain ⟨c, present, -⟩ := Option.map_eq_some_iff.mp found
    have owner := types m.owner (ResolvedCall.owner_mem (by rw [named]; rfl))
    obtain ⟨new, later⟩ := Option.isSome_iff_exists.mp owner
    have grows := (grown.types _ _ _ there later).constructors.length_le
    have within := (List.getElem?_eq_some_iff.mp present).1
    exact constructor_alive_iff.mpr ⟨new, later, Nat.lt_of_lt_of_le within grows⟩
  | function h => exact function h named

theorem Built.isAlive (built : r.Built call) : call.isAlive r = true := by
  refine built.isAlive_later (.refl r) built.alive fun h named => ?_
  have pins := built.pins
  rw [ResolvedCall.Pins, named] at pins
  obtain ⟨row, there, -⟩ := Option.map_eq_some_iff.mp pins
  exact Option.isSome_iff_exists.mpr ⟨row, there⟩

/-- A call is dead if one of its types is. -/
theorem isAlive_of_call {h : TypeHandle} (alive : call.isAlive s = true) (listed : h ∈ call.types) :
    s.isAlive h = true := by
  obtain ⟨target, way⟩ := Bool.and_eq_true_iff.mp alive
  rcases List.mem_append.mp listed with own | passed
  · unfold CallTarget.owner? at own
    cases named : call.target with
    | method m =>
      rw [named] at own target
      obtain ⟨row, there, -⟩ := method_alive_iff.mp target
      rw [List.mem_singleton.mp own]
      exact isAlive_of_row? there
    | constructor m =>
      rw [named] at own target
      obtain ⟨row, there, -⟩ := constructor_alive_iff.mp target
      rw [List.mem_singleton.mp own]
      exact isAlive_of_row? there
    | function f =>
      rw [named] at own
      cases own
  · exact List.all_eq_true.mp way h passed

end Registry

namespace Counted

variable {u : Universe} {a b c : Counted}

theorem Later.grown (later : a.Later b) (first : a.Good) (second : b.Good)
    (bounded : b.tally.Bounded) (n : Nat) :
    (a.catalog.registry n).Grown (b.catalog.registry n) where
  types h _ _ there there' :=
    (later.types n).get?_of_get? (first.typesCounted n) (second.typesCounted n)
      (bounded.types n h.slot.index) (Option.filter_eq_some_iff.mp there).1
      (Option.filter_eq_some_iff.mp there').1
  functions h _ _ there there' :=
    ((later.functions n).get?_of_get? (first.functionsCounted n) (second.functionsCounted n)
      (bounded.functions n h.slot.index) there there').symm

/-- Whether the target of a call or a type that it depends on has been replaced or removed between
two states. -/
def Overtakes (a b : Counted) (n : Nat) (call : ResolvedCall) : Prop :=
  (∃ h ∈ call.types, a.tally.types n h.slot.index < b.tally.types n h.slot.index) ∨
    ∃ f, call.target = .function f ∧
      a.tally.functions n f.slot.index < b.tally.functions n f.slot.index

/-- Three states of a run, one after the other, in which no slot sees 2^32 rows end. -/
structure Between (a b c : Counted) : Prop where
  first : a.Later b
  second : b.Later c
  goodA : a.Good
  goodB : b.Good
  goodC : c.Good
  bounded : c.tally.Bounded

namespace Between

variable {n : Nat} {call : ResolvedCall}

theorem bounded_middle (between : Between a b c) : b.tally.Bounded :=
  between.second.bounded between.bounded

/-- A type that is there at last has not ended in between. -/
theorem type_lasts (between : Between a b c) {h : TypeHandle}
    (there : (a.catalog.registry n).isAlive h = true)
    (later : (c.catalog.registry n).isAlive h = true) :
    ¬ a.tally.types n h.slot.index < b.tally.types n h.slot.index := by
  intro less
  obtain ⟨old, there⟩ := Option.isSome_iff_exists.mp there
  obtain ⟨new, later⟩ := Option.isSome_iff_exists.mp later
  have gone := ((between.first.trans between.second).types n).get?_of_lt
    (between.goodA.typesCounted n) (between.goodC.typesCounted n) (between.bounded.types n _)
    (Option.filter_eq_some_iff.mp there).1
    (Nat.lt_of_lt_of_le less ((between.second.types n).le _))
  cases gone.symm.trans (Option.filter_eq_some_iff.mp later).1

theorem function_lasts (between : Between a b c) {f : FunctionHandle}
    (there : (a.catalog.registry n).isFunctionAlive f = true)
    (later : (c.catalog.registry n).isFunctionAlive f = true) :
    ¬ a.tally.functions n f.slot.index < b.tally.functions n f.slot.index := by
  intro less
  obtain ⟨old, there⟩ := Option.isSome_iff_exists.mp there
  obtain ⟨new, later⟩ := Option.isSome_iff_exists.mp later
  have gone := ((between.first.trans between.second).functions n).get?_of_lt
    (between.goodA.functionsCounted n) (between.goodC.functionsCounted n)
    (between.bounded.functions n _) there
    (Nat.lt_of_lt_of_le less ((between.second.functions n).le _))
  cases gone.symm.trans later

/-- A type that has not ended in between is there in between. -/
theorem type_alive (between : Between a b c) {h : TypeHandle}
    (there : (a.catalog.registry n).isAlive h = true)
    (lasting : ¬ a.tally.types n h.slot.index < b.tally.types n h.slot.index) :
    (b.catalog.registry n).isAlive h = true := by
  obtain ⟨old, there⟩ := Option.isSome_iff_exists.mp there
  obtain ⟨own, published⟩ := Option.filter_eq_some_iff.mp there
  have before := between.goodA.typesCounted n
  have after := between.goodB.typesCounted n
  cases found : (b.catalog.registry n).anyRow? h with
  | none => exact absurd ((between.first.types n).ended before after own found) lasting
  | some mid =>
    have grows := (between.first.types n).get?_of_get? before after
      (between.bounded_middle.types n _) own found
    exact Registry.isAlive_of_row?
      (Option.filter_eq_some_iff.mpr ⟨found, grows.published published⟩)

theorem function_alive (between : Between a b c) {f : FunctionHandle}
    (there : (a.catalog.registry n).isFunctionAlive f = true)
    (lasting : ¬ a.tally.functions n f.slot.index < b.tally.functions n f.slot.index) :
    (b.catalog.registry n).isFunctionAlive f = true := by
  obtain ⟨row, there⟩ := Option.isSome_iff_exists.mp there
  cases found : (b.catalog.registry n).functionRow? f with
  | none =>
    exact absurd ((between.first.functions n).ended (between.goodA.functionsCounted n)
      (between.goodB.functionsCounted n) there found) lasting
  | some mid => rw [Registry.isFunctionAlive, found]; rfl

/-- A call that is alive later has not been overtaken, and was alive all the time. -/
theorem call_alive (between : Between a b c) (built : (a.catalog.registry n).Built call)
    (alive : call.isAlive (c.catalog.registry n) = true) :
    ¬ a.Overtakes b n call ∧ call.isAlive (b.catalog.registry n) = true := by
  have types : ∀ h ∈ call.types,
      ¬ a.tally.types n h.slot.index < b.tally.types n h.slot.index := fun h listed =>
    between.type_lasts (built.alive h listed) (Registry.isAlive_of_call alive listed)
  have functions : ∀ f, call.target = .function f →
      (a.catalog.registry n).isFunctionAlive f = true ∧
        ¬ a.tally.functions n f.slot.index < b.tally.functions n f.slot.index := by
    intro f named
    have pins := built.pins
    have target := (Bool.and_eq_true_iff.mp alive).1
    rw [ResolvedCall.Pins, named] at pins
    rw [named] at target
    obtain ⟨row, there, -⟩ := Option.map_eq_some_iff.mp pins
    have before : (a.catalog.registry n).isFunctionAlive f = true := by
      rw [Registry.isFunctionAlive, there]
      rfl
    exact ⟨before, between.function_lasts before target⟩
  constructor
  · rintro (⟨h, listed, less⟩ | ⟨f, named, less⟩)
    · exact types h listed less
    · exact (functions f named).2 less
  · refine built.isAlive_later
      (between.first.grown between.goodA between.goodB between.bounded_middle n) ?_ ?_
    · exact fun h listed => between.type_alive (built.alive h listed) (types h listed)
    · exact fun f named => between.function_alive (functions f named).1 (functions f named).2

end Between

/-- Calls over a whole run in which no slot sees 2^32 rows end. A call that has been built is alive,
and the types that it depends on are those of the walk on which resolution has found its target.
Whenever it is alive later, its target has the parameters, the result and the callable that the call
keeps. Once its target or one of these types has been replaced or removed, or the call is dead for
any reason, it stays dead, and invoking it answers just that. -/
theorem resolved_call_stays_pinned (begun : Run u {} a) (middle : Run u a b) (rest : Run u b c)
    (bounded : c.tally.Bounded) (n : Nat) {call : ResolvedCall}
    (builds : (a.catalog.registry n).Builds call) :
    let before := a.catalog.registry n
    let between := b.catalog.registry n
    let after := c.catalog.registry n
    (∀ type name args, before.resolveMethod type name args = .ok call →
      ∃ m, call.target = .method m ∧ before.Walk type call.path m.owner) ∧
    call.isAlive before = true ∧
    (call.isAlive after = true → call.Pins after) ∧
    (a.Overtakes b n call ∨ call.isAlive between = false →
      call.isAlive after = false ∧ ∀ facts receiver args,
        call.invoke after facts receiver args = .failed .staleHandle receiver) := by
  intro before between after
  obtain ⟨goodA, _⟩ := begun.good empty_good
  obtain ⟨goodB, first⟩ := middle.good goodA
  obtain ⟨goodC, second⟩ := rest.good goodB
  have built : before.Built call := builds.built (goodA.consistent n)
  refine ⟨fun type name args resolved => ?_, built.isAlive, fun alive => ?_, fun finished => ?_⟩
  · obtain ⟨m, target, walk, -⟩ := Registry.resolveMethod_walk resolved
    exact ⟨m, target, walk⟩
  · exact ((first.trans second).grown goodA goodC bounded n).shape? built.pins
      (Bool.and_eq_true_iff.mp alive).1
  · have dead : call.isAlive after = false := by
      rw [Bool.eq_false_iff]
      intro alive
      have states : Between a b c := ⟨first, second, goodA, goodB, goodC, bounded⟩
      obtain ⟨lasting, still⟩ := states.call_alive built alive
      rcases finished with overtaken | dead
      · exact lasting overtaken
      · rw [still] at dead
        contradiction
    exact ⟨dead, fun facts receiver args => if_pos dead⟩

/-- A function is removed with its module, and the call that was made of it before is stale. -/
theorem call_of_removed_function :
    let u := Gallery.knownTypes
    let f : FunctionHandle := ⟨0, 0⟩
    ∃ a b call, Run u {} a ∧ Run u a b ∧ (a.catalog.registry 0).functionCall f = .ok call ∧
      a.Overtakes b 0 call ∧ ∀ facts receiver args,
        call.invoke (b.catalog.registry 0) facts receiver args = .failed .staleHandle receiver := by
  intro u f
  let constant : Callable := ⟨0, .none, [], fun _ _ => ⟨.void, .void⟩⟩
  let empty : Catalog := { registries := [{}] }
  let added := empty.change 0 (.addFunction ⟨1⟩ "f" [] .empty constant)
  let removed := added.change 0 (.unregister ⟨1⟩)
  let made : Counted := ⟨empty, Tally.after {} {} empty⟩
  let a : Counted := ⟨added, made.tally.after empty added⟩
  let b : Counted := ⟨removed, a.tally.after added removed⟩
  have first : Step u {} made := .step (.move (.create {}))
  have second : Step u made a := .step (.move (.addFunction 0 ⟨1⟩ "f" [] .empty constant))
  have third : Step u a b := .step (.overhaul (.unregister ⟨1⟩))
  have begun : Run u {} a := (Relation.ReflTransGen.single first).tail second
  have goodMade := (first.good empty_good).1
  have goodA := (second.good goodMade).1
  have none : ({} : Counted).AtMost 0 := fun _ _ => ⟨Nat.le_refl 0, Nat.le_refl 0⟩
  have few := third.atMost goodA (second.atMost goodMade (first.atMost empty_good none))
  have alive : (added.registry 0).isFunctionAlive f = true := by decide +kernel
  obtain ⟨row, there⟩ := Option.isSome_iff_exists.mp alive
  let call := Registry.functionCallOf f row []
  have built : (added.registry 0).functionCall f = .ok call := by
    rw [Registry.functionCall, there]
    rfl
  have ended : a.tally.functions 0 0 < b.tally.functions 0 0 := by decide +kernel
  have overtakes : a.Overtakes b 0 call := .inr ⟨f, rfl, ended⟩
  have pinned := resolved_call_stays_pinned begun (.single third) .refl (few.bounded (by decide)) 0
    (.functionCall built)
  exact ⟨a, b, call, begun, .single third, built, overtakes, (pinned.2.2.2 (.inl overtakes)).2⟩

end Counted

end TypeCatalog
