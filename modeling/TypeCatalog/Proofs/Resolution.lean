import TypeCatalog.Call.Lookup
import TypeCatalog.Proofs.Conversions
import TypeCatalog.Proofs.Tables

/-!
How a call comes to be resolved: what each way of resolving has looked at when it answers, and the
walk to the type that declares a method, from base to base.
-/
namespace TypeCatalog

theorem Except.eq_ok_of_bind {ε α β : Type} {x : Except ε α} {f : α → Except ε β} {b : β}
    (done : x >>= f = .ok b) : ∃ a, x = .ok a ∧ f a = .ok b := by
  cases x with
  | error e => cases done
  | ok a => exact ⟨a, rfl, done⟩

namespace Registry

variable {r : Registry}

theorem eq_some_of_orStale {α : Type} {found : Option α} {a : α}
    (done : orStale found = .ok a) : found = some a := by
  cases found with
  | none => cases done
  | some b =>
    cases done
    rfl

theorem chooseOverload_viable {name : String} {candidates : List (List TypeHash)}
    {args : List TypeHash} {resolution : Resolution}
    (chosen : chooseOverload name candidates args = .ok resolution) :
    ∃ params, candidates[resolution.index]? = some params ∧
      List.Forall₂ (fun a p => (rank a p).isViable = true) args params := by
  unfold chooseOverload at chosen
  split at chosen
  · rename_i resolved
    cases chosen
    exact resolve_viable resolved
  · cases chosen

/-- The types that a walk takes up, from a type to one that links lead to, each published. -/
inductive Walk (r : Registry) (first : TypeHandle) : List TypeHandle → TypeHandle → Prop where
  | start {row : Row} (published : r.row? first = some row) : Walk r first [first] first
  | base {path : List TypeHandle} {h k : TypeHandle} {row : Row} {link : BaseLink}
      (before : Walk r first path h) (published : r.row? h = some row) (listed : link ∈ row.bases)
      (leads : r.typeByHash? link.base = some k) : Walk r first (path ++ [k]) k

/-- What holds of a route to begin with and is kept from base to base holds of the route found. -/
theorem nearestFrom_induction {Q : Route → Prop} {p : Row → Bool}
    (further : ∀ route row link handle base, Q route → r.row? route.handle = some row →
      link ∈ row.bases → r.byHash? link.base = some (handle, base) →
      Q ⟨handle, route.links ++ [link], route.path ++ [handle]⟩)
    {steps : Nat} {routes : List Route} {seen : List TypeHash} (all : ∀ route ∈ routes, Q route)
    {route : Route} {row : Row} (found : r.nearestFrom p steps routes seen = .found (route, row)) :
    Q route ∧ r.row? route.handle = some row := by
  induction steps generalizing routes seen with
  | zero => cases routes <;> cases found
  | succ steps ih =>
    cases routes with
    | nil => cases found
    | cons next rest =>
      have others : ∀ route ∈ rest, Q route :=
        fun route listed => all route (List.mem_cons_of_mem next listed)
      unfold nearestFrom at found
      split at found
      · exact ih others found
      · rename_i own there
        split at found
        · cases found
          exact ⟨all _ List.mem_cons_self, there⟩
        · refine ih ?_ found
          have start : ∀ route ∈ (seen, rest).2, Q route := others
          refine List.foldlRecOn own.bases (r.followLink next)
            (motive := fun state => ∀ route ∈ state.2, Q route) start ?_
          intro state before link listed
          unfold followLink
          dsimp only
          split
          · exact before
          · split
            · rename_i handle base leads
              intro other member
              rcases List.mem_append.mp member with old | new
              · exact before other old
              · rw [List.mem_singleton.mp new]
                exact further next own link handle base (all _ List.mem_cons_self) there listed leads
            · exact before

theorem walk_nearest? {p : Row → Bool} {first : TypeHandle} {own : Row}
    (there : r.row? first = some own) {route : Route} {row : Row}
    (found : r.nearest? p first own = some (route, row)) :
    r.Walk first route.path route.handle ∧ r.row? route.handle = some row := by
  refine nearestFrom_induction (Q := fun route => r.Walk first route.path route.handle) ?_ ?_
    (SearchEnd.found?_eq_some_iff.mp found)
  · intro route row link handle base walk published listed leads
    exact walk.base published listed (congrArg (Option.map Prod.fst) leads)
  · intro only listed
    rw [List.mem_singleton.mp listed]
    exact .start there

theorem isAlive_of_row? {h : TypeHandle} {row : Row} (found : r.row? h = some row) :
    r.isAlive h = true := by
  rw [isAlive, found]
  rfl

theorem Walk.last_mem {first last : TypeHandle} {path : List TypeHandle}
    (walk : r.Walk first path last) : last ∈ path := by
  cases walk with
  | start published => exact List.mem_singleton.mpr rfl
  | base before published listed leads => exact List.mem_append_right _ (List.mem_singleton.mpr rfl)

/-- Every type on a walk is published. -/
theorem Walk.alive (consistent : r.Consistent) {first last : TypeHandle} {path : List TypeHandle}
    (walk : r.Walk first path last) : ∀ h ∈ path, r.isAlive h = true := by
  induction walk with
  | start published =>
    intro h member
    rw [List.mem_singleton.mp member]
    exact isAlive_of_row? published
  | base before published listed leads ih =>
    intro h member
    rcases List.mem_append.mp member with old | new
    · exact ih h old
    · rw [List.mem_singleton.mp new]
      obtain ⟨⟨_, row⟩, found, rfl⟩ := Option.map_eq_some_iff.mp leads
      obtain ⟨any, shown⟩ := Option.filter_eq_some_iff.mp found
      exact isAlive_of_row? (Option.filter_eq_some_iff.mpr ⟨(consistent.of_anyByHash? any).1, shown⟩)

variable {args : List TypeHash} {call : ResolvedCall}

theorem resolveMethod_eq_ok {type : TypeHandle} {name : String}
    (resolved : r.resolveMethod type name args = .ok call) :
    ∃ start p route row position method bindings, r.row? type = some start ∧
      r.nearest? p type start = some (route, row) ∧ row.methods[position]? = some method ∧
      List.Forall₂ (fun a p => (rank a p).isViable = true) args method.params ∧
      call =
        { target := .method (route.handle.member position)
          name := start.name.text ++ "::" ++ name
          params := method.params
          returnType := method.returnType
          bindings
          callable := method.callable
          upcasts := if method.flags.isStatic then [] else route.links
          path := route.path } := by
  obtain ⟨start, found, resolved⟩ := Except.eq_ok_of_bind resolved
  have there := eq_some_of_orStale found
  dsimp only at resolved
  split at resolved
  · cases resolved
  · split at resolved
    · cases resolved
    · rename_i route row nearest
      obtain ⟨resolution, chosen, resolved⟩ := Except.eq_ok_of_bind resolved
      obtain ⟨⟨position, method⟩, found, resolved⟩ := Except.eq_ok_of_bind resolved
      have listed := eq_some_of_orStale found
      cases resolved
      obtain ⟨params, candidate, viable⟩ := chooseOverload_viable chosen
      rw [List.getElem?_map, listed] at candidate
      cases candidate
      obtain ⟨_, _, same⟩ := List.mem_filterMap.mp (List.mem_of_getElem? listed)
      obtain ⟨_, present, same⟩ := Option.map_eq_some_iff.mp same
      cases same
      exact ⟨start, _, route, row, position, method, _, there, nearest, present, viable, rfl⟩

theorem constructorAt_eq_ok {type : TypeHandle} {position : Nat} {bindings : List ArgBinding}
    (made : r.constructorAt type position bindings = .ok call) :
    ∃ row constructor, r.row? type = some row ∧ row.constructors[position]? = some constructor ∧
      call =
        { target := .constructor (type.member position)
          name := row.name.text
          params := constructor.params
          returnType := row.typeHash
          bindings
          callable := constructor.callable
          upcasts := []
          path := [] } := by
  obtain ⟨row, found, made⟩ := Except.eq_ok_of_bind made
  obtain ⟨constructor, found', made⟩ := Except.eq_ok_of_bind made
  cases made
  exact ⟨row, constructor, eq_some_of_orStale found, eq_some_of_orStale found', rfl⟩

theorem resolveConstructor_eq_ok {type : TypeHandle}
    (resolved : r.resolveConstructor type args = .ok call) :
    ∃ row position bindings, r.row? type = some row ∧
      r.constructorAt type position bindings = .ok call ∧
      ∀ c, row.constructors[position]? = some c →
        List.Forall₂ (fun a p => (rank a p).isViable = true) args c.params := by
  obtain ⟨row, found, resolved⟩ := Except.eq_ok_of_bind resolved
  have there := eq_some_of_orStale found
  split at resolved
  · cases resolved
  · split at resolved
    · rename_i position default _
      refine ⟨row, position, [], there, resolved, fun c present => ?_⟩
      obtain ⟨within, empty, -⟩ := List.findIdx?_eq_some_iff_getElem.mp default
      obtain ⟨_, same⟩ := List.getElem?_eq_some_iff.mp present
      rw [same, List.isEmpty_iff] at empty
      rw [empty]
      exact .nil
    · obtain ⟨resolution, chosen, resolved⟩ := Except.eq_ok_of_bind resolved
      obtain ⟨params, candidate, viable⟩ := chooseOverload_viable chosen
      refine ⟨row, _, _, there, resolved, fun c present => ?_⟩
      rw [List.getElem?_map, present] at candidate
      cases candidate
      exact viable

theorem resolveFunction_eq_ok {name : String} (resolved : r.resolveFunction name args = .ok call) :
    ∃ h row bindings, r.functionRow? h = some row ∧
      List.Forall₂ (fun a p => (rank a p).isViable = true) args row.params ∧
      call = functionCallOf h row bindings := by
  unfold resolveFunction at resolved
  dsimp only at resolved
  split at resolved
  · cases resolved
  · obtain ⟨resolution, chosen, resolved⟩ := Except.eq_ok_of_bind resolved
    obtain ⟨⟨h, row⟩, there, resolved⟩ := Except.eq_ok_of_bind resolved
    cases resolved
    obtain ⟨params, candidate, viable⟩ := chooseOverload_viable chosen
    have listed := eq_some_of_orStale there
    rw [List.getElem?_map, listed] at candidate
    cases candidate
    obtain ⟨own, _, found⟩ := List.mem_filterMap.mp (List.mem_of_getElem? listed)
    obtain ⟨row', here, same⟩ := Option.map_eq_some_iff.mp found
    cases same
    exact ⟨h, row, _, here, viable, rfl⟩

end Registry

end TypeCatalog
