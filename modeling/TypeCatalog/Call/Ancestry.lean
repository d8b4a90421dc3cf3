import TypeCatalog.Registry.Basic

/-!
Walking from a type to its bases. Links may form cycles, share bases and lead to types that are
not registered; each base is visited once.
-/
namespace TypeCatalog

/-- What a search comes to. One that has used up its steps does not tell what more of them would
have brought. -/
inductive SearchEnd (α : Type) where
  | found (a : α)
  | nothing
  | unfinished
deriving DecidableEq

namespace SearchEnd

variable {α : Type}

/-- The end of a search that has looked at all there is. -/
def ofOption : Option α → SearchEnd α
  | some a => .found a
  | none => .nothing

def found? : SearchEnd α → Option α
  | .found a => some a
  | .nothing | .unfinished => none

theorem found?_eq_some_iff {ended : SearchEnd α} {a : α} :
    ended.found? = some a ↔ ended = .found a := by
  cases ended <;> simp [found?]

theorem ofOption_found? {ended : SearchEnd α} (finished : ended ≠ .unfinished) :
    ofOption ended.found? = ended := by
  cases ended with
  | unfinished => contradiction
  | _ => rfl

end SearchEnd

structure Route where
  handle : TypeHandle
  links : List BaseLink
  path : List TypeHandle

namespace Registry

/-- Adds the route over one more link, if it leads to a published type not seen before. -/
def followLink (r : Registry) (route : Route) (found : List TypeHash × List Route)
    (link : BaseLink) : List TypeHash × List Route :=
  let (seen, routes) := found
  if link.base ∈ seen then (seen, routes)
  else
    (link.base :: seen,
      match r.byHash? link.base with
      | some (handle, _) =>
        routes ++ [⟨handle, route.links ++ [link], route.path ++ [handle]⟩]
      | none => routes)

/-- Looks through routes in order, then through those one link farther, for a type that
satisfies `p`. Each step takes one route. -/
def nearestFrom (r : Registry) (p : Row → Bool) :
    (steps : Nat) → (routes : List Route) → (seen : List TypeHash) → SearchEnd (Route × Row)
  | _, [], _ => .nothing
  | 0, _ :: _, _ => .unfinished
  | steps + 1, route :: routes, seen =>
    match r.row? route.handle with
    | none => nearestFrom r p steps routes seen
    | some row =>
      if p row then .found (route, row)
      else
        let (seen, routes) := row.bases.foldl (r.followLink route) (seen, routes)
        nearestFrom r p steps routes seen

/-- The nearest type that satisfies `p` on the links from `start`, whose row is `row`. No more
routes than slots are ever taken up, since each leads to another published type. -/
def nearest? (r : Registry) (p : Row → Bool) (start : TypeHandle) (row : Row) :
    Option (Route × Row) :=
  (r.nearestFrom p (r.types.slots.length + 1) [⟨start, [], [start]⟩] [row.typeHash]).found?

def baseTypes (r : Registry) (row : Row) : List TypeHandle :=
  row.bases.filterMap fun link => r.typeByHash? link.base

/-- Searches for a hash among types, the last of them first, and their bases. Each step opens one
type, or leaves one out that has been opened. -/
def reaches (r : Registry) (target : TypeHash) :
    (steps : Nat) → (pending : List TypeHandle) → (seen : List TypeHash) → SearchEnd TypeHandle
  | _, [], _ => .nothing
  | 0, _ :: _, _ => .unfinished
  | steps + 1, h :: pending, seen =>
    let row := r.row? h
    let hash := (row.map Row.typeHash).getD .empty
    if hash = target then .found h
    else if hash.isEmpty ∨ hash ∈ seen then reaches r target steps pending seen
    else
      let bases := (row.map r.baseTypes).getD []
      reaches r target steps (bases.reverse ++ pending) (hash :: seen)

/-- How many base links the published types have. -/
def linkCount (r : Registry) : Nat :=
  r.publishedRows.foldr (fun (_, row) n => row.bases.length + n) 0

/-- Whether a type is of this hash or derives from a type of this hash. Every type is opened
once, so no more steps are needed than there are links, and one. -/
def derivesFrom (r : Registry) (h : TypeHandle) (target : TypeHash) : Bool :=
  (r.reaches target (r.linkCount + 1) [h] []).found?.isSome

end Registry

end TypeCatalog
