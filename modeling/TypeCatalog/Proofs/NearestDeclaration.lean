import Mathlib.Data.List.Perm.Subperm
import TypeCatalog.Proofs.Ancestry
import TypeCatalog.Proofs.Lookup

/-!
Where a method is looked for. Types are taken up in the order in which links lead to them, each once,
so the ways that have been taken up never are longer than those that wait, and a base of a type that
has been taken up has a way at most one link longer. The first type that declares the name therefore
is a nearest one; once nothing waits, all types that links lead to have been taken up.
-/
namespace TypeCatalog

namespace Row

/-- Whether a type itself declares a method of a name. -/
def Declares (row : Row) (name : String) : Prop := ∃ method ∈ row.methods, method.name.text = name

/-- The methods of a name that a type declares, in their order, each with its position. -/
def methodsOf (row : Row) (name : String) : List (Nat × Method) :=
  (Registry.methodPositions row name).filterMap fun p =>
    (row.methods[p]?).map fun method => (p, method)

theorem declares_iff {row : Row} {name : String} :
    row.Declares name ↔ Registry.methodPositions row name ≠ [] := by
  constructor
  · rintro ⟨method, listed, named⟩
    obtain ⟨p, within, rfl⟩ := List.mem_iff_getElem.mp listed
    have position : p ∈ Registry.methodPositions row name := by
      simp [Registry.methodPositions, within, named]
    exact List.ne_nil_of_mem position
  · intro some
    obtain ⟨p, listed⟩ := List.exists_mem_of_ne_nil _ some
    simp only [Registry.methodPositions, List.mem_filter, Option.any_eq_true,
      decide_eq_true_eq] at listed
    obtain ⟨-, method, present, named⟩ := listed
    exact ⟨method, List.mem_of_getElem? present, named⟩

end Row

namespace Registry

variable {r : Registry} {first : TypeHandle}

/-- The ways up from a type: the links, the types that they lead to, the first one included, and the
last of these. Each link is one of the type before, and leads to the published type of its hash. -/
inductive Climb (r : Registry) (first : TypeHandle) :
    List BaseLink → List TypeHandle → TypeHandle → Prop where
  | start {row : Row} (published : r.row? first = some row) : Climb r first [] [first] first
  | base {links : List BaseLink} {path : List TypeHandle} {h k : TypeHandle} {link : BaseLink}
      (before : Climb r first links path h) (leads : r.LinksTo h link k) :
      Climb r first (links ++ [link]) (path ++ [k]) k

theorem Climb.ends {links : List BaseLink} {path : List TypeHandle} {last : TypeHandle}
    (climb : r.Climb first links path last) :
    path.head? = some first ∧ path.getLast? = some last := by
  induction climb with
  | start published => simp
  | base before leads ih => simp [List.head?_append, ih.1]

/-- A way to a type that satisfies `q` over as few links as lead to any such type. -/
structure Nearest (r : Registry) (first : TypeHandle) (q : Row → Prop) (links : List BaseLink)
    (path : List TypeHandle) (last : TypeHandle) (row : Row) : Prop where
  climb : r.Climb first links path last
  there : r.row? last = some row
  satisfied : q row
  least : ∀ links' path' last' row', r.Climb first links' path' last' →
    r.row? last' = some row' → q row' → links.length ≤ links'.length

/-- A way over one more link. -/
def further (route : Route) (link : BaseLink) (h : TypeHandle) : Route :=
  ⟨h, route.links ++ [link], route.path ++ [h]⟩

theorem followLink_eq (route : Route) (seen : List TypeHash) (waiting : List Route)
    (link : BaseLink) :
    r.followLink route (seen, waiting) link =
      if link.base ∈ seen then (seen, waiting)
      else (link.base :: seen,
        waiting ++ ((r.typeByHash? link.base).map (further route link)).toList) := by
  unfold followLink typeByHash?
  dsimp only
  split
  · rfl
  · cases r.byHash? link.base <;> simp [further]

theorem foldl_followLink_grows (route : Route) (links : List BaseLink) (seen : List TypeHash)
    (waiting : List Route) :
    seen ⊆ (links.foldl (r.followLink route) (seen, waiting)).1 ∧
      waiting ⊆ (links.foldl (r.followLink route) (seen, waiting)).2 ∧
      ∀ link ∈ links, link.base ∈ (links.foldl (r.followLink route) (seen, waiting)).1 := by
  induction links generalizing seen waiting with
  | nil => simp
  | cons link rest ih =>
    rw [List.foldl_cons, followLink_eq]
    split
    · rename_i known
      obtain ⟨marks, waits, follows⟩ := ih seen waiting
      exact ⟨marks, waits, List.forall_mem_cons.mpr ⟨marks known, follows⟩⟩
    · obtain ⟨marks, waits, follows⟩ := ih (link.base :: seen)
        (waiting ++ ((r.typeByHash? link.base).map (further route link)).toList)
      refine ⟨?_, ?_, List.forall_mem_cons.mpr ⟨marks List.mem_cons_self, follows⟩⟩
      · exact List.Subset.trans (List.subset_cons_self _ _) marks
      · exact List.Subset.trans (List.subset_append_left _ _) waits

/-- What is known of the ways that have been found, in their order, and of the hashes that have been
seen: a way leads to each published type that has been seen, and these ways are those found. -/
structure Found (r : Registry) (first : TypeHandle) (depth : Nat) (routes : List Route)
    (seen : List TypeHash) : Prop where
  climbs : ∀ route ∈ routes, r.Climb first route.links route.path route.handle
  apart : (routes.map Route.handle).Nodup
  ordered : routes.Pairwise fun a b => a.links.length ≤ b.links.length
  near : ∀ route ∈ routes, route.links.length ≤ depth + 1
  marked : ∀ route ∈ routes, ∃ row, r.row? route.handle = some row ∧ row.typeHash ∈ seen
  covered : ∀ hash ∈ seen, ∀ k, r.typeByHash? hash = some k → ∃ route ∈ routes, route.handle = k

/-- The ways to different types are no more than there are slots. -/
theorem Found.length_le {depth : Nat} {routes : List Route} {seen : List TypeHash}
    (found : r.Found first depth routes seen) : routes.length ≤ r.types.slots.length := by
  have alive : ∀ h ∈ routes.map Route.handle, ∃ row, r.types.get? h.slot = some row := by
    intro h listed
    obtain ⟨route, member, rfl⟩ := List.mem_map.mp listed
    obtain ⟨row, there, -⟩ := found.marked route member
    exact ⟨row, (Option.filter_eq_some_iff.mp there).1⟩
  have distinct : ((routes.map Route.handle).map (·.slot.index)).Nodup := by
    rw [List.nodup_map_iff_inj_on found.apart]
    intro a first b second same
    obtain ⟨x, here⟩ := alive a first
    obtain ⟨y, there⟩ := alive b second
    exact congrArg TypeHandle.mk (SlotTable.ref_unique here there same)
  have within : (routes.map Route.handle).map (·.slot.index) ⊆ List.range r.types.slots.length := by
    intro index listed
    obtain ⟨h, member, rfl⟩ := List.mem_map.mp listed
    obtain ⟨row, there⟩ := alive h member
    exact List.mem_range.mpr (SlotTable.lt_length_of_rowAt? (SlotTable.get?_eq_some_iff.mp there).1)
  simpa using (List.subperm_of_subset distinct within).length_le

section

variable {depth : Nat} {routes : List Route} {seen : List TypeHash}

theorem Found.see (found : r.Found first depth routes seen) {hash : TypeHash}
    (absent : r.typeByHash? hash = none) : r.Found first depth routes (hash :: seen) where
  climbs := found.climbs
  apart := found.apart
  ordered := found.ordered
  near := found.near
  marked route listed := by
    obtain ⟨row, there, seen⟩ := found.marked route listed
    exact ⟨row, there, List.mem_cons_of_mem _ seen⟩
  covered other listed k leads := by
    rcases List.mem_cons.mp listed with rfl | earlier
    · rw [absent] at leads
      cases leads
    · exact found.covered other earlier k leads

theorem Found.add (consistent : r.Consistent) (found : r.Found first depth routes seen)
    {hash : TypeHash} (fresh : hash ∉ seen) {route : Route}
    (leads : r.typeByHash? hash = some route.handle)
    (climb : r.Climb first route.links route.path route.handle)
    (length : route.links.length = depth + 1) :
    r.Found first depth (routes ++ [route]) (hash :: seen) := by
  obtain ⟨row, there, rfl⟩ := consistent.typeByHash?_eq_some_iff.mp leads
  exact {
    climbs := List.forall_mem_append.mpr ⟨found.climbs, List.forall_mem_singleton.mpr climb⟩
    apart := by
      rw [List.map_append, List.map_singleton, List.nodup_append]
      refine ⟨found.apart, List.nodup_singleton _, ?_⟩
      rintro h old k new rfl
      obtain ⟨other, listed, same⟩ := List.mem_map.mp old
      obtain ⟨own, present, marked⟩ := found.marked other listed
      rw [same, List.mem_singleton.mp new, there] at present
      cases present
      exact fresh marked
    ordered := by
      rw [List.pairwise_append]
      refine ⟨found.ordered, List.pairwise_singleton _ _, fun other old last new => ?_⟩
      rw [List.mem_singleton.mp new, length]
      exact found.near other old
    near := List.forall_mem_append.mpr ⟨found.near, List.forall_mem_singleton.mpr length.le⟩
    marked := by
      refine List.forall_mem_append.mpr ⟨fun other old => ?_, List.forall_mem_singleton.mpr ?_⟩
      · obtain ⟨own, present, marked⟩ := found.marked other old
        exact ⟨own, present, List.mem_cons_of_mem _ marked⟩
      · exact ⟨row, there, List.mem_cons_self⟩
    covered := by
      intro other listed k leads'
      rcases List.mem_cons.mp listed with rfl | earlier
      · cases Option.some.inj (leads.symm.trans leads')
        exact ⟨route, List.mem_append_right _ List.mem_cons_self, rfl⟩
      · obtain ⟨old, member, same⟩ := found.covered other earlier k leads'
        exact ⟨old, List.mem_append_left _ member, same⟩ }

end

/-- What one link of a type that is being taken up adds. -/
theorem Found.follow (consistent : r.Consistent) {taken waiting : List Route} {seen : List TypeHash}
    {route : Route} (member : route ∈ taken) {own : Row} (there : r.row? route.handle = some own)
    (found : r.Found first route.links.length (taken ++ waiting) seen) {link : BaseLink}
    (listed : link ∈ own.bases) :
    r.Found first route.links.length (taken ++ (r.followLink route (seen, waiting) link).2)
      (r.followLink route (seen, waiting) link).1 := by
  rw [followLink_eq]
  split
  · exact found
  · rename_i fresh
    cases leads : r.typeByHash? link.base with
    | none => simpa using found.see leads
    | some k =>
      have climb := found.climbs route (List.mem_append_left _ member)
      have longer : r.Climb first (further route link k).links (further route link k).path k :=
        climb.base ⟨own, there, listed, leads⟩
      simpa using found.add consistent fresh leads longer (by simp [further])

theorem Found.followAll (consistent : r.Consistent) {taken waiting : List Route}
    {seen : List TypeHash} {route : Route} (member : route ∈ taken) {own : Row}
    (there : r.row? route.handle = some own) {links : List BaseLink} (listed : links ⊆ own.bases)
    (found : r.Found first route.links.length (taken ++ waiting) seen) :
    r.Found first route.links.length
      (taken ++ (links.foldl (r.followLink route) (seen, waiting)).2)
      (links.foldl (r.followLink route) (seen, waiting)).1 := by
  induction links generalizing seen waiting with
  | nil => exact found
  | cons link rest ih =>
    obtain ⟨now, later⟩ := List.cons_subset.mp listed
    exact ih later (found.follow consistent member there now)

/-- Where a search stands: no type that has been taken up satisfies `p`, and a way at most one link
longer leads to each of its bases. -/
structure Searched (r : Registry) (first : TypeHandle) (p : Row → Bool) (depth : Nat)
    (taken waiting : List Route) (seen : List TypeHash) : Prop where
  found : r.Found first depth (taken ++ waiting) seen
  deep : ∀ route ∈ waiting, depth ≤ route.links.length
  start : ∃ route ∈ taken ++ waiting, route.handle = first ∧ route.links = []
  refused : ∀ route ∈ taken, ∀ row, r.row? route.handle = some row → p row = false
  opened : ∀ route ∈ taken, ∀ link k, r.LinksTo route.handle link k →
    ∃ next ∈ taken ++ waiting, next.handle = k ∧ next.links.length ≤ route.links.length + 1

variable {p : Row → Bool} {depth : Nat} {taken waiting : List Route} {seen : List TypeHash}

theorem searched_start {own : Row} (there : r.row? first = some own) (consistent : r.Consistent) :
    r.Searched first p 0 [] [⟨first, [], [first]⟩] [own.typeHash] where
  found := {
    climbs := by simpa using Climb.start there
    apart := by simp
    ordered := by simp
    near := by simp
    marked := by simp [there]
    covered := by simp [consistent.typeByHash?_of_row? there] }
  deep := by simp
  start := by simp
  refused := by simp
  opened := by simp

/-- A way to a type goes by a type that waits, unless the type has been taken up on a way that is no
longer. -/
theorem Searched.reach (searched : r.Searched first p depth taken waiting seen)
    {links : List BaseLink} {path : List TypeHandle} {last : TypeHandle}
    (climb : r.Climb first links path last) :
    (∃ route ∈ taken, route.handle = last ∧ route.links.length ≤ links.length) ∨
      ∃ route ∈ waiting, route.links.length ≤ links.length := by
  induction climb with
  | start published =>
    obtain ⟨route, listed, same, none⟩ := searched.start
    rcases List.mem_append.mp listed with early | waits
    · exact .inl ⟨route, early, same, by simp [none]⟩
    · exact .inr ⟨route, waits, by simp [none]⟩
  | base before leads ih =>
    rw [List.length_append, List.length_singleton]
    rcases ih with ⟨route, early, rfl, short⟩ | ⟨route, waits, short⟩
    · obtain ⟨next, listed, same, close⟩ := searched.opened route early _ _ leads
      rcases List.mem_append.mp listed with early' | waits
      · exact .inl ⟨next, early', same, by omega⟩
      · exact .inr ⟨next, waits, by omega⟩
    · exact .inr ⟨route, waits, by omega⟩

/-- Once nothing waits, all types have been taken up. -/
theorem Searched.exhausted (searched : r.Searched first p depth taken [] seen)
    {links : List BaseLink} {path : List TypeHandle} {last : TypeHandle} {row : Row}
    (climb : r.Climb first links path last) (there : r.row? last = some row) : p row = false := by
  rcases searched.reach climb with ⟨route, early, rfl, -⟩ | ⟨route, waits, -⟩
  · exact searched.refused route early row there
  · cases waits

/-- The type that is taken up next is a nearest one if it satisfies `p`. -/
theorem Searched.nearest {route : Route} {own : Row}
    (searched : r.Searched first p depth taken (route :: waiting) seen)
    (there : r.row? route.handle = some own) (fits : p own = true) :
    r.Nearest first (p · = true) route.links route.path route.handle own where
  climb := searched.found.climbs route (by simp)
  there := there
  satisfied := fits
  least links path last row climb present fits' := by
    rcases searched.reach climb with ⟨other, early, rfl, -⟩ | ⟨other, waits, short⟩
    · rw [searched.refused other early row present] at fits'
      cases fits'
    · have behind := (List.pairwise_append.mp searched.found.ordered).2.1
      rcases List.mem_cons.mp waits with rfl | later
      · exact short
      · exact ((List.pairwise_cons.mp behind).1 other later).trans short

/-- Taking up a type that does not satisfy `p`. -/
theorem Searched.next (consistent : r.Consistent) {route : Route} {own : Row}
    (searched : r.Searched first p depth taken (route :: waiting) seen)
    (there : r.row? route.handle = some own) (unfit : p own = false) :
    r.Searched first p route.links.length (taken ++ [route])
      (own.bases.foldl (r.followLink route) (seen, waiting)).2
      (own.bases.foldl (r.followLink route) (seen, waiting)).1 := by
  obtain ⟨marks, waits, follows⟩ := foldl_followLink_grows (r := r) route own.bases seen waiting
  have member : route ∈ taken ++ [route] := List.mem_append_right _ List.mem_cons_self
  have deep := searched.deep route List.mem_cons_self
  have before : r.Found first route.links.length ((taken ++ [route]) ++ waiting) seen := by
    rw [List.append_assoc]
    exact { searched.found with near := fun other listed =>
      (searched.found.near other listed).trans (Nat.succ_le_succ deep) }
  have found := before.followAll consistent member there (List.Subset.refl own.bases)
  have kept : taken ++ route :: waiting ⊆ (taken ++ [route]) ++
      (own.bases.foldl (r.followLink route) (seen, waiting)).2 := by
    intro other listed
    simp only [List.mem_append, List.mem_cons] at listed ⊢
    rcases listed with early | rfl | waits'
    · simp [early]
    · simp
    · exact .inr (waits waits')
  exact {
    found := found
    deep := fun other waits => (List.pairwise_append.mp found.ordered).2.2 route member other waits
    start := by
      obtain ⟨initial, listed, same⟩ := searched.start
      exact ⟨initial, kept listed, same⟩
    refused := by
      intro other listed row present
      rcases List.mem_append.mp listed with early | now
      · exact searched.refused other early row present
      · rw [List.mem_singleton.mp now, there] at present
        cases present
        exact unfit
    opened := by
      intro other listed link k leads
      rcases List.mem_append.mp listed with early | now
      · obtain ⟨next, present, close⟩ := searched.opened other early link k leads
        exact ⟨next, kept present, close⟩
      · rw [List.mem_singleton.mp now] at leads ⊢
        obtain ⟨row, present, base, known⟩ := leads
        cases Option.some.inj (there.symm.trans present)
        obtain ⟨next, listed, same⟩ := found.covered _ (follows link base) k known
        exact ⟨next, listed, same, found.near next listed⟩ }

@[simp] theorem nearestFrom_nil (steps : Nat) (seen : List TypeHash) :
    r.nearestFrom p steps [] seen = .nothing := by
  cases steps <;> rfl

/-- More steps make no difference to a search that has come to its end. -/
theorem nearestFrom_add {steps : Nat} {waiting : List Route} {seen : List TypeHash}
    (finished : r.nearestFrom p steps waiting seen ≠ .unfinished) (more : Nat) :
    r.nearestFrom p (steps + more) waiting seen = r.nearestFrom p steps waiting seen := by
  induction steps generalizing waiting seen with
  | zero =>
    cases waiting with
    | nil => simp
    | cons route rest => exact absurd rfl finished
  | succ steps ih =>
    cases waiting with
    | nil => simp
    | cons route rest =>
      rw [Nat.succ_add]
      unfold nearestFrom at finished ⊢
      split at finished
      · exact ih finished
      · split at finished
        · rename_i fits
          rw [if_pos fits, if_pos fits]
        · rename_i unfit
          rw [if_neg unfit, if_neg unfit]
          exact ih finished

/-- A search with a step for each slot comes to its end: it finds a nearest type, or there is none. -/
theorem nearestFrom_spec (consistent : r.Consistent) {steps : Nat}
    (searched : r.Searched first p depth taken waiting seen)
    (enough : r.types.slots.length < steps + taken.length) :
    match r.nearestFrom p steps waiting seen with
    | .found (route, row) =>
      r.Nearest first (p · = true) route.links route.path route.handle row
    | .nothing => ∀ links path last row, r.Climb first links path last → r.row? last = some row →
        p row = false
    | .unfinished => False := by
  induction steps generalizing depth taken waiting seen with
  | zero =>
    have bounded := searched.found.length_le
    simp at bounded
    omega
  | succ steps ih =>
    cases waiting with
    | nil =>
      rw [nearestFrom_nil]
      exact fun links path last row climb present => searched.exhausted climb present
    | cons route rest =>
      obtain ⟨own, there, -⟩ := searched.found.marked route (by simp)
      by_cases fits : p own = true
      · have answer : r.nearestFrom p (steps + 1) (route :: rest) seen = .found (route, own) := by
          simp [nearestFrom, there, fits]
        rw [answer]
        exact searched.nearest there fits
      · have unfit : p own = false := by simpa using fits
        have answer : r.nearestFrom p (steps + 1) (route :: rest) seen =
            r.nearestFrom p steps (own.bases.foldl (r.followLink route) (seen, rest)).2
              (own.bases.foldl (r.followLink route) (seen, rest)).1 := by
          simp [nearestFrom, there, unfit]
        rw [answer]
        exact ih (searched.next consistent there unfit) (by simp; omega)

/-- No more types are taken up than there are slots. -/
theorem nearestFrom_start (consistent : r.Consistent) {own : Row}
    (there : r.row? first = some own) :
    match r.nearestFrom p (r.types.slots.length + 1) [⟨first, [], [first]⟩] [own.typeHash] with
    | .found (route, row) =>
      r.Nearest first (p · = true) route.links route.path route.handle row
    | .nothing => ∀ links path last row, r.Climb first links path last → r.row? last = some row →
        p row = false
    | .unfinished => False :=
  nearestFrom_spec consistent (searched_start there consistent) (by simp)

theorem nearest?_spec (consistent : r.Consistent) {own : Row} (there : r.row? first = some own) :
    match r.nearest? p first own with
    | some (route, row) =>
      r.Nearest first (p · = true) route.links route.path route.handle row
    | none => ∀ links path last row, r.Climb first links path last → r.row? last = some row →
        p row = false := by
  have search := nearestFrom_start (p := p) consistent there
  unfold nearest?
  split at search
  · rename_i found
    rw [found]
    exact search
  · rename_i nothing
    rw [nothing]
    exact search
  · contradiction

/-- With more steps than there are slots the search is over, and answers what is answered. -/
theorem nearestFrom_eq_ofOption (consistent : r.Consistent) {own : Row}
    (there : r.row? first = some own) {steps : Nat} (enough : r.types.slots.length < steps) :
    r.nearestFrom p steps [⟨first, [], [first]⟩] [own.typeHash] =
      .ofOption (r.nearest? p first own) := by
  have search := nearestFrom_start (p := p) consistent there
  have finished : r.nearestFrom p (r.types.slots.length + 1) [⟨first, [], [first]⟩]
      [own.typeHash] ≠ .unfinished := fun unfinished => by simp [unfinished] at search
  obtain ⟨more, rfl⟩ := Nat.exists_eq_add_of_le (Nat.succ_le_of_lt enough)
  rw [nearestFrom_add finished, nearest?, SearchEnd.ofOption_found? finished]

/-- The call of a method of the type that a way leads to, on the part of the receiver that the links
lead to if the method has a receiver. -/
def callOn (qualified : String) (links : List BaseLink) (path : List TypeHandle) (last : TypeHandle)
    (bindings : List ArgBinding) (position : Nat) (method : Method) : ResolvedCall :=
  { target := .method (last.member position)
    name := qualified
    params := method.params
    returnType := method.returnType
    bindings
    callable := method.callable
    upcasts := if method.flags.isStatic then [] else links
    path }

/-- What is looked for by an id are the types that declare the name. -/
theorem declares_of_overloads (held : r.RowsHeld) {name : String} {id : NameId}
    (known : r.names.find? name = some id) {h : TypeHandle} {row : Row}
    (there : r.row? h = some row) :
    (!(row.overloads id).isEmpty) = true ↔ row.Declares name := by
  rw [overloads_eq_methodPositions held there known, Row.declares_iff]
  simp

theorem Nearest.congr {q q' : Row → Prop} {links : List BaseLink} {path : List TypeHandle}
    {last : TypeHandle} {row : Row} (same : ∀ h row, r.row? h = some row → (q row ↔ q' row))
    (nearest : r.Nearest first q links path last row) : r.Nearest first q' links path last row where
  climb := nearest.climb
  there := nearest.there
  satisfied := (same last row nearest.there).mp nearest.satisfied
  least links' path' last' row' climb there fits :=
    nearest.least links' path' last' row' climb there ((same last' row' there).mpr fits)

variable {own : Row} {name : String}

/-- A method that no type declares on the way up is not found. -/
theorem resolveMethod_of_undeclared (held : r.RowsHeld) (consistent : r.Consistent)
    (alive : r.row? first = some own) (args : List TypeHash)
    (undeclared : ∀ links path last row, r.Climb first links path last → r.row? last = some row →
      ¬ row.Declares name) :
    r.resolveMethod first name args =
      .error (.notFound "method" (own.name.text ++ "::" ++ name)) := by
  cases known : r.names.find? name with
  | none => simp [resolveMethod, alive, known, orStale, notFound, bind, Except.bind]
  | some id =>
    have search := nearest?_spec (p := fun row => !(row.overloads id).isEmpty) consistent alive
    split at search
    · rename_i route row found
      have declares := (declares_of_overloads held known search.there).mp search.satisfied
      exact absurd declares (undeclared _ _ _ _ search.climb search.there)
    · rename_i found
      simp [resolveMethod, alive, known, found, orStale, notFound, bind, Except.bind]

/-- The methods of a nearest type that declares the name are those among which a call is chosen. -/
theorem resolveMethod_of_declared (held : r.RowsHeld) (consistent : r.Consistent)
    (alive : r.row? first = some own) (args : List TypeHash)
    (declared : ∃ links path last row, r.Climb first links path last ∧ r.row? last = some row ∧
      row.Declares name) :
    ∃ links path last row, r.Nearest first (Row.Declares · name) links path last row ∧
      match TypeCatalog.resolve ((row.methodsOf name).map (·.2.params)) args with
      | .error diagnostics =>
        r.resolveMethod first name args =
          .error (.noViableOverload (own.name.text ++ "::" ++ name) diagnostics)
      | .ok chosen => ∃ position method,
        (row.methodsOf name)[chosen.index]? = some (position, method) ∧
          r.resolveMethod first name args = .ok
            (callOn (own.name.text ++ "::" ++ name) links path last chosen.bindings position
              method) := by
  obtain ⟨links, path, last, row, climb, there, declares⟩ := declared
  cases known : r.names.find? name with
  | none => exact absurd (methodPositions_eq_nil held there known) (Row.declares_iff.mp declares)
  | some id =>
    have search := nearest?_spec (p := fun row => !(row.overloads id).isEmpty) consistent alive
    split at search
    · rename_i route row' found
      have same := overloads_eq_methodPositions held search.there known
      refine ⟨route.links, route.path, route.handle, row',
        search.congr fun _ _ => declares_of_overloads held known, ?_⟩
      have answer : r.resolveMethod first name args = do
          let chosen ← chooseOverload (own.name.text ++ "::" ++ name)
            ((row'.methodsOf name).map (·.2.params)) args
          let found ← orStale (row'.methodsOf name)[chosen.index]?
          return callOn (own.name.text ++ "::" ++ name) route.links route.path route.handle
            chosen.bindings found.1 found.2 := by
        simp [resolveMethod, alive, known, found, orStale, Row.methodsOf, callOn, same, bind,
          Except.bind]
      split
      · rename_i diagnostics refused
        rw [answer, chooseOverload, refused]
        rfl
      · rename_i chosen resolved
        obtain ⟨params, candidate, -⟩ := resolve_viable resolved
        rw [List.getElem?_map] at candidate
        obtain ⟨⟨position, method⟩, listed, -⟩ := Option.map_eq_some_iff.mp candidate
        refine ⟨position, method, listed, ?_⟩
        rw [answer, chooseOverload, resolved]
        simp [listed, orStale, bind, Except.bind, pure, Except.pure]
    · exact absurd ((declares_of_overloads held known there).mpr declares)
        (by simpa using search links path last row climb there)

end Registry

namespace Catalog

variable {u : Universe} {c : Catalog}

/-- In every state a method is looked for, from a type on, among all types that links lead to. The
search comes to its end: with more steps than there are slots it is over, and the call goes by that
answer. If none of the types declares the name it is not found; otherwise the overloads are those of
a type which links lead to over as few links as to any that declares the name. If none of these is
viable that is the answer, and else the call is of the chosen one, over the links that lead to its
type. -/
theorem nearest_declaration_called (attained : Attained u c) (n : Nat) {type : TypeHandle}
    {own : Row} (alive : (c.registry n).row? type = some own) (name : String)
    (args : List TypeHash) :
    let r := c.registry n
    let qualified := own.name.text ++ "::" ++ name
    (∀ id, r.names.find? name = some id →
      let declares (row : Row) : Bool := !(row.overloads id).isEmpty
      ∀ steps, r.types.slots.length < steps →
        r.nearestFrom declares steps [⟨type, [], [type]⟩] [own.typeHash] =
          .ofOption (r.nearest? declares type own)) ∧
    (r.resolveMethod type name args = .error (.notFound "method" qualified) ↔
      ∀ links path last row, r.Climb type links path last → r.row? last = some row →
        ¬ row.Declares name) ∧
    ((∃ links path last row, r.Climb type links path last ∧ r.row? last = some row ∧
        row.Declares name) →
      ∃ links path last row, r.Nearest type (Row.Declares · name) links path last row ∧
        path.head? = some type ∧ path.getLast? = some last ∧
        match resolve ((row.methodsOf name).map (·.2.params)) args with
        | .error diagnostics =>
          r.resolveMethod type name args = .error (.noViableOverload qualified diagnostics)
        | .ok chosen => ∃ position method,
          (row.methodsOf name)[chosen.index]? = some (position, method) ∧
            r.resolveMethod type name args =
              .ok (Registry.callOn qualified links path last chosen.bindings position method)) := by
  intro r qualified
  obtain ⟨ended, kept⟩ := attained.kept
  have held := kept.rows n
  have consistent := kept.consistent n
  refine ⟨fun _ _ _ => Registry.nearestFrom_eq_ofOption consistent alive,
    ⟨fun missing links path last row climb there declares => ?_, ?_⟩, fun declared => ?_⟩
  · obtain ⟨_, _, _, _, -, answer⟩ := Registry.resolveMethod_of_declared held consistent alive args
      ⟨links, path, last, row, climb, there, declares⟩
    split at answer
    · cases missing.symm.trans answer
    · obtain ⟨_, _, -, answer⟩ := answer
      cases missing.symm.trans answer
  · exact Registry.resolveMethod_of_undeclared held consistent alive args
  · obtain ⟨links, path, last, row, nearest, answer⟩ :=
      Registry.resolveMethod_of_declared held consistent alive args declared
    exact ⟨links, path, last, row, nearest, nearest.climb.ends.1, nearest.climb.ends.2, answer⟩

end Catalog

namespace Embedded

theorem attained_described : Catalog.Attained program.facts described := by
  open Catalog in
  let p := { basePass with names := [methodName] }
  have first : QuietStep program.facts {} created := .move (.create {})
  have second : QuietStep program.facts created baseBegun :=
    .move (.register .host (by decide) rfl)
  have third : QuietStep program.facts baseBegun methodNamed :=
    .move (.enter (p := basePass) rfl "m")
  have fourth : QuietStep program.facts methodNamed methodMade :=
    .move (.make (p := p) rfl (e := .callable callable) rfl)
  have fifth : QuietStep program.facts methodMade baseDescribed :=
    .move (.commit (p := { p with made := [.callable callable] }) rfl baseDraft_madeOf)
  have sixth : QuietStep program.facts baseDescribed derivedBegun :=
    .move (.register .host (by decide) derived_absent)
  have seventh : QuietStep program.facts derivedBegun described :=
    .move (.commit (p := derivedPass) rfl derivedDraft_madeOf)
  exact .quiet (((((((Relation.ReflTransGen.single first).tail second).tail third).tail fourth).tail
    fifth).tail sixth).tail seventh)

/-- The method that only the embedded type declares is called on it. -/
theorem embedded_declaration_called :
    let r := described.registry 0
    let args := [program.facts.hash (.primitive (.integer ⟨true, .w32⟩))]
    Catalog.Attained program.facts described ∧
      ∃ own, r.row? derivedPass.pass.handle = some own ∧ own.methods = [] ∧
        ∃ links path last row bindings position method,
          r.Nearest derivedPass.pass.handle (Row.Declares · "m") links path last row ∧
            last ≠ derivedPass.pass.handle ∧
            r.resolveMethod derivedPass.pass.handle "m" args =
              .ok (Registry.callOn "zoo::B::m" links path last bindings position method) := by
  intro r args
  have shown : (r.row? derivedPass.pass.handle).any
      (fun row => row.methods.isEmpty && row.name.text = "zoo::B") = true := by decide +kernel
  have resolves : (r.resolveMethod derivedPass.pass.handle "m" args).toOption.isSome = true := by
    decide +kernel
  obtain ⟨own, alive, facts⟩ := (Option.any_eq_true _ _).mp shown
  obtain ⟨none, named⟩ : own.methods = [] ∧ own.name.text = "zoo::B" := by simpa using facts
  have called := Catalog.nearest_declaration_called attained_described 0 alive "m" args
  refine ⟨attained_described, own, alive, none, ?_⟩
  have declared : ∃ links path last row, r.Climb derivedPass.pass.handle links path last ∧
      r.row? last = some row ∧ row.Declares "m" := by
    by_contra undeclared
    have missing := called.2.1.mpr fun links path last row climb there declares =>
      undeclared ⟨links, path, last, row, climb, there, declares⟩
    rw [missing] at resolves
    cases resolves
  obtain ⟨links, path, last, row, nearest, -, -, answer⟩ := called.2.2 declared
  have other : last ≠ derivedPass.pass.handle := by
    rintro rfl
    obtain ⟨method, listed, -⟩ := nearest.satisfied
    cases Option.some.inj (alive.symm.trans nearest.there)
    simp [none] at listed
  split at answer
  · rw [answer] at resolves
    cases resolves
  · obtain ⟨position, method, -, answer⟩ := answer
    rw [named] at answer
    exact ⟨links, path, last, row, _, position, method, nearest, other, answer⟩

end Embedded

end TypeCatalog
