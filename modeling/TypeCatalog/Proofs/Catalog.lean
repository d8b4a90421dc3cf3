import Mathlib.Logic.Relation
import TypeCatalog.Gallery.Shape
import TypeCatalog.Proofs.Operation
import TypeCatalog.Script.Pass

/-!
All registries together, as a system that takes one step after another. Descriptions are nested:
while one runs, anything may happen to any registry, other descriptions included, and what a
description has collected only reaches its row when it ends. In every state that can be reached so,
within a description or outside, each registry's look-up tables agree with its rows.
-/
namespace TypeCatalog

/-- A description that is being run, with the names it has entered and the callables and accessors
it has made. -/
structure OpenPass where
  pass : Script.Pass
  /-- Whether the row was added for this description. -/
  isFirst : Bool
  names : List Name := []
  made : List Exported := []

/-- The registries, the slots that they share, and the open descriptions, the innermost first. -/
structure Catalog where
  registries : List Registry := []
  exports : ExportTable := .empty
  nextNumber : Nat := 0
  passes : List OpenPass := []

namespace Catalog

def registry (c : Catalog) (n : Nat) : Registry := c.registries[n]?.getD {}

def change (c : Catalog) (n : Nat) (op : Operation) : Catalog :=
  { c with registries := c.registries.set n (op.run (c.registry n)) }

end Catalog

/-- Whether a draft holds only what a pass has entered and made, each callable with as many
parameters as its member. -/
structure Draft.MadeOf (draft : Draft) (p : OpenPass) : Prop where
  names : ∀ name ∈ draft.names, name ∈ p.names
  fields : ∀ f ∈ draft.fields, .accessor f.accessor ∈ p.made
  methods : ∀ m ∈ draft.methods,
    .callable m.callable ∈ p.made ∧ m.callable.arity = m.params.length
  constructors : ∀ c ∈ draft.constructors,
    .callable c.callable ∈ p.made ∧ c.callable.arity = c.params.length

theorem Draft.empty_madeOf (p : OpenPass) : Draft.MadeOf {} p :=
  ⟨by simp [Draft.names], by simp, by simp, by simp⟩

namespace Catalog

/-- The description of a type that the registry of number `n` does not have. -/
def firstPass (c : Catalog) (u : Universe) (n : Nat) (type : TypeKey) (owner : ModuleId) :
    OpenPass :=
  { pass := ⟨n, type, ((c.registry n).insertSkeleton u type owner).1, owner⟩, isFirst := true }

/-- A further description of the row behind a handle, on behalf of the row's owner. -/
def laterPass (c : Catalog) (n : Nat) (type : TypeKey) (h : TypeHandle) : OpenPass :=
  let owner := (((c.registry n).row? h).map Row.owner).getD .host
  { pass := ⟨n, type, h, owner⟩, isFirst := false }

/-- One step that ends no rows but pending ones. Only the innermost description goes on or ends. -/
inductive Move (u : Universe) (c : Catalog) : Catalog → Prop where
  | create (config : RegistryConfig) :
      Move u c { c with registries := c.registries ++ [{ config }] }
  | intern (n : Nat) (text : String) (user : ModuleId) : Move u c (c.change n (.intern text user))
  | declare (n : Nat) (m : ModuleId) (name : String) : Move u c (c.change n (.declare m name))
  | markInitialized (n : Nat) (m : ModuleId) : Move u c (c.change n (.markInitialized m))
  | addFunction (n : Nat) (owner : ModuleId) (name : String) (params : List TypeHash)
      (returnType : TypeHash) (callable : Callable) :
      Move u c (c.change n (.addFunction owner name params returnType callable))
  | number : Move u c { c with nextNumber := c.nextNumber + 1 }
  | write (n : Nat) : Move u c { c with exports := (Image.ofRegistry (c.registry n) c.exports).2 }
  /-- Begins to describe a type that is not there. -/
  | register {n : Nat} {type : TypeKey} (owner : ModuleId) (within : n < c.registries.length)
      (absent : (c.registry n).anyByHash? (u.hash type) = none) :
      Move u c { c.change n (.skeleton u type owner) with
        passes := c.firstPass u n type owner :: c.passes }
  | extend {n : Nat} (type : TypeKey) (h : TypeHandle) (within : n < c.registries.length) :
      Move u c { c with passes := c.laterPass n type h :: c.passes }
  | enter {p : OpenPass} {rest : List OpenPass} (top : c.passes = p :: rest) (text : String) :
      Move u c { c.change p.pass.registry (.intern text p.pass.owner) with
        passes := { p with names := p.names ++
          [((c.registry p.pass.registry).intern text p.pass.owner).1] } :: rest }
  | make {p : OpenPass} {rest : List OpenPass} (top : c.passes = p :: rest) {e : Exported}
      (next : e.number = c.nextNumber) :
      Move u c { c with
        nextNumber := c.nextNumber + 1
        passes := { p with made := p.made ++ [e] } :: rest }
  | commit {p : OpenPass} {rest : List OpenPass} (top : c.passes = p :: rest) {draft : Draft}
      (collected : draft.MadeOf p) :
      Move u c { c.change p.pass.registry (.commit p.pass.handle draft) with passes := rest }
  /-- Ends a first description that was not run to its end. -/
  | abandon {p : OpenPass} {rest : List OpenPass} (top : c.passes = p :: rest)
      (first : p.isFirst = true) :
      Move u c { c.change p.pass.registry (.discard p.pass.handle) with passes := rest }
  /-- Ends a further description that was not run to its end. -/
  | drop {p : OpenPass} {rest : List OpenPass} (top : c.passes = p :: rest)
      (later : p.isFirst = false) :
      Move u c { c with passes := rest }

/-- One step that may end published rows of the registry of number `n`. -/
inductive Overhaul (c : Catalog) (n : Nat) : Catalog → Prop where
  | merge (bytes : List UInt8) (options : MergeOptions) :
      Overhaul c n (c.change n (.merge c.exports bytes options))
  | unregister (m : ModuleId) : Overhaul c n (c.change n (.unregister m))

inductive Step (u : Universe) (c : Catalog) : Catalog → Prop where
  | move {d : Catalog} (move : Move u c d) : Step u c d
  | overhaul {d : Catalog} {n : Nat} (overhaul : Overhaul c n d) : Step u c d

/-- The states that can be reached, those within descriptions included. -/
def Reachable (u : Universe) (c : Catalog) : Prop := Relation.ReflTransGen (Step u) {} c

variable {u : Universe} {c d : Catalog}

theorem registry_change (c : Catalog) (n : Nat) (op : Operation) (k : Nat) :
    (c.change n op).registry k =
      if k = n ∧ n < c.registries.length then op.run (c.registry n) else c.registry k := by
  unfold change registry
  rw [List.getElem?_set]
  by_cases same : n = k
  · subst same
    by_cases within : n < c.registries.length <;> simp [within]
  · simp [same, Ne.symm same]

theorem registry_create (c : Catalog) (config : RegistryConfig) (k : Nat) :
    ({ c with registries := c.registries ++ [{ config }] } : Catalog).registry k =
      if k = c.registries.length then { config } else c.registry k := by
  unfold registry
  rw [List.getElem?_append]
  by_cases less : k < c.registries.length
  · simp [less, Nat.ne_of_lt less]
  · by_cases last : k = c.registries.length
    · simp [last]
    · have after : k - c.registries.length ≠ 0 := by omega
      simp [less, last, after]

theorem registry_of_le {k : Nat} (outside : c.registries.length ≤ k) : c.registry k = {} := by
  unfold registry
  rw [List.getElem?_eq_none outside]
  rfl

/-- Once it has been added, the row of a new description is behind the description's handle. -/
theorem anyRow?_firstPass {n : Nat} {type : TypeKey} {owner : ModuleId}
    (within : n < c.registries.length) (free : (c.registry n).types.FreeExact)
    (after : d.registries = (c.change n (.skeleton u type owner)).registries) :
    (d.registry n).anyRow? (c.firstPass u n type owner).pass.handle =
      some ((c.registry n).skeletonRow u type owner) := by
  have here : d.registry n = Operation.run (c.registry n) (.skeleton u type owner) := by
    have same : d.registry n = (c.change n (.skeleton u type owner)).registry n := by
      unfold registry
      rw [after]
    rw [same, registry_change, if_pos ⟨rfl, within⟩]
  show (d.registry n).anyRow? ((c.registry n).insertSkeleton u type owner).1 = _
  rw [here, Operation.run, Registry.insertSkeleton_eq]
  refine (Registry.anyRow?_insertRow ?_ _ _).trans (if_pos rfl)
  exact free

/-- What is known of a change that a step from `c` to `d` makes to the registry of number `k`. -/
def Permits (c d : Catalog) (k : Nat) : Operation → Prop
  | .skeleton u type _ => (c.registry k).anyByHash? (u.hash type) = none
  | .commit h draft => ∃ p : OpenPass, c.passes = p :: d.passes ∧ p.pass.registry = k ∧
      p.pass.handle = h ∧ draft.MadeOf p
  | .discard h => ∃ p : OpenPass, c.passes = p :: d.passes ∧ p.isFirst = true ∧
      p.pass.registry = k ∧ p.pass.handle = h
  | .merge exports _ _ => exports = c.exports
  | _ => True

theorem Permits.fresh {k : Nat} {op : Operation} (permitted : c.Permits d k op) :
    op.Fresh (c.registry k) := by
  cases op with
  | skeleton u type owner => exact permitted
  | _ => trivial

/-- What a step can do to the registry of a number: nothing, or one change of a kind. -/
def ChangedBy (kind : Operation → Prop) (c d : Catalog) (k : Nat) : Prop :=
  d.registry k = c.registry k ∨
    ∃ op : Operation, kind op ∧ c.Permits d k op ∧ d.registry k = op.run (c.registry k)

/-- A change to one registry, where what a change may be depends on the registry. -/
theorem changedBy_change_at (kind : Nat → Operation → Prop) (n : Nat) (op : Operation)
    (fits : kind n op) (permitted : c.Permits d n op)
    (same : d.registries = (c.change n op).registries) (k : Nat) : c.ChangedBy (kind k) d k := by
  have after : d.registry k = (c.change n op).registry k := by
    unfold registry
    rw [same]
  rw [registry_change] at after
  split at after
  · rename_i here
    exact .inr ⟨op, here.1 ▸ fits, here.1 ▸ permitted, here.1 ▸ after⟩
  · exact .inl after

theorem changedBy_change {kind : Operation → Prop} (n : Nat) (op : Operation) (fits : kind op)
    (permitted : c.Permits d n op) (same : d.registries = (c.change n op).registries) (k : Nat) :
    c.ChangedBy kind d k :=
  changedBy_change_at (fun _ => kind) n op fits permitted same k

theorem changedBy_create {kind : Operation → Prop} (config : RegistryConfig)
    (fits : kind (.configure config)) (k : Nat) :
    c.ChangedBy kind { c with registries := c.registries ++ [{ config }] } k := by
  unfold ChangedBy
  rw [registry_create]
  split
  · rename_i here
    refine .inr ⟨.configure config, fits, trivial, ?_⟩
    rw [registry_of_le (Nat.le_of_eq here.symm)]
    rfl
  · exact .inl rfl

theorem Move.changed (move : Move u c d) (k : Nat) :
    c.ChangedBy (fun op => ¬ op.IsOverhaul) d k := by
  cases move with
  | create config => exact changedBy_create config id k
  | intern n text user => exact changedBy_change n (.intern text user) id trivial rfl k
  | declare n m name => exact changedBy_change n (.declare m name) id trivial rfl k
  | markInitialized n m => exact changedBy_change n (.markInitialized m) id trivial rfl k
  | addFunction n owner name params returnType callable =>
    exact changedBy_change n (.addFunction owner name params returnType callable) id trivial rfl k
  | number => exact .inl rfl
  | write n => exact .inl rfl
  | @register n type owner within absent =>
    refine changedBy_change n (.skeleton u type owner) ?_ ?_ ?_ k
    · exact id
    · exact absent
    · rfl
  | extend type h within => exact .inl rfl
  | @enter p rest top text =>
    refine changedBy_change p.pass.registry (.intern text p.pass.owner) ?_ ?_ ?_ k
    · exact id
    · trivial
    · rfl
  | make top next => exact .inl rfl
  | @commit p rest top draft collected =>
    refine changedBy_change p.pass.registry (.commit p.pass.handle draft) ?_ ?_ ?_ k
    · exact id
    · exact ⟨p, top, rfl, rfl, collected⟩
    · rfl
  | @abandon p rest top first =>
    refine changedBy_change p.pass.registry (.discard p.pass.handle) ?_ ?_ ?_ k
    · exact id
    · exact ⟨p, top, first, rfl, rfl⟩
    · rfl
  | drop top later => exact .inl rfl

theorem Overhaul.changed {n : Nat} (overhaul : Overhaul c n d) (k : Nat) :
    c.ChangedBy Operation.IsOverhaul d k := by
  cases overhaul with
  | merge bytes options =>
    exact changedBy_change n (.merge c.exports bytes options) trivial rfl rfl k
  | unregister m => exact changedBy_change n (.unregister m) trivial trivial rfl k

abbrev Changed (c d : Catalog) (k : Nat) : Prop := c.ChangedBy (fun _ => True) d k

theorem Step.changed (step : Step u c d) (k : Nat) : c.Changed d k := by
  cases step with
  | move move =>
    exact (move.changed k).imp_right fun ⟨op, _, permitted, after⟩ =>
      ⟨op, trivial, permitted, after⟩
  | overhaul overhaul =>
    exact (overhaul.changed k).imp_right fun ⟨op, _, permitted, after⟩ =>
      ⟨op, trivial, permitted, after⟩

def Consistent (c : Catalog) : Prop := ∀ n, (c.registry n).Consistent

theorem empty_consistent : Consistent {} := fun _ => Registry.new_consistent {}

theorem Changed.consistent {n : Nat} (changed : c.Changed d n)
    (consistent : (c.registry n).Consistent) : (d.registry n).Consistent := by
  rcases changed with same | ⟨op, _, permitted, after⟩
  · exact same ▸ consistent
  · exact after ▸ Operation.run_consistent consistent permitted.fresh

theorem Reachable.allConsistent (reachable : Reachable u c) : c.Consistent := by
  induction reachable with
  | refl => exact empty_consistent
  | tail _ step ih => exact fun n => (step.changed n).consistent (ih n)

/-- In every state that can be reached, the tables of each registry agree with its slots: a hash
leads to a slot exactly when the slot's row, pending or published, has it, so no two rows have one
hash; a name leads somewhere exactly when some row carries it, and then to such a row; and the free
list names the empty slots, each once. -/
theorem tables_agree_with_slots (reachable : Reachable u c) (n : Nat) :
    let r := c.registry n
    (∀ hash index, r.byHash.find? hash = some index ↔
      ∃ row, r.types.rowAt? index = some row ∧ row.typeHash = hash) ∧
    (∀ i j a b, r.types.rowAt? i = some a → r.types.rowAt? j = some b →
      a.typeHash = b.typeHash → i = j) ∧
    (∀ name, (∃ index, r.byName.find? name = some index) ↔
      ∃ index row, r.types.rowAt? index = some row ∧ row.name.id = name) ∧
    (∀ name index, r.byName.find? name = some index →
      ∃ row, r.types.rowAt? index = some row ∧ row.name.id = name) ∧
    (∀ index, index ∈ r.types.free ↔
      index < r.types.slots.length ∧ r.types.rowAt? index = none) ∧
    r.types.free.Nodup := by
  have consistent := reachable.allConsistent n
  refine ⟨consistent.hash_iff, ?_, consistent.name_iff, consistent.leads, consistent.free.mem_iff,
    consistent.free.nodup⟩
  exact fun i j a b first second same => consistent.index_unique first second same

/-- While a first description runs, the hash of its type leads to the pending row. -/
theorem tables_agree_within_description :
    let u := Gallery.knownTypes
    let type := TypeKey.user "A"
    let c : Catalog := { registries := [{}] }
    let d : Catalog := { c.change 0 (.skeleton u type .host) with
      passes := [c.firstPass u 0 type .host] }
    Reachable u d ∧ (d.registry 0).byHash.find? (u.hash type) = some 0 ∧
      (d.registry 0).row? ⟨0, 0⟩ = none := by
  intro u type c d
  have created : Step u {} c := .move (.create {})
  have begun : Step u c d := .move (.register .host (by decide) rfl)
  have reachable : Reachable u d := (Relation.ReflTransGen.single created).tail begun
  exact ⟨reachable, ((tables_agree_with_slots reachable 0).1 (u.hash type) 0).mpr ⟨_, rfl, rfl⟩, rfl⟩

end Catalog

end TypeCatalog
