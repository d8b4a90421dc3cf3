import TypeCatalog.Proofs.Laws
import TypeCatalog.Proofs.Ownership
import TypeCatalog.Proofs.Image.Sections

/-!
Rows that are still being described. The row of a new type is there from the beginning of its
description, but it is not published, and no query shows it. It stays as it is whatever else happens
meanwhile, the end of other descriptions and merges included, unless its module is removed or another
description of it ends first.
-/
namespace TypeCatalog

namespace Image.Sections

variable (s : Sections)

@[simp] theorem types_addAttribute (a : Attribute) : (s.addAttribute a).types = s.types := by
  unfold addAttribute
  cases a.value <;> rfl

@[simp] theorem types_addAttributes (attributes : List Attribute) :
    (s.addAttributes attributes).2.types = s.types :=
  List.foldlRecOn attributes addAttribute (motive := fun t => t.types = s.types) rfl
    fun t same a _ => (types_addAttribute t a).trans same

@[simp] theorem types_addField (f : Field) : (s.addField f).types = s.types :=
  types_addAttributes (s.addText f.name.text).2 f.attributes

@[simp] theorem types_addMethod (m : Method) : (s.addMethod m).types = s.types :=
  types_addAttributes ((s.addText m.name.text).2.addParams m.params).2 m.attributes

@[simp] theorem types_addConstructor (c : Constructor) : (s.addConstructor c).types = s.types :=
  types_addAttributes (s.addParams c.params).2 c.attributes

/-- Members add nothing to the section of types. -/
theorem types_foldl {α : Type} {add : Sections → α → Sections}
    (same : ∀ (t : Sections) a, (add t a).types = t.types) (items : List α) :
    (items.foldl add s).types = s.types :=
  List.foldlRecOn items add (motive := fun t => t.types = s.types) rfl
    fun t before a _ => (same t a).trans before

theorem hashes_addType (row : Row) : (s.addType row).types.map TypeRecord.typeHash =
    s.types.map TypeRecord.typeHash ++ [row.typeHash.value] := by
  simp only [addType, List.map_append, List.map_singleton, types_addAttributes,
    types_foldl _ types_addConstructor, types_foldl _ types_addMethod,
    types_foldl _ types_addField]
  rfl

/-- An image has one entry for each row that it is written from. -/
theorem hashes_ofRows (exports : ExportTable) (rows : List Row) :
    (ofRows exports rows).types.map TypeRecord.typeHash = rows.map (·.typeHash.value) := by
  have from_ : ∀ s : Sections, (rows.foldl addType s).types.map TypeRecord.typeHash =
      s.types.map TypeRecord.typeHash ++ rows.map (·.typeHash.value) := by
    induction rows with
    | nil => simp
    | cons row rest ih =>
      intro s
      rw [List.foldl_cons, ih, hashes_addType, List.map_cons, List.append_assoc]
      rfl
  exact from_ { exports }

end Image.Sections

namespace Registry

variable {r s : Registry} {h : TypeHandle} {row : Row}

/-- That no query shows a type: not by its hash or a name, not behind a handle, not in the list of
all types, and not in an image. -/
structure Hides (r : Registry) (hash : TypeHash) : Prop where
  byHash : r.typeByHash? hash = none
  byName : ∀ name h row, r.byName? name = some (h, row) → row.typeHash ≠ hash
  behind : ∀ h row, r.row? h = some row → row.typeHash ≠ hash
  listed : ∀ h row, (h, row) ∈ r.publishedRows → row.typeHash ≠ hash
  written : ∀ exports, ∀ record ∈
    (Image.Sections.ofRows exports (r.publishedRows.map (·.2))).types, record.typeHash ≠ hash.value

/-- A type is hidden as long as no row of its hash is published. -/
theorem Consistent.hides (consistent : r.Consistent) {hash : TypeHash}
    (unpublished : ∀ index row, r.types.rowAt? index = some row → row.typeHash = hash →
      row.published = false) : r.Hides hash := by
  have behind : ∀ h row, r.row? h = some row → row.typeHash ≠ hash := by
    intro h row found same
    have pending := unpublished _ row (rowAt?_of_row? found) same
    rw [(Option.filter_eq_some_iff.mp found).2] at pending
    contradiction
  have listed : ∀ h row, (h, row) ∈ r.publishedRows → row.typeHash ≠ hash :=
    fun h row member => behind h row (mem_publishedRows.mp member)
  refine { byHash := ?_, byName := ?_, behind, listed, written := ?_ }
  · cases found : r.byHash? hash with
    | none => rw [typeByHash?, found]; rfl
    | some pair =>
      obtain ⟨any, published⟩ := Option.filter_eq_some_iff.mp found
      obtain ⟨there, same⟩ := consistent.of_anyByHash? any
      exact absurd same (behind _ _ (Option.filter_eq_some_iff.mpr ⟨there, published⟩))
  · intro name h row found
    simp only [byName?, Option.bind_eq_bind, Option.bind_eq_some_iff] at found
    obtain ⟨id, -, index, -, ref, -, other, there, pair⟩ := found
    cases pair
    exact behind _ _ there
  · intro exports record member same
    have listedHash : record.typeHash ∈ (r.publishedRows.map (·.2)).map (·.typeHash.value) := by
      rw [← Image.Sections.hashes_ofRows exports]
      exact List.mem_map_of_mem member
    rw [List.map_map, List.mem_map] at listedHash
    obtain ⟨⟨h, row⟩, there, value⟩ := listedHash
    exact listed h row there (congrArg TypeHash.mk (value.trans same))

theorem Merged.anyRow?_of_unpublished {options : MergeOptions} {type : Image.ReadType}
    (consistent : r.Consistent) (merged : Merged options type r s) (there : r.anyRow? h = some row)
    (unpublished : row.published = false) : s.anyRow? h = some row := by
  cases merged with
  | added fresh =>
    rw [anyRow?, types_insertRow]
    exact SlotTable.get?_insert_of_get? consistent.free _ there
  | @replaced index old present same published allowed =>
    have elsewhere : h.slot.index ≠ index := by
      rintro rfl
      rw [(SlotTable.get?_eq_some_iff.mp there).1] at present
      cases present
      rw [unpublished] at published
      contradiction
    generalize Image.carryOver (Image.buildRow r.names type (options.owner.getD type.owner)) old =
      draft
    have placed := types_replaceRow (r := { r with names := draft.2 }) present draft.1
    rw [anyRow?, placed, SlotTable.get?_replace_of_ne _ elsewhere]
    exact there
  | kept present same => exact there

theorem merge_anyRow?_of_unpublished (consistent : r.Consistent) (there : r.anyRow? h = some row)
    (unpublished : row.published = false) (exports : ExportTable) (bytes : List UInt8)
    (options : MergeOptions) : (r.merge exports bytes options).2.anyRow? h = some row := by
  rcases merge_merged consistent exports bytes options with same | ⟨types, -, merged⟩
  · rw [same]
    exact there
  · generalize (r.merge exports bytes options).2 = s at merged
    induction merged with
    | none => exact there
    | next before _ last ih =>
      exact last.anyRow?_of_unpublished (before.consistent consistent) ih unpublished

end Registry

theorem Operation.anyRow?_of_unpublished {r : Registry} {h : TypeHandle} {row : Row}
    (consistent : r.Consistent) (there : r.anyRow? h = some row)
    (unpublished : row.published = false) {op : Operation}
    (commits : ∀ draft, op ≠ .commit h draft) (discards : op ≠ .discard h)
    (clears : op ≠ .unregister row.owner) : (op.run r).anyRow? h = some row := by
  have elsewhere : ∀ {other : TypeHandle} {old : Row}, r.anyRow? other = some old → other ≠ h →
      h.slot.index ≠ other.slot.index := by
    intro other old alive differ same
    exact differ (congrArg TypeHandle.mk (SlotTable.ref_unique there alive same).symm)
  cases op.alters r with
  | nothing quiet types =>
    rw [Registry.anyRow?, types]
    exact there
  | adds u type owner types =>
    rw [Registry.anyRow?, types]
    exact SlotTable.get?_insert_of_get? consistent.free _ there
  | @publishes other old draft alive types =>
    have differ : other ≠ h := fun same => commits draft (same ▸ rfl)
    rw [Registry.anyRow?, types, SlotTable.get?_modify_of_ne _ (elsewhere alive differ)]
    exact there
  | @removes other old alive types =>
    have differ : other ≠ h := fun same => discards (same ▸ rfl)
    rw [Registry.anyRow?, types, SlotTable.get?_remove_of_ne _ (elsewhere alive differ)]
    exact there
  | sweeps m types =>
    have others : row.owner ≠ m := fun same => clears (same ▸ rfl)
    rw [Registry.anyRow?, types]
    exact SlotTable.get?_sweep there (by simpa using others)
  | merges exports bytes options =>
    exact Registry.merge_anyRow?_of_unpublished consistent there unpublished exports bytes options

namespace Catalog

variable {u : Universe} {p : Script.Pass} {row : Row} {c d : Catalog}

/-- A step that neither ends a description of the row of `p` nor removes its module. -/
inductive Meanwhile (u : Universe) (p : Script.Pass) (c : Catalog) : Catalog → Prop where
  | move {d : Catalog} (move : Move u c d) (others : ∀ q, c.passes = q :: d.passes →
      q.pass.registry = p.registry → q.pass.handle ≠ p.handle) : Meanwhile u p c d
  | merge (n : Nat) (bytes : List UInt8) (options : MergeOptions) :
      Meanwhile u p c (c.change n (.merge c.exports bytes options))
  | unregister (n : Nat) {m : ModuleId} (other : m ≠ p.owner) :
      Meanwhile u p c (c.change n (.unregister m))

theorem Meanwhile.step (meanwhile : Meanwhile u p c d) : Step u c d := by
  cases meanwhile with
  | move move others => exact .move move
  | merge n bytes options => exact .overhaul (.merge bytes options)
  | unregister n other => exact .overhaul (.unregister _)

theorem changed_registry (c : Catalog) (n : Nat) (op : Operation) (k : Nat) :
    (c.change n op).registry k = c.registry k ∨
      (c.change n op).registry k = op.run (c.registry k) := by
  rw [registry_change]
  split
  · rename_i here
    rw [here.1]
    exact .inr rfl
  · exact .inl rfl

/-- What such a step can do to the registry of the row. -/
theorem Meanwhile.changed (meanwhile : Meanwhile u p c d) :
    d.registry p.registry = c.registry p.registry ∨ ∃ op : Operation,
      (∀ draft, op ≠ .commit p.handle draft) ∧ op ≠ .discard p.handle ∧ op ≠ .unregister p.owner ∧
        d.registry p.registry = op.run (c.registry p.registry) := by
  cases meanwhile with
  | move move others =>
    refine (move.changed p.registry).imp_right fun ⟨op, quiet, permitted, after⟩ =>
      ⟨op, ?_, ?_, ?_, after⟩
    · rintro draft rfl
      obtain ⟨q, top, here, same, _⟩ := permitted
      exact others q top here same
    · rintro rfl
      obtain ⟨q, top, _, here, same⟩ := permitted
      exact others q top here same
    · rintro rfl
      exact quiet trivial
  | merge n bytes options =>
    exact (changed_registry c n _ _).imp_right fun after =>
      ⟨_, by simp, by simp, by simp, after⟩
  | @unregister n m other =>
    exact (changed_registry c n _ _).imp_right fun after =>
      ⟨.unregister m, by simp, by simp, by simpa using other, after⟩

/-- The row of a description that was begun for it is there, and not published. -/
structure Pending (p : Script.Pass) (row : Row) (c : Catalog) : Prop where
  consistent : (c.registry p.registry).Consistent
  there : (c.registry p.registry).anyRow? p.handle = some row
  unpublished : row.published = false
  own : row.owner = p.owner

namespace Pending

theorem next (pending : Pending p row c) (meanwhile : Meanwhile u p c d) : Pending p row d where
  consistent := (meanwhile.step.changed _).consistent pending.consistent
  there := by
    rcases meanwhile.changed with same | ⟨op, commits, discards, clears, after⟩
    · rw [same]
      exact pending.there
    · rw [after]
      exact op.anyRow?_of_unpublished pending.consistent pending.there pending.unpublished commits
        discards (pending.own ▸ clears)
  unpublished := pending.unpublished
  own := pending.own

theorem run (pending : Pending p row c) (meanwhile : Relation.ReflTransGen (Meanwhile u p) c d) :
    Pending p row d := by
  induction meanwhile with
  | refl => exact pending
  | tail _ last ih => exact ih.next last

theorem within (pending : Pending p row c) : p.registry < c.registries.length := by
  by_contra outside
  have there := pending.there
  rw [registry_of_le (Nat.le_of_not_lt outside)] at there
  cases there

/-- No other row has the hash of a pending row. -/
theorem unique (pending : Pending p row c) {index : Nat} {other : Row}
    (present : (c.registry p.registry).types.rowAt? index = some other)
    (same : other.typeHash = row.typeHash) : index = p.handle.slot.index ∧ other = row := by
  have here := (SlotTable.get?_eq_some_iff.mp pending.there).1
  have index := pending.consistent.index_unique present here same
  rw [index, here] at present
  exact ⟨index, (Option.some.inj present).symm⟩

theorem hides (pending : Pending p row c) : (c.registry p.registry).Hides row.typeHash := by
  refine pending.consistent.hides fun index other present same => ?_
  rw [(pending.unique present same).2]
  exact pending.unpublished

theorem not_alive (pending : Pending p row c) :
    (c.registry p.registry).isAlive p.handle = false := by
  rw [Registry.isAlive, Registry.row?, pending.there, Option.filter_some, pending.unpublished]
  rfl

end Pending

theorem Meanwhile.holds (meanwhile : Meanwhile u p c d)
    (consistent : (c.registry p.registry).Consistent) {name : Name}
    (held : (c.registry p.registry).names.Holds p.owner name) :
    (d.registry p.registry).names.Holds p.owner name := by
  rcases meanwhile.changed with same | ⟨op, _, _, clears, after⟩
  · rw [same]
    exact held
  · rw [after]
    exact op.holds_run consistent held fun removed => absurd removed clears

/-- The description `p` is open, on top of those in `rest`, and its module holds the names that it
has entered. -/
def Open (p : Script.Pass) (rest : List OpenPass) (c : Catalog) : Prop :=
  ∃ newer q, c.passes = newer ++ q :: rest ∧ q.pass = p ∧
    ∀ name ∈ q.names, (c.registry p.registry).names.Holds p.owner name

namespace Open

variable {rest : List OpenPass}

/-- The innermost description is `p` itself, or it is a newer one. -/
theorem top {newer tail : List OpenPass} {q first : OpenPass}
    (passes : c.passes = newer ++ q :: rest) (top : c.passes = first :: tail) :
    (newer = [] ∧ first = q ∧ tail = rest) ∨
      ∃ later, newer = first :: later ∧ tail = later ++ q :: rest := by
  rw [top, eq_comm, List.append_eq_cons_iff] at passes
  refine passes.imp_left fun ⟨last, same⟩ => ?_
  cases same
  exact ⟨last, rfl, rfl⟩

theorem next (opened : Open p rest c) (pending : Pending p row c)
    (meanwhile : Meanwhile u p c d) : Open p rest d := by
  obtain ⟨newer, q, passes, rfl, held⟩ := opened
  have kept := fun name listed => meanwhile.holds pending.consistent (held name listed)
  -- A step leaves `q` where it is, unless `q` is the innermost description and the step is its own.
  have stays : d.passes = c.passes → Open q.pass rest d :=
    fun same => ⟨newer, q, same.trans passes, rfl, kept⟩
  have ended : ∀ {first}, c.passes = first :: d.passes →
      (first.pass.registry = q.pass.registry → first.pass.handle ≠ q.pass.handle) →
      Open q.pass rest d := by
    intro first there other
    rcases top passes there with ⟨-, rfl, -⟩ | ⟨later, -, tail⟩
    · exact absurd rfl (other rfl)
    · exact ⟨later, q, tail, rfl, kept⟩
  cases meanwhile with
  | merge n bytes options => exact stays rfl
  | unregister n other => exact stays rfl
  | move move others =>
    cases move with
    | register owner within absent => exact ⟨_ :: newer, q, congrArg _ passes, rfl, kept⟩
    | extend type h within => exact ⟨_ :: newer, q, congrArg _ passes, rfl, kept⟩
    | @enter first tail there text =>
      rcases top passes there with ⟨rfl, rfl, rfl⟩ | ⟨later, -, rfl⟩
      · refine ⟨[], _, rfl, rfl, fun name entered => ?_⟩
        rcases List.mem_append.mp entered with old | new
        · exact kept name old
        · rw [List.mem_singleton.mp new]
          have here := registry_change c first.pass.registry (.intern text first.pass.owner)
            first.pass.registry
          rw [if_pos ⟨rfl, pending.within⟩] at here
          show ((c.change _ _).registry _).names.Holds _ _
          rw [here]
          exact Interner.holds_intern _ _ _
      · exact ⟨_ :: later, q, rfl, rfl, kept⟩
    | @make first tail there e number =>
      rcases top passes there with ⟨rfl, rfl, rfl⟩ | ⟨later, -, rfl⟩
      · exact ⟨[], _, rfl, rfl, kept⟩
      · exact ⟨_ :: later, q, rfl, rfl, kept⟩
    | commit there collected => exact ended there (others _ there)
    | abandon there first => exact ended there (others _ there)
    | drop there later => exact ended there (others _ there)
    | _ => exact stays rfl

theorem run (opened : Open p rest c) (pending : Pending p row c)
    (meanwhile : Relation.ReflTransGen (Meanwhile u p) c d) : Open p rest d := by
  induction meanwhile with
  | refl => exact opened
  | tail before last ih => exact ih.next (pending.run before) last

/-- The names of the innermost description, if it is the one. -/
theorem held_of_top (opened : Open p rest c) {q : OpenPass} (innermost : c.passes = q :: rest) :
    ∀ name ∈ q.names, (c.registry p.registry).names.Holds p.owner name := by
  obtain ⟨newer, other, passes, rfl, held⟩ := opened
  rcases top passes innermost with ⟨-, rfl, -⟩ | ⟨later, -, tail⟩
  · exact held
  · have lengths := congrArg List.length tail
    rw [List.length_append, List.length_cons] at lengths
    omega

end Open

/-- The state in which the description of a type begins. -/
def begun (c : Catalog) (u : Universe) (n : Nat) (type : TypeKey) (owner : ModuleId) : Catalog :=
  { c.change n (.skeleton u type owner) with passes := c.firstPass u n type owner :: c.passes }

section

variable {n : Nat} {type : TypeKey} {owner : ModuleId}

theorem reachable_begun (reachable : Reachable u c) (within : n < c.registries.length)
    (absent : (c.registry n).anyByHash? (u.hash type) = none) :
    Reachable u (c.begun u n type owner) :=
  .tail reachable (.move (.register owner within absent))

theorem pending_begun (reachable : Reachable u c) (within : n < c.registries.length)
    (absent : (c.registry n).anyByHash? (u.hash type) = none) :
    Pending (c.firstPass u n type owner).pass ((c.registry n).skeletonRow u type owner)
      (c.begun u n type owner) where
  consistent := (reachable_begun reachable within absent).allConsistent _
  there := anyRow?_firstPass within (reachable.allConsistent n).free rfl
  unpublished := rfl
  own := rfl

theorem open_begun : Open (c.firstPass u n type owner).pass c.passes (c.begun u n type owner) :=
  ⟨[], c.firstPass u n type owner, rfl, rfl, fun _ entered => nomatch entered⟩

end

/-- The law of all that happens while a row is pending: its descriptions do not end, there are no
further ones, and its module is not removed. -/
def Law.meanwhile {start : Catalog} (pending : Pending p row start) : Law u where
  inv := Relation.ReflTransGen (Meanwhile u p) start
  frees n h := n = p.registry → h ≠ p.handle
  opens type := u.hash type ≠ row.typeHash
  merges := True
  clears m := m ≠ p.owner
  move before move _ others := before.tail (.move move others)
  merge n bytes options _ before := before.tail (.merge n bytes options)
  unregister n _ other before := before.tail (.unregister n other)
  first {c n type} owner before _ := by
    rintro rfl used
    have now := pending.run before
    have empty := SlotTable.rowAt?_insert_index now.consistent.free
      ((c.registry p.registry).skeletonRow u type owner)
    have there := (SlotTable.get?_eq_some_iff.mp now.there).1
    rw [← used] at there
    cases empty.symm.trans there
  further {c n type h other} before opened found := by
    rintro rfl rfl
    have now := pending.run before
    obtain ⟨there, same⟩ := now.consistent.of_anyByHash? found
    cases Option.some.inj (there.symm.trans now.there)
    exact opened same.symm

end Catalog

end TypeCatalog
