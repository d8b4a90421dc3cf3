import TypeCatalog.Proofs.Keyed
import TypeCatalog.Proofs.Members
import TypeCatalog.Registry.Types

/-!
The look-up tables of a registry agree with its slots: the table of hashes tells exactly where each
hash is, the table of names leads to a row that carries the name whenever there is one, and the
free list names the empty slots. Adding, replacing, removing and publishing a row keep that.
-/
namespace TypeCatalog.Registry

def Carries (r : Registry) (index : Nat) (name : NameId) : Prop :=
  ∃ row, r.types.rowAt? index = some row ∧ row.name.id = name

theorem mem_publishedRows {r : Registry} {h : TypeHandle} {row : Row} :
    (h, row) ∈ r.publishedRows ↔ r.row? h = some row := by
  obtain ⟨ref⟩ := h
  simp [publishedRows, row?, anyRow?, SlotTable.mem_rows, Option.filter_eq_some_iff]

theorem rowAt?_of_row? {r : Registry} {h : TypeHandle} {row : Row} (found : r.row? h = some row) :
    r.types.rowAt? h.slot.index = some row :=
  (SlotTable.get?_eq_some_iff.mp (Option.filter_eq_some_iff.mp found).1).1

structure Consistent (r : Registry) : Prop where
  hash_iff : ∀ hash index, r.byHash.find? hash = some index ↔
    ∃ row, r.types.rowAt? index = some row ∧ row.typeHash = hash
  name_iff : ∀ name, (∃ index, r.byName.find? name = some index) ↔ ∃ index, r.Carries index name
  leads : ∀ name index, r.byName.find? name = some index → r.Carries index name
  free : r.types.FreeExact

theorem new_consistent (config : RegistryConfig) : Consistent { config } where
  hash_iff := by simp
  name_iff := by simp [Carries]
  leads := by simp
  free := SlotTable.empty_freeExact

namespace Consistent

variable {r s : Registry}

/-- A hash is in one slot only. -/
theorem index_unique (consistent : r.Consistent) {i j : Nat} {a b : Row}
    (first : r.types.rowAt? i = some a) (second : r.types.rowAt? j = some b)
    (same : a.typeHash = b.typeHash) : i = j := by
  have atFirst := (consistent.hash_iff b.typeHash i).mpr ⟨a, first, same⟩
  have atSecond := (consistent.hash_iff b.typeHash j).mpr ⟨b, second, rfl⟩
  exact Option.some.inj (atFirst.symm.trans atSecond)

theorem anyByHash?_eq_none (consistent : r.Consistent) {hash : TypeHash}
    (absent : r.anyByHash? hash = none) : r.byHash.find? hash = none := by
  cases found : r.byHash.find? hash with
  | none => rfl
  | some index =>
    obtain ⟨row, present, _⟩ := (consistent.hash_iff hash index).mp found
    simp [anyByHash?, found, SlotTable.refAt?_eq, present] at absent

theorem of_anyByHash? (consistent : r.Consistent) {hash : TypeHash} {h : TypeHandle} {row : Row}
    (found : r.anyByHash? hash = some (h, row)) :
    r.anyRow? h = some row ∧ row.typeHash = hash := by
  simp only [anyByHash?, Option.bind_eq_bind, Option.bind_eq_some_iff] at found
  obtain ⟨index, leads, ref, here, other, present, pair⟩ := found
  cases pair
  obtain ⟨there, present', same⟩ := (consistent.hash_iff hash index).mp leads
  cases Option.some.inj (present.symm.trans present')
  rw [SlotTable.refAt?_eq, present] at here
  cases here
  exact ⟨SlotTable.get?_eq_some_iff.mpr ⟨present, rfl⟩, same⟩

/-- A row is found by its hash. -/
theorem anyByHash?_of_anyRow? (consistent : r.Consistent) {h : TypeHandle} {row : Row}
    (there : r.anyRow? h = some row) : r.anyByHash? row.typeHash = some (h, row) := by
  obtain ⟨present, generation⟩ := SlotTable.get?_eq_some_iff.mp there
  have leads := (consistent.hash_iff row.typeHash h.slot.index).mpr ⟨row, present, rfl⟩
  simp [anyByHash?, leads, SlotTable.refAt?_eq, present, generation]

theorem typeByHash?_of_row? (consistent : r.Consistent) {h : TypeHandle} {row : Row}
    (found : r.row? h = some row) : r.typeByHash? row.typeHash = some h := by
  obtain ⟨alive, published⟩ := Option.filter_eq_some_iff.mp found
  simp [typeByHash?, byHash?, consistent.anyByHash?_of_anyRow? alive, published]

/-- A hash leads to the one published row that has it. -/
theorem typeByHash?_eq_some_iff (consistent : r.Consistent) {hash : TypeHash} {h : TypeHandle} :
    r.typeByHash? hash = some h ↔ ∃ row, r.row? h = some row ∧ row.typeHash = hash := by
  constructor
  · intro leads
    obtain ⟨⟨_, row⟩, found, rfl⟩ := Option.map_eq_some_iff.mp leads
    obtain ⟨any, published⟩ := Option.filter_eq_some_iff.mp found
    obtain ⟨alive, same⟩ := consistent.of_anyByHash? any
    exact ⟨row, Option.filter_eq_some_iff.mpr ⟨alive, published⟩, same⟩
  · rintro ⟨row, found, rfl⟩
    exact consistent.typeByHash?_of_row? found

/-- The tables of names and hashes are all that consistency is about. -/
theorem congr (consistent : r.Consistent) (types : s.types = r.types)
    (byHash : s.byHash = r.byHash) (byName : s.byName = r.byName) : s.Consistent where
  hash_iff := by rw [byHash, types]; exact consistent.hash_iff
  name_iff := by simp only [Carries, byName, types]; exact consistent.name_iff
  leads := by simp only [Carries, byName, types]; exact consistent.leads
  free := types ▸ consistent.free

theorem withNames (consistent : r.Consistent) (names : Interner) :
    Registry.Consistent { r with names } :=
  consistent.congr rfl rfl rfl

end Consistent

/-- The functions and the tables that lead to them, which changes to types leave alone. -/
def functionTables (r : Registry) :
    SlotTable FunctionRow × Index NameId (List Nat) × Index TypeHash Nat :=
  (r.functions, r.overloadSets, r.bySignature)

@[simp] theorem types_indexName (r : Registry) (name : NameId) (index : Nat) :
    (r.indexName name index).types = r.types := by
  unfold indexName
  split <;> rfl

@[simp] theorem byHash_indexName (r : Registry) (name : NameId) (index : Nat) :
    (r.indexName name index).byHash = r.byHash := by
  unfold indexName
  split <;> rfl

@[simp] theorem types_unindexName (r : Registry) (name : NameId) (index : Nat) :
    (r.unindexName name index).types = r.types := by
  unfold unindexName
  repeat (split <;> try rfl)

@[simp] theorem byHash_unindexName (r : Registry) (name : NameId) (index : Nat) :
    (r.unindexName name index).byHash = r.byHash := by
  unfold unindexName
  repeat (split <;> try rfl)

@[simp] theorem names_indexName (r : Registry) (name : NameId) (index : Nat) :
    (r.indexName name index).names = r.names := by
  unfold indexName
  split <;> rfl

@[simp] theorem names_unindexName (r : Registry) (name : NameId) (index : Nat) :
    (r.unindexName name index).names = r.names := by
  unfold unindexName
  repeat (split <;> try rfl)

@[simp] theorem functionTables_indexName (r : Registry) (name : NameId) (index : Nat) :
    (r.indexName name index).functionTables = r.functionTables := by
  unfold indexName
  split <;> rfl

@[simp] theorem functionTables_unindexName (r : Registry) (name : NameId) (index : Nat) :
    (r.unindexName name index).functionTables = r.functionTables := by
  unfold unindexName
  repeat (split <;> try rfl)

@[simp] theorem carries_indexName (r : Registry) (name other : NameId) (index slot : Nat) :
    (r.indexName name index).Carries slot other ↔ r.Carries slot other := by
  simp [Carries]

@[simp] theorem carries_unindexName (r : Registry) (name other : NameId) (index slot : Nat) :
    (r.unindexName name index).Carries slot other ↔ r.Carries slot other := by
  simp [Carries]

/-- Every name of the table leads to a row that carries it. -/
def Aliased (r : Registry) : Prop :=
  ∀ name index, r.byName.find? name = some index → r.Carries index name

/-- Every carried name is in the table, unless `excused`. -/
def Listed (r : Registry) (excused : Nat → NameId → Prop) : Prop :=
  ∀ index name, r.Carries index name → ¬ excused index name →
    ∃ other, r.byName.find? name = some other

theorem Consistent.listed {r : Registry} (consistent : r.Consistent) :
    r.Listed fun _ _ => False :=
  fun index name carried _ => (consistent.name_iff name).mpr ⟨index, carried⟩

theorem nextCarrier?_some {r : Registry} {name : NameId} {index other : Nat}
    (found : r.nextCarrier? name index = some other) : r.Carries other name := by
  have listed := List.mem_of_find?_eq_some found
  obtain ⟨row, present, same⟩ := SlotTable.mem_positions.mp listed
  exact ⟨row, present, of_decide_eq_true same⟩

theorem nextCarrier?_none {r : Registry} {name : NameId} {index other : Nat}
    (found : r.nextCarrier? name index = none) (carried : r.Carries other name) :
    other = index := by
  obtain ⟨row, present, same⟩ := carried
  have listed : other ∈ r.types.positions (·.name.id = name) :=
    SlotTable.mem_positions.mpr ⟨row, present, decide_eq_true same⟩
  simpa using List.find?_eq_none.mp found other listed

/-- Taking a name away from a slot that no longer carries it repairs the table. -/
theorem unindexName_aliased {r : Registry} {name : NameId} {index : Nat}
    (others : ∀ id slot, r.byName.find? id = some slot →
      id = name ∧ slot = index ∨ r.Carries slot id) :
    ¬ r.Carries index name → (r.unindexName name index).Aliased := by
  intro gone id slot found
  rw [carries_unindexName]
  unfold unindexName at found
  split at found
  · split at found
    · rename_i other next
      rw [Index.find?_insert] at found
      split at found
      · rename_i same
        cases Option.some.inj found
        exact same ▸ nextCarrier?_some next
      · rename_i differs
        exact (others id slot found).resolve_left fun h => differs h.1
    · rw [Index.find?_erase] at found
      split at found
      · contradiction
      · rename_i differs
        exact (others id slot found).resolve_left fun h => differs h.1
  · rename_i elsewhere
    refine (others id slot found).resolve_left fun h => elsewhere ?_
    rw [← h.1, found, h.2]

theorem unindexName_listed {r : Registry} {name : NameId} {index : Nat}
    {excused : Nat → NameId → Prop} (listed : r.Listed excused) (gone : ¬ r.Carries index name) :
    (r.unindexName name index).Listed excused := by
  intro slot id carried needed
  rw [carries_unindexName] at carried
  obtain ⟨other, found⟩ := listed slot id carried needed
  unfold unindexName
  split
  · split
    · rename_i next _
      exact ⟨if id = name then next else other, by rw [Index.find?_insert]; split <;> simp [found]⟩
    · rename_i alone
      have differs : id ≠ name := by
        intro same
        have only := nextCarrier?_none alone (same ▸ carried)
        exact gone (only ▸ same ▸ carried)
      exact ⟨other, by rw [Index.find?_erase, if_neg differs, found]⟩
  · exact ⟨other, found⟩

theorem indexName_aliased {r : Registry} (aliased : r.Aliased) {name : NameId} {index : Nat}
    (carried : r.Carries index name) : (r.indexName name index).Aliased := by
  intro id slot found
  rw [carries_indexName]
  unfold indexName at found
  split at found
  · exact aliased id slot found
  · rw [Index.find?_insert] at found
    split at found
    · rename_i same
      cases Option.some.inj found
      exact same ▸ carried
    · exact aliased id slot found

theorem indexName_listed {r : Registry} {name : NameId} {index : Nat}
    (listed : r.Listed fun slot id => slot = index ∧ id = name) :
    (r.indexName name index).Listed fun _ _ => False := by
  intro slot id carried _
  rw [carries_indexName] at carried
  unfold indexName
  split
  · rename_i there known
    by_cases same : slot = index ∧ id = name
    · exact ⟨there, same.2 ▸ known⟩
    · exact listed slot id carried same
  · by_cases same : id = name
    · exact ⟨index, by simp [same]⟩
    · obtain ⟨other, found⟩ := listed slot id carried fun h => same h.2
      exact ⟨other, by rw [Index.find?_insert, if_neg same, found]⟩

/-- Whether a table of hashes leads exactly to the rows that have them. -/
def HashExact (byHash : Index TypeHash Nat) (types : SlotTable Row) : Prop :=
  ∀ hash slot, byHash.find? hash = some slot ↔
    ∃ row, types.rowAt? slot = some row ∧ row.typeHash = hash

namespace HashExact

variable {byHash : Index TypeHash Nat} {types later : SlotTable Row} {index : Nat} {row : Row}

theorem insert (exact : HashExact byHash types) (empty : types.rowAt? index = none)
    (fresh : byHash.find? row.typeHash = none)
    (rows : ∀ slot, later.rowAt? slot = if slot = index then some row else types.rowAt? slot) :
    HashExact (byHash.insert row.typeHash index) later :=
  SlotTable.KeyedBy.insert exact empty fresh rows

theorem erase (exact : HashExact byHash types) (present : types.rowAt? index = some row)
    (rows : ∀ slot, later.rowAt? slot = if slot = index then none else types.rowAt? slot) :
    HashExact (byHash.erase row.typeHash) later :=
  SlotTable.KeyedBy.erase exact present rows

theorem exchange (exact : HashExact byHash types) {old : Row}
    (present : types.rowAt? index = some old) (hash : row.typeHash = old.typeHash)
    (rows : ∀ slot, later.rowAt? slot = if slot = index then some row else types.rowAt? slot) :
    HashExact byHash later := by
  intro wanted slot
  rw [exact, rows]
  by_cases here : slot = index
  · subst here
    simp [present, hash]
  · simp [here]

end HashExact

theorem carries_of_put {r s : Registry} {index : Nat} {new : Row}
    (rows : ∀ slot, s.types.rowAt? slot = if slot = index then some new else r.types.rowAt? slot)
    (slot : Nat) (id : NameId) :
    s.Carries slot id ↔ if slot = index then new.name.id = id else r.Carries slot id := by
  unfold Carries
  rw [rows]
  split <;> simp

theorem carries_of_emptied {r s : Registry} {index : Nat}
    (rows : ∀ slot, s.types.rowAt? slot = if slot = index then none else r.types.rowAt? slot)
    (slot : Nat) (id : NameId) : s.Carries slot id ↔ slot ≠ index ∧ r.Carries slot id := by
  unfold Carries
  rw [rows]
  split <;> simp [*]

theorem consistent_of_names {r : Registry} (hashes : HashExact r.byHash r.types)
    (aliased : r.Aliased) (listed : r.Listed fun _ _ => False) (free : r.types.FreeExact) :
    r.Consistent where
  hash_iff := hashes
  name_iff name :=
    ⟨fun ⟨index, found⟩ => ⟨index, aliased name index found⟩,
      fun ⟨index, carried⟩ => listed index name carried id⟩
  leads := aliased
  free := free

theorem insertRow_eq (r : Registry) (row : Row) :
    r.insertRow row =
      (⟨(r.types.insert row).1⟩,
        let added := { r with
          types := (r.types.insert row).2
          byHash := r.byHash.insert row.typeHash (r.types.insert row).1.index }
        let named := added.indexName row.name.id (r.types.insert row).1.index
        if row.published then named.addTypeTo row.owner else named) := rfl

@[simp] theorem types_insertRow (r : Registry) (row : Row) :
    (r.insertRow row).2.types = (r.types.insert row).2 := by
  rw [insertRow_eq]
  dsimp only
  split
  · exact types_indexName _ _ _
  · exact types_indexName _ _ _

theorem anyRow?_insertRow {r : Registry} (free : r.types.FreeExact) (row : Row) (h : TypeHandle) :
    (r.insertRow row).2.anyRow? h = if h = (r.insertRow row).1 then some row else r.anyRow? h := by
  have handle : (r.insertRow row).1 = ⟨(r.types.insert row).1⟩ := rfl
  rw [handle, anyRow?, types_insertRow, SlotTable.get?_insert free]
  obtain ⟨slot⟩ := h
  by_cases same : slot = (r.types.insert row).1
  · rw [if_pos same, if_pos (congrArg TypeHandle.mk same)]
  · rw [if_neg same, if_neg fun equal => same (congrArg TypeHandle.slot equal)]
    rfl

/-- Nothing is behind the handle of a new row before it is added. -/
theorem anyRow?_insertRow_new {r : Registry} (free : r.types.FreeExact) (row : Row) :
    r.anyRow? (r.insertRow row).1 = none :=
  SlotTable.get?_of_rowAt?_none (SlotTable.rowAt?_insert_index free _)

@[simp] theorem names_insertRow (r : Registry) (row : Row) :
    (r.insertRow row).2.names = r.names := by
  rw [insertRow_eq]
  dsimp only
  split
  · exact names_indexName _ _ _
  · exact names_indexName _ _ _

@[simp] theorem functionTables_insertRow (r : Registry) (row : Row) :
    (r.insertRow row).2.functionTables = r.functionTables := by
  rw [insertRow_eq]
  dsimp only
  split
  · exact functionTables_indexName _ _ _
  · exact functionTables_indexName _ _ _

theorem insertRow_consistent {r : Registry} (consistent : r.Consistent) {row : Row}
    (fresh : r.byHash.find? row.typeHash = none) : (r.insertRow row).2.Consistent := by
  have rows := SlotTable.rowAt?_insert consistent.free row
  have empty := SlotTable.rowAt?_insert_index consistent.free row
  have free := SlotTable.insert_freeExact consistent.free row
  rw [insertRow_eq]
  generalize r.types.insert row = inserted at rows empty free ⊢
  obtain ⟨⟨index, generation⟩, types⟩ := inserted
  dsimp only at rows empty free ⊢
  let added : Registry := { r with types, byHash := r.byHash.insert row.typeHash index }
  have carries := fun slot id => carries_of_put (r := r) (s := added) rows slot id
  have unnamed : ∀ id, ¬ r.Carries index id := by simp [Carries, empty]
  suffices named : (added.indexName row.name.id index).Consistent by
    split
    · exact named.congr rfl rfl rfl
    · exact named
  refine consistent_of_names ?_ (indexName_aliased ?_ ?_) (indexName_listed ?_) (by simpa using free)
  · rw [byHash_indexName, types_indexName]
    exact HashExact.insert consistent.hash_iff empty fresh rows
  · intro id slot found
    have carried := consistent.leads id slot found
    have elsewhere : slot ≠ index := fun here => unnamed id (here ▸ carried)
    rwa [carries, if_neg elsewhere]
  · rw [carries, if_pos rfl]
  · intro slot id carried needed
    rw [carries] at carried
    split at carried
    · rename_i here
      exact absurd ⟨here, carried.symm⟩ needed
    · exact consistent.listed slot id carried not_false

/-- A row in the place of an old one, with the table of names after it. -/
def exchange (r : Registry) (types : SlotTable Row) (index : Nat) (old new : Row) : Registry :=
  if old.name.id = new.name.id then { r with types }
  else (Registry.unindexName { r with types } old.name.id index).indexName new.name.id index

@[simp] theorem types_exchange (r : Registry) (types : SlotTable Row) (index : Nat)
    (old new : Row) : (r.exchange types index old new).types = types := by
  unfold exchange
  split <;> simp

@[simp] theorem names_exchange (r : Registry) (types : SlotTable Row) (index : Nat)
    (old new : Row) : (r.exchange types index old new).names = r.names := by
  unfold exchange
  split <;> simp

@[simp] theorem functionTables_exchange (r : Registry) (types : SlotTable Row) (index : Nat)
    (old new : Row) : (r.exchange types index old new).functionTables = r.functionTables := by
  unfold exchange
  split
  · rfl
  · rw [functionTables_indexName, functionTables_unindexName]
    rfl

/-- A slot's row may be exchanged for one of the same hash, when the table of names follows. -/
theorem exchange_consistent {r : Registry} (consistent : r.Consistent) {types : SlotTable Row}
    {index : Nat} {old new : Row} (present : r.types.rowAt? index = some old)
    (rows : ∀ slot, types.rowAt? slot = if slot = index then some new else r.types.rowAt? slot)
    (free : types.FreeExact) (hash : new.typeHash = old.typeHash) :
    (r.exchange types index old new).Consistent := by
  unfold exchange
  have hashes : HashExact r.byHash types :=
    HashExact.exchange consistent.hash_iff present hash rows
  have carries := fun slot id => carries_of_put (r := r) (s := { r with types }) rows slot id
  have before : ∀ id, r.Carries index id ↔ old.name.id = id := by
    intro id
    simp [Carries, present]
  split
  · rename_i kept
    have same : ∀ slot id, { r with types : Registry }.Carries slot id ↔ r.Carries slot id := by
      intro slot id
      rw [carries]
      split
      · rename_i here
        rw [here, before, kept]
      · exact Iff.rfl
    refine consistent_of_names hashes ?_ ?_ free
    · exact fun name slot found => (same slot name).mpr (consistent.leads name slot found)
    · exact fun slot name carried _ => consistent.listed slot name ((same slot name).mp carried) id
  · rename_i differs
    have gone : ¬ { r with types : Registry }.Carries index old.name.id := by
      rw [carries, if_pos rfl]
      exact fun h => differs h.symm
    refine consistent_of_names (by simpa using hashes) (indexName_aliased ?_ ?_)
      (indexName_listed (unindexName_listed ?_ gone)) (by simpa using free)
    · refine unindexName_aliased ?_ gone
      intro id slot found
      have carried := consistent.leads id slot found
      rw [carries]
      split
      · rename_i here
        rw [here, before] at carried
        exact .inl ⟨carried.symm, here⟩
      · exact .inr carried
    · rw [carries_unindexName, carries, if_pos rfl]
    · intro slot id carried needed
      rw [carries] at carried
      split at carried
      · rename_i here
        exact absurd ⟨here, carried.symm⟩ needed
      · exact consistent.listed slot id carried not_false

theorem replaceRow_eq {r : Registry} {index : Nat} {old : Row}
    (present : r.types.rowAt? index = some old) (row : Row) :
    r.replaceRow index row =
      let placed := r.exchange (r.types.replace index row) index old row
      if old.owner = row.owner then placed
      else (placed.dropTypeFrom old.owner).addTypeTo row.owner := by
  unfold replaceRow
  rw [present]
  rfl

theorem types_replaceRow {r : Registry} {index : Nat} {old : Row}
    (present : r.types.rowAt? index = some old) (row : Row) :
    (r.replaceRow index row).types = r.types.replace index row := by
  rw [replaceRow_eq present]
  dsimp only
  split
  · exact types_exchange _ _ _ _ _
  · exact types_exchange _ _ _ _ _

theorem names_replaceRow {r : Registry} {index : Nat} {old : Row}
    (present : r.types.rowAt? index = some old) (row : Row) :
    (r.replaceRow index row).names = r.names := by
  rw [replaceRow_eq present]
  dsimp only
  split
  · exact names_exchange _ _ _ _ _
  · exact names_exchange _ _ _ _ _

theorem functionTables_replaceRow {r : Registry} {index : Nat} {old : Row}
    (present : r.types.rowAt? index = some old) (row : Row) :
    (r.replaceRow index row).functionTables = r.functionTables := by
  rw [replaceRow_eq present]
  dsimp only
  split
  · exact functionTables_exchange _ _ _ _ _
  · exact functionTables_exchange _ _ _ _ _

theorem replaceRow_consistent {r : Registry} (consistent : r.Consistent) {index : Nat}
    {old row : Row} (present : r.types.rowAt? index = some old)
    (hash : row.typeHash = old.typeHash) : (r.replaceRow index row).Consistent := by
  have within := SlotTable.lt_length_of_rowAt? present
  have exchanged := exchange_consistent consistent present
    (fun slot => SlotTable.rowAt?_replace within slot row)
    (SlotTable.replace_freeExact consistent.free present row) hash
  rw [replaceRow_eq present]
  dsimp only
  split
  · exact exchanged
  · exact exchanged.congr rfl rfl rfl

theorem commit_eq {r : Registry} {h : TypeHandle} {old : Row} (alive : r.anyRow? h = some old)
    (draft : Draft) :
    r.commit h draft =
      let placed := r.exchange (r.types.modify h.slot.index fun _ => old.publish draft)
        h.slot.index old (old.publish draft)
      if old.published then placed else placed.addTypeTo (old.publish draft).owner := by
  unfold commit
  rw [alive]
  rfl

theorem commit_dead {r : Registry} {h : TypeHandle} (dead : r.anyRow? h = none) (draft : Draft) :
    r.commit h draft = r := by
  unfold commit
  rw [dead]

theorem types_commit {r : Registry} {h : TypeHandle} {old : Row} (alive : r.anyRow? h = some old)
    (draft : Draft) :
    (r.commit h draft).types = r.types.modify h.slot.index fun _ => old.publish draft := by
  rw [commit_eq alive]
  dsimp only
  split
  · exact types_exchange _ _ _ _ _
  · exact types_exchange _ _ _ _ _

theorem anyRow?_commit {r : Registry} {h : TypeHandle} {old : Row}
    (alive : r.anyRow? h = some old) (draft : Draft) :
    (r.commit h draft).anyRow? h = some (old.publish draft) := by
  obtain ⟨present, generation⟩ := SlotTable.get?_eq_some_iff.mp alive
  refine SlotTable.get?_eq_some_iff.mpr ⟨?_, ?_⟩
  · rw [types_commit alive, SlotTable.rowAt?_modify, if_pos rfl, present]
    rfl
  · rw [types_commit alive, SlotTable.generationAt_modify, generation]

@[simp] theorem names_commit (r : Registry) (h : TypeHandle) (draft : Draft) :
    (r.commit h draft).names = r.names := by
  cases alive : r.anyRow? h with
  | none => rw [commit_dead alive]
  | some old =>
    rw [commit_eq alive]
    dsimp only
    split
    · exact names_exchange _ _ _ _ _
    · exact names_exchange _ _ _ _ _

@[simp] theorem functionTables_commit (r : Registry) (h : TypeHandle) (draft : Draft) :
    (r.commit h draft).functionTables = r.functionTables := by
  cases alive : r.anyRow? h with
  | none => rw [commit_dead alive]
  | some old =>
    rw [commit_eq alive]
    dsimp only
    split
    · exact functionTables_exchange _ _ _ _ _
    · exact functionTables_exchange _ _ _ _ _

theorem commit_consistent {r : Registry} (consistent : r.Consistent) (h : TypeHandle)
    (draft : Draft) : (r.commit h draft).Consistent := by
  cases alive : r.anyRow? h with
  | none => rw [commit_dead alive]; exact consistent
  | some old =>
    have present := (SlotTable.get?_eq_some_iff.mp alive).1
    have exchanged := exchange_consistent consistent present
      (fun slot => by
        rw [SlotTable.rowAt?_modify r.types h.slot.index slot fun _ => old.publish draft, present]
        rfl)
      (SlotTable.modify_freeExact consistent.free _ _) (Row.publish_grows old draft).typeHash
    rw [commit_eq alive]
    dsimp only
    split
    · exact exchanged
    · exact exchanged.congr rfl rfl rfl

theorem removeRow_eq {r : Registry} {index : Nat} {row : Row}
    (present : r.types.rowAt? index = some row) :
    r.removeRow index =
      let emptied := { r with types := r.types.remove index }
      let unhashed := if emptied.byHash.find? row.typeHash = some index then
          { emptied with byHash := emptied.byHash.erase row.typeHash }
        else emptied
      let unnamed := unhashed.unindexName row.name.id index
      if row.published then unnamed.dropTypeFrom row.owner else unnamed := by
  unfold removeRow
  rw [present]

theorem removeRow_empty {r : Registry} {index : Nat} (absent : r.types.rowAt? index = none) :
    r.removeRow index = r := by
  unfold removeRow
  rw [absent]

theorem types_removeRow {r : Registry} {index : Nat} {row : Row}
    (present : r.types.rowAt? index = some row) :
    (r.removeRow index).types = r.types.remove index := by
  rw [removeRow_eq present]
  dsimp only
  repeat' split
  all_goals exact types_unindexName _ _ _

@[simp] theorem names_removeRow (r : Registry) (index : Nat) :
    (r.removeRow index).names = r.names := by
  cases present : r.types.rowAt? index with
  | none => rw [removeRow_empty present]
  | some row =>
    rw [removeRow_eq present]
    dsimp only
    repeat' split
    all_goals exact names_unindexName _ _ _

@[simp] theorem functionTables_removeRow (r : Registry) (index : Nat) :
    (r.removeRow index).functionTables = r.functionTables := by
  cases present : r.types.rowAt? index with
  | none => rw [removeRow_empty present]
  | some row =>
    rw [removeRow_eq present]
    dsimp only
    repeat' split
    all_goals exact functionTables_unindexName _ _ _

theorem removeRow_consistent {r : Registry} (consistent : r.Consistent) (index : Nat) :
    (r.removeRow index).Consistent := by
  cases present : r.types.rowAt? index with
  | none => rw [removeRow_empty present]; exact consistent
  | some row =>
    have here : r.byHash.find? row.typeHash = some index :=
      (consistent.hash_iff row.typeHash index).mpr ⟨row, present, rfl⟩
    let emptied : Registry := { r with
      types := r.types.remove index
      byHash := r.byHash.erase row.typeHash }
    have rows : ∀ slot, emptied.types.rowAt? slot =
        if slot = index then none else r.types.rowAt? slot :=
      fun slot => SlotTable.rowAt?_remove r.types index slot
    have carries := carries_of_emptied rows
    suffices named : (emptied.unindexName row.name.id index).Consistent by
      rw [removeRow_eq present]
      simp only [here, if_true]
      split
      · exact named.congr rfl rfl rfl
      · exact named
    have gone : ¬ emptied.Carries index row.name.id :=
      fun carried => ((carries index row.name.id).mp carried).1 rfl
    refine consistent_of_names ?_ (unindexName_aliased ?_ gone) (unindexName_listed ?_ gone)
      (by simpa using SlotTable.remove_freeExact consistent.free present)
    · rw [byHash_unindexName, types_unindexName]
      exact HashExact.erase consistent.hash_iff present rows
    · intro id slot found
      have carried := consistent.leads id slot found
      by_cases removed : slot = index
      · obtain ⟨old, there, same⟩ := carried
        rw [removed, present] at there
        exact .inl ⟨by rw [← same, Option.some.inj there], removed⟩
      · exact .inr ((carries slot id).mpr ⟨removed, carried⟩)
    · intro slot id carried _
      exact consistent.listed slot id ((carries slot id).mp carried).2 not_false

theorem discardPending_consistent {r : Registry} (consistent : r.Consistent) (h : TypeHandle) :
    (r.discardPending h).Consistent := by
  unfold discardPending
  split
  · split
    · exact consistent
    · exact removeRow_consistent consistent _
  · exact consistent

end TypeCatalog.Registry
