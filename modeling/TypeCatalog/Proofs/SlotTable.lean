import TypeCatalog.SlotTable

/-!
What each operation does to the rows, the generations and the free list of a slot table. A table
is exact when its free list names every empty slot once; every operation keeps that. A table
succeeds another when each slot has kept its row, which may have grown, or has begun exactly one
new generation.
-/
namespace TypeCatalog

/-- The reference to the same slot in the next generation. -/
def SlotRef.next (ref : SlotRef) : SlotRef := ⟨ref.index, ref.generation + 1⟩

namespace SlotTable

variable {ρ : Type}

/-- The generation of a slot; a slot that is still to come begins with zero. -/
def generationAt (t : SlotTable ρ) (index : Nat) : UInt32 :=
  (t.slots[index]?.map Slot.generation).getD 0

/-- The free list names exactly the empty slots, each once. -/
structure FreeExact (t : SlotTable ρ) : Prop where
  mem_iff : ∀ index, index ∈ t.free ↔ index < t.slots.length ∧ t.rowAt? index = none
  nodup : t.free.Nodup

theorem lt_length_of_rowAt? {t : SlotTable ρ} {index : Nat} {row : ρ}
    (present : t.rowAt? index = some row) : index < t.slots.length := by
  obtain ⟨slot, found, _⟩ := Option.bind_eq_some_iff.mp present
  exact (List.getElem?_eq_some_iff.mp found).1

theorem empty_freeExact : (empty : SlotTable ρ).FreeExact :=
  ⟨by simp [empty], List.nodup_nil⟩

@[simp] theorem rowAt?_empty (index : Nat) : (empty : SlotTable ρ).rowAt? index = none := rfl

@[simp] theorem generationAt_empty (index : Nat) :
    (empty : SlotTable ρ).generationAt index = 0 := rfl

theorem get?_eq_some_iff {t : SlotTable ρ} {ref : SlotRef} {row : ρ} :
    t.get? ref = some row ↔
      t.rowAt? ref.index = some row ∧ t.generationAt ref.index = ref.generation := by
  unfold get? rowAt? generationAt
  cases t.slots[ref.index]? with
  | none => simp
  | some slot =>
    by_cases same : slot.generation = ref.generation <;> simp [same]

theorem get?_of_rowAt?_none {t : SlotTable ρ} {ref : SlotRef} (empty : t.rowAt? ref.index = none) :
    t.get? ref = none := by
  cases found : t.get? ref with
  | none => rfl
  | some old =>
    have present := (get?_eq_some_iff.mp found).1
    rw [empty] at present
    contradiction

theorem refAt?_eq (t : SlotTable ρ) (index : Nat) :
    t.refAt? index = (t.rowAt? index).map fun _ => ⟨index, t.generationAt index⟩ := by
  unfold refAt? rowAt? generationAt
  cases t.slots[index]? with
  | none => rfl
  | some slot =>
    obtain ⟨generation, row⟩ := slot
    cases row <;> rfl

theorem mem_rows {t : SlotTable ρ} {ref : SlotRef} {row : ρ} :
    (ref, row) ∈ t.rows ↔ t.get? ref = some row := by
  rw [get?_eq_some_iff]
  simp only [rows, List.mem_filterMap, Option.map_eq_some_iff, Prod.mk.injEq, Prod.exists,
    List.mem_zipIdx_iff_getElem?]
  constructor
  · rintro ⟨slot, index, found, old, present, rfl, rfl⟩
    simp [rowAt?, generationAt, found, present]
  · rintro ⟨present, current⟩
    obtain ⟨slot, found, held⟩ := Option.bind_eq_some_iff.mp present
    have same : slot.generation = ref.generation := by simpa [generationAt, found] using current
    exact ⟨slot, ref.index, found, row, held, by rw [same], rfl⟩

theorem mem_positions {t : SlotTable ρ} {p : ρ → Bool} {index : Nat} :
    index ∈ t.positions p ↔ ∃ row, t.rowAt? index = some row ∧ p row = true := by
  simp only [positions, List.mem_map, List.mem_filter, Prod.exists, mem_rows, get?_eq_some_iff]
  constructor
  · rintro ⟨ref, row, ⟨⟨present, _⟩, holds⟩, rfl⟩
    exact ⟨row, present, holds⟩
  · rintro ⟨row, present, holds⟩
    exact ⟨⟨index, t.generationAt index⟩, row, ⟨⟨present, rfl⟩, holds⟩, rfl⟩

theorem map_index_rows (t : SlotTable ρ) :
    t.rows.map (·.1.index) = t.slots.zipIdx.filterMap fun (slot, index) =>
      slot.row.map fun _ => index := by
  simp only [rows, List.map_filterMap]
  congr 1
  funext ⟨slot, index⟩
  cases slot.row <;> rfl

theorem pairwise_index_rows (t : SlotTable ρ) : (t.rows.map (·.1.index)).Pairwise (· < ·) := by
  rw [map_index_rows, List.pairwise_filterMap]
  have ascending : (t.slots.zipIdx).Pairwise fun a b => a.2 < b.2 := by
    have numbers : (t.slots.zipIdx.map (·.2)).Pairwise (· < ·) := by
      rw [List.zipIdx_map_snd]
      exact List.pairwise_lt_range'
    exact List.pairwise_map.mp numbers
  apply ascending.imp
  rintro ⟨a, i⟩ ⟨b, j⟩ less x hx y hy
  obtain ⟨_, _, rfl⟩ := Option.map_eq_some_iff.mp hx
  obtain ⟨_, _, rfl⟩ := Option.map_eq_some_iff.mp hy
  exact less

theorem pairwise_positions (t : SlotTable ρ) (p : ρ → Bool) :
    (t.positions p).Pairwise (· < ·) := by
  have ascending := pairwise_index_rows t
  rw [List.pairwise_map] at ascending
  exact List.pairwise_map.mpr (ascending.filter _)

theorem nodup_positions (t : SlotTable ρ) (p : ρ → Bool) : (t.positions p).Nodup :=
  (pairwise_positions t p).imp Nat.ne_of_lt

theorem rowAt?_modify (t : SlotTable ρ) (index other : Nat) (change : ρ → ρ) :
    (t.modify index change).rowAt? other =
      if other = index then (t.rowAt? index).map change else t.rowAt? other := by
  unfold modify rowAt?
  rw [List.getElem?_modify]
  by_cases same : other = index
  · subst same
    cases t.slots[other]? <;> simp
  · cases t.slots[other]? <;> simp [same, Ne.symm same]

@[simp] theorem generationAt_modify (t : SlotTable ρ) (index other : Nat) (change : ρ → ρ) :
    (t.modify index change).generationAt other = t.generationAt other := by
  unfold modify generationAt
  rw [List.getElem?_modify]
  by_cases same : index = other
  · subst same
    cases t.slots[index]? <;> simp
  · cases t.slots[other]? <;> simp [same]

theorem modify_freeExact {t : SlotTable ρ} (exact : t.FreeExact) (index : Nat) (change : ρ → ρ) :
    (t.modify index change).FreeExact := by
  refine ⟨fun other => ?_, exact.nodup⟩
  rw [rowAt?_modify, show (t.modify index change).free = t.free from rfl, exact.mem_iff]
  by_cases same : other = index
  · subst same
    simp [modify]
  · simp [modify, same]

theorem rowAt?_replace {t : SlotTable ρ} {index : Nat} (within : index < t.slots.length)
    (other : Nat) (row : ρ) :
    (t.replace index row).rowAt? other = if other = index then some row else t.rowAt? other := by
  unfold replace rowAt?
  rw [List.getElem?_modify]
  by_cases same : other = index
  · subst same
    simp [List.getElem?_eq_getElem within]
  · cases t.slots[other]? <;> simp [same, Ne.symm same]

theorem generationAt_replace {t : SlotTable ρ} {index : Nat} (within : index < t.slots.length)
    (other : Nat) (row : ρ) :
    (t.replace index row).generationAt other =
      if other = index then t.generationAt index + 1 else t.generationAt other := by
  unfold replace generationAt
  rw [List.getElem?_modify]
  by_cases same : other = index
  · subst same
    simp [List.getElem?_eq_getElem within]
  · cases t.slots[other]? <;> simp [same, Ne.symm same]

theorem replace_freeExact {t : SlotTable ρ} (exact : t.FreeExact) {index : Nat} {old : ρ}
    (present : t.rowAt? index = some old) (row : ρ) : (t.replace index row).FreeExact := by
  refine ⟨fun other => ?_, exact.nodup⟩
  rw [rowAt?_replace (lt_length_of_rowAt? present),
    show (t.replace index row).free = t.free from rfl, exact.mem_iff]
  by_cases same : other = index
  · subst same
    simp [present]
  · simp [replace, same]

theorem rowAt?_remove (t : SlotTable ρ) (index other : Nat) :
    (t.remove index).rowAt? other = if other = index then none else t.rowAt? other := by
  unfold remove rowAt?
  rw [List.getElem?_modify]
  by_cases same : other = index
  · subst same
    cases t.slots[other]? <;> simp
  · cases t.slots[other]? <;> simp [same, Ne.symm same]

theorem generationAt_remove {t : SlotTable ρ} {index : Nat} (within : index < t.slots.length)
    (other : Nat) :
    (t.remove index).generationAt other =
      if other = index then t.generationAt index + 1 else t.generationAt other := by
  unfold remove generationAt
  rw [List.getElem?_modify]
  by_cases same : other = index
  · subst same
    simp [List.getElem?_eq_getElem within]
  · cases t.slots[other]? <;> simp [same, Ne.symm same]

theorem remove_freeExact {t : SlotTable ρ} (exact : t.FreeExact) {index : Nat} {old : ρ}
    (present : t.rowAt? index = some old) : (t.remove index).FreeExact := by
  have within := lt_length_of_rowAt? present
  constructor
  · intro other
    rw [rowAt?_remove, show (t.remove index).free = index :: t.free from rfl, List.mem_cons,
      exact.mem_iff]
    by_cases same : other = index
    · subst same
      simp [remove, within]
    · simp [remove, same]
  · refine List.nodup_cons.mpr ⟨fun free => ?_, exact.nodup⟩
    have none := ((exact.mem_iff index).mp free).2
    simp [none] at present

theorem insert_of_free {t : SlotTable ρ} {index : Nat} {free : List Nat}
    (first : t.free = index :: free) (row : ρ) :
    t.insert row = (⟨index, t.generationAt index⟩,
      ⟨t.slots.modify index fun slot => { slot with row := some row }, free⟩) := by
  unfold insert
  rw [first]
  simp only [generationAt, List.getElem?_modify_eq, Prod.mk.injEq, SlotRef.mk.injEq, true_and,
    and_true]
  cases t.slots[index]? <;> rfl

theorem insert_of_full {t : SlotTable ρ} (full : t.free = []) (row : ρ) :
    t.insert row = (⟨t.slots.length, 0⟩, { t with slots := t.slots ++ [⟨0, some row⟩] }) := by
  unfold insert
  rw [full]

theorem rowAt?_insert_index {t : SlotTable ρ} (exact : t.FreeExact) (row : ρ) :
    t.rowAt? (t.insert row).1.index = none := by
  cases free : t.free with
  | nil => simp [insert_of_full free, rowAt?]
  | cons index rest =>
    rw [insert_of_free free]
    exact ((exact.mem_iff index).mp (by simp [free])).2

theorem rowAt?_insert {t : SlotTable ρ} (exact : t.FreeExact) (row : ρ) (other : Nat) :
    (t.insert row).2.rowAt? other =
      if other = (t.insert row).1.index then some row else t.rowAt? other := by
  cases free : t.free with
  | nil =>
    rw [insert_of_full free]
    unfold rowAt?
    rw [List.getElem?_append]
    by_cases less : other < t.slots.length
    · simp [less, Nat.ne_of_lt less]
    · by_cases same : other = t.slots.length
      · simp [same]
      · have after : other - t.slots.length ≠ 0 := by omega
        simp [less, same, after]
  | cons index rest =>
    have within := ((exact.mem_iff index).mp (by simp [free])).1
    rw [insert_of_free free]
    unfold rowAt?
    rw [List.getElem?_modify]
    by_cases same : other = index
    · subst same
      simp [List.getElem?_eq_getElem within]
    · cases t.slots[other]? <;> simp [same, Ne.symm same]

@[simp] theorem generationAt_insert (t : SlotTable ρ) (row : ρ) (other : Nat) :
    (t.insert row).2.generationAt other = t.generationAt other := by
  cases free : t.free with
  | nil =>
    rw [insert_of_full free]
    unfold generationAt
    rw [List.getElem?_append]
    by_cases less : other < t.slots.length
    · simp [less]
    · rw [if_neg less, List.getElem?_eq_none (Nat.le_of_not_lt less)]
      cases other - t.slots.length <;> rfl
  | cons index rest =>
    rw [insert_of_free free]
    unfold generationAt
    rw [List.getElem?_modify]
    by_cases same : index = other
    · subst same
      cases t.slots[index]? <;> simp
    · cases t.slots[other]? <;> simp [same]

theorem insert_generation (t : SlotTable ρ) (row : ρ) :
    (t.insert row).1.generation = t.generationAt (t.insert row).1.index := by
  cases free : t.free with
  | nil => simp [insert_of_full free, generationAt]
  | cons index rest => rw [insert_of_free free]

theorem get?_insert {t : SlotTable ρ} (exact : t.FreeExact) (row : ρ) (ref : SlotRef) :
    (t.insert row).2.get? ref = if ref = (t.insert row).1 then some row else t.get? ref := by
  have empty := rowAt?_insert_index exact row
  have number := insert_generation t row
  have rows := rowAt?_insert exact row ref.index
  have generation := generationAt_insert t row ref.index
  generalize (t.insert row).1 = new at *
  ext other
  rw [get?_eq_some_iff, rows, generation]
  by_cases here : ref.index = new.index
  · rw [if_pos here, here, ← number, get?_of_rowAt?_none (here ▸ empty)]
    have same : ref = new ↔ new.generation = ref.generation :=
      ⟨fun equal => equal ▸ rfl, fun equal => by cases ref; cases new; simp_all⟩
    by_cases equal : new.generation = ref.generation <;> simp [same, equal]
  · have differ : ref ≠ new := fun equal => here (equal ▸ rfl)
    rw [if_neg here, if_neg differ, get?_eq_some_iff]

theorem get?_insert_of_get? {t : SlotTable ρ} (exact : t.FreeExact) (row : ρ) {ref : SlotRef}
    {old : ρ} (found : t.get? ref = some old) : (t.insert row).2.get? ref = some old := by
  rw [get?_insert exact, if_neg, found]
  rintro rfl
  rw [get?_of_rowAt?_none (rowAt?_insert_index exact row)] at found
  contradiction

theorem refAt?_insert {t : SlotTable ρ} (exact : t.FreeExact) (row : ρ) (other : Nat) :
    (t.insert row).2.refAt? other =
      if other = (t.insert row).1.index then some (t.insert row).1 else t.refAt? other := by
  rw [refAt?_eq, refAt?_eq, rowAt?_insert exact, generationAt_insert]
  split
  · rename_i here
    rw [here, ← insert_generation]
    rfl
  · rfl

theorem insert_freeExact {t : SlotTable ρ} (exact : t.FreeExact) (row : ρ) :
    (t.insert row).2.FreeExact := by
  have rows := rowAt?_insert exact row
  cases free : t.free with
  | nil =>
    rw [insert_of_full free] at rows ⊢
    refine ⟨fun other => ?_, by simp [free]⟩
    rw [rows]
    have none := exact.mem_iff other
    simp only [free, List.not_mem_nil, false_iff, not_and] at none ⊢
    intro less
    by_cases same : other = t.slots.length
    · simp [same]
    · simp only [List.length_append, List.length_singleton] at less
      rw [if_neg same]
      exact none (by omega)
  | cons index rest =>
    rw [insert_of_free free] at rows ⊢
    have nodup := List.nodup_cons.mp (free ▸ exact.nodup)
    refine ⟨fun other => ?_, nodup.2⟩
    rw [rows]
    have listed := exact.mem_iff other
    rw [free, List.mem_cons] at listed
    by_cases same : other = index
    · subst same
      simp [nodup.1]
    · simpa [same] using listed

theorem get?_modify_of_ne (t : SlotTable ρ) {ref : SlotRef} {index : Nat}
    (elsewhere : ref.index ≠ index) (change : ρ → ρ) :
    (t.modify index change).get? ref = t.get? ref := by
  simp only [get?, modify, List.getElem?_modify_ne _ _ elsewhere.symm]

theorem get?_replace_of_ne (t : SlotTable ρ) {ref : SlotRef} {index : Nat}
    (elsewhere : ref.index ≠ index) (row : ρ) : (t.replace index row).get? ref = t.get? ref := by
  simp only [get?, replace, List.getElem?_modify_ne _ _ elsewhere.symm]

theorem get?_remove_of_ne (t : SlotTable ρ) {ref : SlotRef} {index : Nat}
    (elsewhere : ref.index ≠ index) : (t.remove index).get? ref = t.get? ref := by
  simp only [get?, remove, List.getElem?_modify_ne _ _ elsewhere.symm]

/-- Two references that find rows in one slot are one. -/
theorem ref_unique {t : SlotTable ρ} {a b : SlotRef} {x y : ρ} (first : t.get? a = some x)
    (second : t.get? b = some y) (same : a.index = b.index) : a = b := by
  have number := (get?_eq_some_iff.mp first).2
  rw [same, (get?_eq_some_iff.mp second).2] at number
  cases a
  cases b
  simp_all

/-- A table in which some slots, each once, have begun a generation with the row that they held. -/
structure Renewed (t : SlotTable ρ) (indexes : List Nat) (after : SlotTable ρ) : Prop where
  rowAt? : ∀ index, after.rowAt? index = t.rowAt? index
  generationAt : ∀ index, after.generationAt index =
    if index ∈ indexes then t.generationAt index + 1 else t.generationAt index
  free : after.free = t.free

theorem renewed_none (t : SlotTable ρ) : t.Renewed [] t := ⟨by simp, by simp, rfl⟩

theorem Renewed.next {t after : SlotTable ρ} {indexes : List Nat}
    (renewed : t.Renewed indexes after) {index : Nat} {row : ρ}
    (present : t.rowAt? index = some row) (new : index ∉ indexes) :
    t.Renewed (indexes ++ [index]) (after.replace index row) := by
  have within : index < after.slots.length :=
    lt_length_of_rowAt? ((renewed.rowAt? index).trans present)
  refine ⟨fun other => ?_, fun other => ?_, renewed.free⟩
  · rw [rowAt?_replace within]
    split
    · rename_i same
      rw [same, present]
    · exact renewed.rowAt? other
  · rw [generationAt_replace within]
    by_cases same : other = index <;> simp [same, new, renewed.generationAt]

/-- A table in which every row has been put in its place again. -/
structure AllRenewed (t after : SlotTable ρ) : Prop where
  rowAt? : ∀ index, after.rowAt? index = t.rowAt? index
  generationAt : ∀ index, after.generationAt index =
    if (t.rowAt? index).isSome then t.generationAt index + 1 else t.generationAt index
  free : after.free = t.free

theorem Renewed.all {t after : SlotTable ρ} {indexes : List Nat}
    (renewed : t.Renewed indexes after)
    (listed : ∀ index, index ∈ indexes ↔ (t.rowAt? index).isSome = true) : t.AllRenewed after where
  rowAt? := renewed.rowAt?
  generationAt index := by simp only [renewed.generationAt, listed]
  free := renewed.free

namespace AllRenewed

variable {t after : SlotTable ρ}

theorem refAt? (renewed : t.AllRenewed after) (index : Nat) :
    after.refAt? index = (t.refAt? index).map SlotRef.next := by
  rw [refAt?_eq, refAt?_eq, renewed.rowAt?, renewed.generationAt]
  cases t.rowAt? index <;> rfl

theorem get?_next (renewed : t.AllRenewed after) (ref : SlotRef) :
    after.get? ref.next = t.get? ref := by
  refine Option.ext fun row => ?_
  rw [get?_eq_some_iff, get?_eq_some_iff, SlotRef.next, renewed.rowAt?, renewed.generationAt]
  refine and_congr_right fun present => ?_
  rw [present, Option.isSome_some, if_pos rfl, UInt32.add_left_inj]

theorem get?_eq_none (renewed : t.AllRenewed after) {ref : SlotRef} {row : ρ}
    (found : t.get? ref = some row) : after.get? ref = none := by
  obtain ⟨present, current⟩ := get?_eq_some_iff.mp found
  cases alive : after.get? ref with
  | none => rfl
  | some other =>
    have same := (get?_eq_some_iff.mp alive).2
    rw [renewed.generationAt, present, current, Option.isSome_some, if_pos rfl] at same
    simp at same

end AllRenewed

/-- The table without the rows that satisfy `p`. -/
def sweep (t : SlotTable ρ) (p : ρ → Bool) : SlotTable ρ := (t.positions p).foldl remove t

/-- A table from which slots that held rows have been emptied, each once. -/
structure Emptied (t : SlotTable ρ) (indexes : List Nat) (after : SlotTable ρ) : Prop where
  rowAt? : ∀ index, after.rowAt? index = if index ∈ indexes then none else t.rowAt? index
  generationAt : ∀ index, after.generationAt index =
    if index ∈ indexes then t.generationAt index + 1 else t.generationAt index
  free : t.FreeExact → after.FreeExact

theorem foldl_remove {t : SlotTable ρ} {indexes : List Nat} (distinct : indexes.Nodup)
    (present : ∀ index ∈ indexes, ∃ row, t.rowAt? index = some row) :
    t.Emptied indexes (indexes.foldl remove t) := by
  induction indexes generalizing t with
  | nil => exact ⟨by simp, by simp, id⟩
  | cons first rest ih =>
    obtain ⟨fresh, distinct⟩ := List.nodup_cons.mp distinct
    obtain ⟨row, here⟩ := present first List.mem_cons_self
    have elsewhere : ∀ index ∈ rest, index ≠ first := fun index listed same => fresh (same ▸ listed)
    have emptied : (t.remove first).Emptied rest (rest.foldl remove (t.remove first)) := by
      refine ih distinct fun index listed => ?_
      rw [rowAt?_remove, if_neg (elsewhere index listed)]
      exact present index (List.mem_cons_of_mem _ listed)
    have within := lt_length_of_rowAt? here
    refine ⟨fun index => ?_, fun index => ?_, fun exact => ?_⟩
    · rw [List.foldl_cons, emptied.rowAt?, rowAt?_remove]
      by_cases same : index = first <;> simp [same]
    · rw [List.foldl_cons, emptied.generationAt, generationAt_remove within]
      by_cases same : index = first <;> simp [same, fresh]
    · exact emptied.free (remove_freeExact exact here)

theorem sweep_emptied (t : SlotTable ρ) (p : ρ → Bool) :
    t.Emptied (t.positions p) (t.sweep p) := by
  refine foldl_remove (nodup_positions t p) fun index listed => ?_
  obtain ⟨row, present, _⟩ := mem_positions.mp listed
  exact ⟨row, present⟩

theorem rowAt?_sweep {t : SlotTable ρ} {p : ρ → Bool} {index : Nat} {row : ρ} :
    (t.sweep p).rowAt? index = some row ↔ t.rowAt? index = some row ∧ p row = false := by
  rw [(sweep_emptied t p).rowAt?]
  split
  · rename_i listed
    obtain ⟨old, present, holds⟩ := mem_positions.mp listed
    simp only [reduceCtorEq, present, Option.some.injEq, false_iff, not_and, Bool.not_eq_false]
    exact fun same => same ▸ holds
  · rename_i kept
    refine ⟨fun present => ⟨present, ?_⟩, And.left⟩
    exact Bool.eq_false_iff.mpr fun holds => kept (mem_positions.mpr ⟨row, present, holds⟩)

theorem generationAt_sweep {t : SlotTable ρ} {p : ρ → Bool} {index : Nat} {row : ρ}
    (present : t.rowAt? index = some row) :
    (t.sweep p).generationAt index =
      if p row then t.generationAt index + 1 else t.generationAt index := by
  rw [(sweep_emptied t p).generationAt]
  have listed : index ∈ t.positions p ↔ p row = true := by
    rw [mem_positions]
    exact ⟨fun ⟨old, there, holds⟩ => Option.some.inj (present.symm.trans there) ▸ holds,
      fun holds => ⟨row, present, holds⟩⟩
  simp only [listed]

theorem get?_sweep {t : SlotTable ρ} {p : ρ → Bool} {ref : SlotRef} {row : ρ}
    (found : t.get? ref = some row) (kept : p row = false) : (t.sweep p).get? ref = some row := by
  obtain ⟨present, generation⟩ := get?_eq_some_iff.mp found
  refine get?_eq_some_iff.mpr ⟨rowAt?_sweep.mpr ⟨present, kept⟩, ?_⟩
  rw [generationAt_sweep present, kept, generation]
  rfl

theorem get?_sweep_iff {t : SlotTable ρ} {p : ρ → Bool} {ref : SlotRef} {row : ρ} :
    (t.sweep p).get? ref = some row ↔ t.get? ref = some row ∧ p row = false := by
  refine ⟨fun found => ?_, fun ⟨found, kept⟩ => get?_sweep found kept⟩
  obtain ⟨placed, generation⟩ := get?_eq_some_iff.mp found
  obtain ⟨present, kept⟩ := rowAt?_sweep.mp placed
  rw [generationAt_sweep present, kept] at generation
  exact ⟨get?_eq_some_iff.mpr ⟨present, generation⟩, kept⟩

/-- What is left is listed in the same order as before. -/
theorem rows_sweep (t : SlotTable ρ) (p : ρ → Bool) :
    (t.sweep p).rows = t.rows.filter fun (_, row) => !p row := by
  have ascending : ∀ s : SlotTable ρ, s.rows.Pairwise fun a b => a.1.index < b.1.index :=
    fun s => List.pairwise_map.mp (pairwise_index_rows s)
  have distinct : ∀ {l : List (SlotRef × ρ)}, l.Pairwise (fun a b => a.1.index < b.1.index) →
      l.Nodup := by
    intro l sorted
    refine sorted.imp ?_
    rintro a _ less rfl
    exact Nat.lt_irrefl _ less
  have swept := ascending (t.sweep p)
  have kept := (ascending t).filter fun (_, row) => !p row
  have members := (List.perm_ext_iff_of_nodup (distinct swept) (distinct kept)).mpr ?_
  · exact members.eq_of_pairwise (fun a b _ _ less more => absurd more (Nat.lt_asymm less)) swept kept
  · rintro ⟨ref, row⟩
    rw [mem_rows, get?_sweep_iff, List.mem_filter, mem_rows, Bool.not_eq_true']
theorem refAt?_sweep (t : SlotTable ρ) (p : ρ → Bool) (index : Nat) :
    (t.sweep p).refAt? index = (t.refAt? index).filter fun ref => ((t.sweep p).get? ref).isSome := by
  rw [refAt?_eq, refAt?_eq]
  cases present : t.rowAt? index with
  | none =>
    cases left : (t.sweep p).rowAt? index with
    | none => rfl
    | some row => cases present.symm.trans (rowAt?_sweep.mp left).1
  | some row =>
    have found : t.get? ⟨index, t.generationAt index⟩ = some row := get?_eq_some_iff.mpr ⟨present, rfl⟩
    rw [Option.map_some, Option.filter_some]
    cases gone : p row with
    | false =>
      rw [rowAt?_sweep.mpr ⟨present, gone⟩, get?_sweep found gone, generationAt_sweep present, gone]
      rfl
    | true =>
      have emptied : (t.sweep p).rowAt? index = none := by
        rw [(sweep_emptied t p).rowAt?, if_pos (mem_positions.mpr ⟨row, present, gone⟩)]
      rw [emptied, get?_of_rowAt?_none emptied]
      rfl

theorem sweep_freeExact {t : SlotTable ρ} (exact : t.FreeExact) (p : ρ → Bool) :
    (t.sweep p).FreeExact :=
  (sweep_emptied t p).free exact

/-- Every slot of `a` keeps its row in `b`, which may have grown, or has begun one generation. -/
def Succeeds (grows : ρ → ρ → Prop) (a b : SlotTable ρ) : Prop :=
  ∀ index,
    (b.generationAt index = a.generationAt index ∧
      ∀ row, a.rowAt? index = some row → ∃ later, b.rowAt? index = some later ∧ grows row later) ∨
    b.generationAt index = a.generationAt index + 1

theorem Succeeds.refl {grows : ρ → ρ → Prop} (same : ∀ row, grows row row) (t : SlotTable ρ) :
    Succeeds grows t t :=
  fun _ => .inl ⟨rfl, fun row present => ⟨row, present, same row⟩⟩

theorem insert_succeeds {grows : ρ → ρ → Prop} (same : ∀ row, grows row row) {t : SlotTable ρ}
    (exact : t.FreeExact) (row : ρ) : Succeeds grows t (t.insert row).2 := by
  refine fun index => .inl ⟨generationAt_insert t row index, fun old present => ⟨old, ?_, same old⟩⟩
  rw [rowAt?_insert exact]
  split
  · rename_i here
    rw [here, rowAt?_insert_index exact] at present
    contradiction
  · exact present

theorem remove_succeeds {grows : ρ → ρ → Prop} (same : ∀ row, grows row row) {t : SlotTable ρ}
    {index : Nat} (within : index < t.slots.length) : Succeeds grows t (t.remove index) := by
  intro other
  rw [generationAt_remove within, rowAt?_remove]
  by_cases here : other = index
  · subst here
    exact .inr (if_pos rfl)
  · rw [if_neg here, if_neg here]
    exact .inl ⟨rfl, fun old present => ⟨old, present, same old⟩⟩

theorem sweep_succeeds {grows : ρ → ρ → Prop} (same : ∀ row, grows row row) (t : SlotTable ρ)
    (p : ρ → Bool) : Succeeds grows t (t.sweep p) := by
  intro index
  rw [(sweep_emptied t p).generationAt, (sweep_emptied t p).rowAt?]
  by_cases listed : index ∈ t.positions p
  · exact .inr (if_pos listed)
  · rw [if_neg listed, if_neg listed]
    exact .inl ⟨rfl, fun old present => ⟨old, present, same old⟩⟩

theorem modify_succeeds {grows : ρ → ρ → Prop} (same : ∀ row, grows row row) {t : SlotTable ρ}
    {index : Nat} {change : ρ → ρ}
    (grown : ∀ row, t.rowAt? index = some row → grows row (change row)) :
    Succeeds grows t (t.modify index change) := by
  refine fun other => .inl ⟨generationAt_modify t index other change, fun old present => ?_⟩
  rw [rowAt?_modify]
  by_cases here : other = index
  · subst here
    exact ⟨change old, by simp [present], grown old present⟩
  · exact ⟨old, by simp [here, present], same old⟩

end SlotTable

end TypeCatalog
