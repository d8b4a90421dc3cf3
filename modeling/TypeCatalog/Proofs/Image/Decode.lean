import Mathlib.Data.List.Nodup
import TypeCatalog.Image.Decode

/-!
What a decoded image is made of. Its callables and accessors are those of the slots that it names,
each callable takes as many arguments as its member has parameters, and no type occurs twice.
-/
namespace TypeCatalog.Image

theorem mapM_eq_ok {ε α β : Type} (f : α → Except ε β) (xs : List α) (ys : List β) :
    xs.mapM f = .ok ys ↔ xs.map f = ys.map .ok := by
  induction xs generalizing ys with
  | nil => cases ys <;> simp [pure, Except.pure]
  | cons x xs ih =>
    rw [List.mapM_cons]
    cases first : f x with
    | error e => cases ys <;> simp [bind, Except.bind, first]
    | ok y =>
      cases rest : xs.mapM f with
      | error e =>
        cases ys with
        | nil => simp [bind, Except.bind]
        | cons z zs => simp [bind, Except.bind, first, ← ih, rest]
      | ok zs =>
        cases ys with
        | nil => simp [bind, Except.bind, pure, Except.pure]
        | cons z zs => simp [bind, Except.bind, pure, Except.pure, first, ← ih, rest]

theorem readAll_eq_ok {α : Type} {count : UInt32} {corrupt : Nat → MergeError}
    {read? : Nat → Option α} {records : List α} :
    View.readAll count corrupt read? = .ok records ↔
      (List.range count.toNat).map read? = records.map some := by
  rw [View.readAll, mapM_eq_ok]
  generalize List.range count.toNat = indexes
  induction indexes generalizing records with
  | nil => cases records <;> simp
  | cons index indexes ih =>
    cases records with
    | nil => simp
    | cons record records =>
      cases found : read? index <;> simp [found, ih]

theorem mem_of_readAll {α : Type} {count : UInt32} {corrupt : Nat → MergeError}
    {read? : Nat → Option α} {records : List α}
    (accepted : View.readAll count corrupt read? = .ok records) {record : α}
    (member : record ∈ records) : ∃ index < count.toNat, read? index = some record := by
  have listed : some record ∈ (List.range count.toNat).map read? := by
    rw [readAll_eq_ok.mp accepted]
    exact List.mem_map_of_mem member
  obtain ⟨index, within, found⟩ := List.mem_map.mp listed
  exact ⟨index, List.mem_range.mp within, found⟩

theorem mem_of_pick? {α : Type} {span : Span} {entries picked : List α}
    (found : span.pick? entries = some picked) {x : α} (member : x ∈ picked) : x ∈ entries := by
  obtain ⟨⟨first, last⟩, _, rfl⟩ := Option.map_eq_some_iff.mp found
  exact List.mem_of_mem_drop (List.mem_of_mem_take member)

/-- Whether a callable is in the slots and takes a number of arguments. -/
def Backed (exports : ExportTable) (callable : Callable) (arity : Nat) : Prop :=
  callable.arity = arity ∧ ∃ slot, exports.callable? slot = some callable

structure ReadType.Backed (exports : ExportTable) (type : ReadType) : Prop where
  fields : ∀ f ∈ type.fields, ∃ slot, exports.accessor? slot = some f.accessor
  methods : ∀ m ∈ type.methods, Image.Backed exports m.callable m.params.length
  constructors : ∀ c ∈ type.constructors, Image.Backed exports c.callable c.params.length

namespace View

theorem field?_backed {v : View} {exports : ExportTable} {attributes : List ReadAttribute}
    {index : Nat} {f : ReadField} (found : v.field? exports attributes index = some f) :
    ∃ slot, exports.accessor? slot = some f.accessor := by
  simp only [field?, Option.bind_eq_bind, Option.bind_eq_some_iff] at found
  obtain ⟨record, _, name, _, accessor, held, attributes, _, made⟩ := found
  cases Option.some.inj made
  exact ⟨record.slot, held⟩

theorem callable?_backed {v : View} {exports : ExportTable} {slots : UInt64} {index arity : Nat}
    {c : Callable} (found : v.callable? exports slots index arity = some c) :
    Backed exports c arity := by
  simp only [callable?, Option.bind_eq_bind, Option.bind_eq_some_iff] at found
  obtain ⟨slot, _, held⟩ := found
  obtain ⟨there, arity⟩ := Option.filter_eq_some_iff.mp held
  exact ⟨of_decide_eq_true arity, slot, there⟩

theorem method?_backed {v : View} {exports : ExportTable} {attributes : List ReadAttribute}
    {index : Nat} {m : ReadMethod} (found : v.method? exports attributes index = some m) :
    Backed exports m.callable m.params.length := by
  simp only [method?, Option.bind_eq_bind, Option.bind_eq_some_iff] at found
  obtain ⟨record, _, name, _, params, _, flags, _, callable, held, attributes, _, made⟩ := found
  cases Option.some.inj made
  exact callable?_backed held

theorem constructor?_backed {v : View} {exports : ExportTable} {attributes : List ReadAttribute}
    {index : Nat} {c : ReadConstructor}
    (found : v.constructor? exports attributes index = some c) :
    Backed exports c.callable c.params.length := by
  simp only [constructor?, Option.bind_eq_bind, Option.bind_eq_some_iff] at found
  obtain ⟨record, _, params, _, callable, held, attributes, _, made⟩ := found
  cases Option.some.inj made
  exact callable?_backed held

theorem type?_members {v : View} {members : Members} {index : Nat} {t : ReadType}
    (found : v.type? members index = some t) :
    v.typeHash? index = some t.typeHash ∧ (∀ f ∈ t.fields, f ∈ members.fields) ∧
      (∀ m ∈ t.methods, m ∈ members.methods) ∧
      ∀ c ∈ t.constructors, c ∈ members.constructors := by
  simp only [type?, Option.bind_eq_bind, Option.bind_eq_some_iff] at found
  obtain ⟨record, here, name, _, flags, _, fields, pickedFields, methods, pickedMethods,
    constructors, pickedConstructors, attributes, _, made⟩ := found
  cases Option.some.inj made
  refine ⟨by simp [typeHash?, here], ?_, ?_, ?_⟩
  · exact fun f => mem_of_pick? pickedFields
  · exact fun m => mem_of_pick? pickedMethods
  · exact fun c => mem_of_pick? pickedConstructors

end View

/-- The sections that a decoded image has gone through. -/
theorem decode_eq_ok {exports : ExportTable} {bytes : List UInt8} {types : List ReadType} :
    decode exports bytes = .ok types ↔ ∃ v attributes fields methods constructors,
      View.ofBytes bytes = .ok v ∧
      View.readAll v.header.counts.attributes .corruptAttributeRecord v.attribute? =
        .ok attributes ∧
      View.readAll v.header.counts.fields .corruptFieldRecord (v.field? exports attributes) =
        .ok fields ∧
      View.readAll v.header.counts.methods .corruptMethodRecord (v.method? exports attributes) =
        .ok methods ∧
      View.readAll v.header.counts.constructors .corruptConstructorRecord
        (v.constructor? exports attributes) = .ok constructors ∧
      View.readAll v.header.counts.types .corruptTypeRecord (fun index =>
        if v.isRepeated index then none
        else v.type? ⟨fields, methods, constructors, attributes⟩ index) = .ok types := by
  have bind_ok : ∀ {α β : Type} {x : Except MergeError α} {f : α → Except MergeError β} {b : β},
      x >>= f = .ok b ↔ ∃ a, x = .ok a ∧ f a = .ok b := by
    intro α β x f b
    cases x <;> simp [bind, Except.bind]
  unfold decode
  simp only [bind_ok]
  constructor
  · rintro ⟨v, hv, attributes, ha, fields, hf, methods, hm, constructors, hc, ht⟩
    exact ⟨v, attributes, fields, methods, constructors, hv, ha, hf, hm, hc, ht⟩
  · rintro ⟨v, attributes, fields, methods, constructors, hv, ha, hf, hm, hc, ht⟩
    exact ⟨v, hv, attributes, ha, fields, hf, methods, hm, constructors, hc, ht⟩

theorem decode_backed {exports : ExportTable} {bytes : List UInt8} {types : List ReadType}
    (accepted : decode exports bytes = .ok types) : ∀ t ∈ types, t.Backed exports := by
  obtain ⟨v, attributes, fields, methods, constructors, _, _, hf, hm, hc, ht⟩ :=
    decode_eq_ok.mp accepted
  intro t member
  obtain ⟨index, _, found⟩ := mem_of_readAll ht member
  split at found
  · contradiction
  · obtain ⟨_, fromFields, fromMethods, fromConstructors⟩ := View.type?_members found
    constructor
    · intro f listed
      obtain ⟨i, _, here⟩ := mem_of_readAll hf (fromFields f listed)
      exact View.field?_backed here
    · intro m listed
      obtain ⟨i, _, here⟩ := mem_of_readAll hm (fromMethods m listed)
      exact View.method?_backed here
    · intro c listed
      obtain ⟨i, _, here⟩ := mem_of_readAll hc (fromConstructors c listed)
      exact View.constructor?_backed here

/-- No hash occurs twice among the types of an image. -/
theorem decode_nodup {exports : ExportTable} {bytes : List UInt8} {types : List ReadType}
    (accepted : decode exports bytes = .ok types) : (types.map ReadType.typeHash).Nodup := by
  obtain ⟨v, attributes, fields, methods, constructors, _, _, _, _, _, ht⟩ :=
    decode_eq_ok.mp accepted
  have read := readAll_eq_ok.mp ht
  have at_index : ∀ {i : Nat} {t : ReadType}, types[i]? = some t →
      v.isRepeated i = false ∧ v.typeHash? i = some t.typeHash := by
    intro i t here
    have there : ((List.range v.header.counts.types.toNat).map fun index =>
        if v.isRepeated index then none
        else v.type? ⟨fields, methods, constructors, attributes⟩ index)[i]? = some (some t) := by
      rw [read, List.getElem?_map, here]
      rfl
    obtain ⟨index, range, found⟩ : ∃ index, (List.range v.header.counts.types.toNat)[i]? =
        some index ∧ (if v.isRepeated index then none
          else v.type? ⟨fields, methods, constructors, attributes⟩ index) = some t := by
      simpa only [List.getElem?_map, Option.map_eq_some_iff] using there
    obtain ⟨_, same⟩ := List.getElem?_eq_some_iff.mp range
    rw [List.getElem_range] at same
    subst same
    split at found
    · contradiction
    · rename_i first
      exact ⟨by simpa using first, (View.type?_members found).1⟩
  rw [List.nodup_iff_getElem?_ne_getElem?]
  intro i j less within same
  rw [List.length_map] at within
  have later := at_index (List.getElem?_eq_getElem within)
  have earlier := at_index (List.getElem?_eq_getElem (Nat.lt_trans less within))
  simp only [List.getElem?_map, List.getElem?_eq_getElem within,
    List.getElem?_eq_getElem (Nat.lt_trans less within), Option.map_some, Option.some.injEq] at same
  have repeated : v.isRepeated j = true :=
    List.any_eq_true.mpr ⟨i, List.mem_range.mpr less, by
      rw [decide_eq_true_eq, earlier.2, later.2, same]⟩
  rw [later.1] at repeated
  contradiction

end TypeCatalog.Image
