import TypeCatalog.Proofs.Image.Bounds

/-!
Why an image is rejected whose header has passed. All its records can be read, so something is wrong
with what one of them says: with a text, a kind of value, a run of entries, a slot or a flag that
there is not, or with a type that an earlier record has brought already.
-/
namespace TypeCatalog.Image

/-- A run that goes beyond the entries of its section. -/
def Span.Outside (s : Span) (count : UInt32) : Prop := count.toNat < s.start.toNat + s.count.toNat

theorem Span.pick?_eq_none {α : Type} {s : Span} {entries : List α} {count : UInt32}
    (length : entries.length = count.toNat) : s.pick? entries = none ↔ s.Outside count := by
  rw [pick?, Option.map_eq_none_iff, within?, length, Outside]
  split <;> simp <;> omega

theorem exists_mapM {α β : Type} {f : α → Option β} {xs : List α}
    (each : ∀ x ∈ xs, ∃ y, f x = some y) :
    ∃ ys, xs.mapM f = some ys ∧ ys.length = xs.length := by
  induction xs with
  | nil => exact ⟨[], rfl, rfl⟩
  | cons x xs ih =>
    obtain ⟨y, here⟩ := each x List.mem_cons_self
    obtain ⟨ys, there, length⟩ := ih fun x listed => each x (List.mem_cons_of_mem _ listed)
    exact ⟨y :: ys, by rw [List.mapM_cons, here, there]; rfl, by simp [length]⟩

theorem exists_of_mapM_eq_error {ε α β : Type} {f : α → Except ε β} {xs : List α} {e : ε}
    (failed : xs.mapM f = .error e) : ∃ x ∈ xs, f x = .error e := by
  induction xs with
  | nil => contradiction
  | cons x xs ih =>
    rw [List.mapM_cons] at failed
    cases here : f x with
    | error other =>
      rw [here] at failed
      cases failed
      exact ⟨x, List.mem_cons_self, here⟩
    | ok y =>
      cases there : xs.mapM f with
      | error other =>
        rw [here, there] at failed
        cases failed
        obtain ⟨x, listed, fails⟩ := ih there
        exact ⟨x, List.mem_cons_of_mem _ listed, fails⟩
      | ok ys =>
        rw [here, there] at failed
        contradiction

namespace View

variable {α : Type} {count : UInt32} {corrupt : Nat → MergeError} {read? : Nat → Option α}

theorem length_of_readAll {records : List α}
    (accepted : readAll count corrupt read? = .ok records) : records.length = count.toNat := by
  simpa using (congrArg List.length (readAll_eq_ok.mp accepted)).symm

theorem exists_of_readAll_eq_error {e : MergeError}
    (failed : readAll count corrupt read? = .error e) :
    ∃ index < count.toNat, read? index = none ∧ e = corrupt index := by
  obtain ⟨index, listed, fails⟩ := exists_of_mapM_eq_error failed
  refine ⟨index, List.mem_range.mp listed, ?_⟩
  cases found : read? index with
  | some record => simp [found] at fails
  | none => exact ⟨rfl, by simpa [found] using fails.symm⟩

theorem Checked.params? {v : View} (checked : v.Checked) (span : Span) :
    (span.Outside v.header.counts.params ∧ v.params? span = none) ∨
      ∃ params, v.params? span = some params ∧ params.length = span.count.toNat := by
  rw [View.params?, Span.within?, Span.Outside]
  split
  case isFalse beyond => exact .inl ⟨Nat.lt_of_not_le beyond, rfl⟩
  case isTrue within =>
    have each : ∀ index ∈ List.range' span.start.toNat
        (span.start.toNat + span.count.toNat - span.start.toNat),
        ∃ hash, (v.record? read64 wordSize v.header.offsets.params index).map TypeHash.mk =
          some hash := by
      intro index listed
      have below := (List.mem_range'_1.mp listed).2
      obtain ⟨word, found⟩ := checked.readable.params index (by omega)
      exact ⟨⟨word⟩, by rw [found]; rfl⟩
    obtain ⟨params, read, length⟩ := exists_mapM each
    rw [List.length_range', Nat.add_sub_cancel_left] at length
    exact .inr ⟨params, read, length⟩

end View

def AttributeRecord.Flawed (v : View) (a : AttributeRecord) : Prop :=
  v.text? a.key = none ∨ v.attributeValue? a.kind a.payload = none

def FieldRecord.Flawed (v : View) (exports : ExportTable) (f : FieldRecord) : Prop :=
  v.text? f.name = none ∨ exports.accessor? f.slot = none ∨
    f.attributes.Outside v.header.counts.attributes

/-- A slot that holds no callable for this many arguments. -/
def Unfit (exports : ExportTable) (slot : UInt64) (arity : Nat) : Prop :=
  ∀ c, exports.callable? slot = some c → c.arity ≠ arity

def MethodRecord.Flawed (v : View) (exports : ExportTable) (slot : UInt64) (m : MethodRecord) :
    Prop :=
  v.text? m.name = none ∨ m.params.Outside v.header.counts.params ∨
    MethodFlags.ofBits? m.flags = none ∨ Unfit exports slot m.params.count.toNat ∨
    m.attributes.Outside v.header.counts.attributes

def ConstructorRecord.Flawed (v : View) (exports : ExportTable) (slot : UInt64)
    (c : ConstructorRecord) : Prop :=
  c.params.Outside v.header.counts.params ∨ Unfit exports slot c.params.count.toNat ∨
    c.attributes.Outside v.header.counts.attributes

/-- The record at an index may also bring a type that an earlier one has brought. -/
def TypeRecord.Flawed (v : View) (index : Nat) (t : TypeRecord) : Prop :=
  (∃ earlier < index, v.typeHash? earlier = some ⟨t.typeHash⟩) ∨ v.text? t.name = none ∨
    TypeFlags.ofBits? t.flags = none ∨ t.fields.Outside v.header.counts.fields ∨
    t.methods.Outside v.header.counts.methods ∨
    t.constructors.Outside v.header.counts.constructors ∨
    t.attributes.Outside v.header.counts.attributes

namespace View

/-- An error that names a record which has been read and is flawed. -/
inductive Rejects (v : View) (exports : ExportTable) : MergeError → Prop where
  | attribute {index : Nat} {a : AttributeRecord}
      (below : index < v.header.counts.attributes.toNat)
      (read : v.record? AttributeRecord.read attributeSize v.header.offsets.attributes index =
        some a)
      (flawed : a.Flawed v) : Rejects v exports (.corruptAttributeRecord index)
  | field {index : Nat} {f : FieldRecord} (below : index < v.header.counts.fields.toNat)
      (read : v.record? FieldRecord.read fieldSize v.header.offsets.fields index = some f)
      (flawed : f.Flawed v exports) : Rejects v exports (.corruptFieldRecord index)
  | method {index : Nat} {m : MethodRecord} {slot : UInt64}
      (below : index < v.header.counts.methods.toNat)
      (read : v.record? MethodRecord.read methodSize v.header.offsets.methods index = some m)
      (word : v.record? read64 wordSize v.header.offsets.methodSlots index = some slot)
      (flawed : m.Flawed v exports slot) : Rejects v exports (.corruptMethodRecord index)
  | constructor {index : Nat} {c : ConstructorRecord} {slot : UInt64}
      (below : index < v.header.counts.constructors.toNat)
      (read : v.record? ConstructorRecord.read constructorSize v.header.offsets.constructors index =
        some c)
      (word : v.record? read64 wordSize v.header.offsets.constructorSlots index = some slot)
      (flawed : c.Flawed v exports slot) : Rejects v exports (.corruptConstructorRecord index)
  | type {index : Nat} {t : TypeRecord} (below : index < v.header.counts.types.toNat)
      (read : v.record? TypeRecord.read typeSize v.header.offsets.types index = some t)
      (flawed : t.Flawed v index) : Rejects v exports (.corruptTypeRecord index)

variable {v : View} {exports : ExportTable} {index : Nat} {attributes : List ReadAttribute}

theorem attribute?_flawed {a : AttributeRecord}
    (read : v.record? AttributeRecord.read attributeSize v.header.offsets.attributes index = some a)
    (rejected : v.attribute? index = none) : a.Flawed v := by
  rw [attribute?, read] at rejected
  cases key : v.text? a.key with
  | none => exact .inl key
  | some text =>
    cases value : v.attributeValue? a.kind a.payload with
    | none => exact .inr value
    | some held => simp [key, value] at rejected

theorem field?_flawed {f : FieldRecord}
    (read : v.record? FieldRecord.read fieldSize v.header.offsets.fields index = some f)
    (length : attributes.length = v.header.counts.attributes.toNat)
    (rejected : v.field? exports attributes index = none) : f.Flawed v exports := by
  rw [field?, read] at rejected
  cases name : v.text? f.name with
  | none => exact .inl name
  | some text =>
    cases accessor : exports.accessor? f.slot with
    | none => exact .inr (.inl accessor)
    | some held =>
      cases picked : f.attributes.pick? attributes with
      | none => exact .inr (.inr ((Span.pick?_eq_none length).mp picked))
      | some run => simp [name, accessor, picked] at rejected

theorem callable?_unfit {slots slot : UInt64} {arity : Nat}
    (word : v.record? read64 wordSize slots index = some slot)
    (rejected : v.callable? exports slots index arity = none) : Unfit exports slot arity := by
  intro c held same
  simp [callable?, word, held, same] at rejected

theorem method?_flawed (checked : v.Checked) {m : MethodRecord} {slot : UInt64}
    (read : v.record? MethodRecord.read methodSize v.header.offsets.methods index = some m)
    (word : v.record? read64 wordSize v.header.offsets.methodSlots index = some slot)
    (length : attributes.length = v.header.counts.attributes.toNat)
    (rejected : v.method? exports attributes index = none) : m.Flawed v exports slot := by
  rw [method?, read] at rejected
  cases name : v.text? m.name with
  | none => exact .inl name
  | some text =>
  refine .inr ?_
  obtain ⟨outside, _⟩ | ⟨params, found, arity⟩ := checked.params? m.params
  · exact .inl outside
  cases flags : MethodFlags.ofBits? m.flags with
  | none => exact .inr (.inl rfl)
  | some known =>
  refine .inr (.inr ?_)
  cases callable : v.callable? exports v.header.offsets.methodSlots index params.length with
  | none => exact .inl (arity ▸ callable?_unfit word callable)
  | some held =>
  cases picked : m.attributes.pick? attributes with
  | none => exact .inr ((Span.pick?_eq_none length).mp picked)
  | some run => simp [name, found, flags, callable, picked] at rejected

theorem constructor?_flawed (checked : v.Checked) {c : ConstructorRecord} {slot : UInt64}
    (read : v.record? ConstructorRecord.read constructorSize v.header.offsets.constructors index =
      some c)
    (word : v.record? read64 wordSize v.header.offsets.constructorSlots index = some slot)
    (length : attributes.length = v.header.counts.attributes.toNat)
    (rejected : v.constructor? exports attributes index = none) : c.Flawed v exports slot := by
  rw [constructor?, read] at rejected
  obtain ⟨outside, _⟩ | ⟨params, found, arity⟩ := checked.params? c.params
  · exact .inl outside
  refine .inr ?_
  cases callable : v.callable? exports v.header.offsets.constructorSlots index params.length with
  | none => exact .inl (arity ▸ callable?_unfit word callable)
  | some held =>
  cases picked : c.attributes.pick? attributes with
  | none => exact .inr ((Span.pick?_eq_none length).mp picked)
  | some run => simp [found, callable, picked] at rejected

theorem type?_flawed {t : TypeRecord} {members : Members}
    (read : v.record? TypeRecord.read typeSize v.header.offsets.types index = some t)
    (fieldCount : members.fields.length = v.header.counts.fields.toNat)
    (methodCount : members.methods.length = v.header.counts.methods.toNat)
    (constructorCount : members.constructors.length = v.header.counts.constructors.toNat)
    (attributeCount : members.attributes.length = v.header.counts.attributes.toNat)
    (rejected : (if v.isRepeated index then none else v.type? members index) = none) :
    t.Flawed v index := by
  split at rejected
  case isTrue repeated =>
    obtain ⟨earlier, listed, same⟩ := List.any_eq_true.mp repeated
    refine .inl ⟨earlier, List.mem_range.mp listed, (of_decide_eq_true same).trans ?_⟩
    rw [typeHash?, read]
    rfl
  refine .inr ?_
  rw [type?, read] at rejected
  cases name : v.text? t.name with
  | none => exact .inl rfl
  | some text =>
  refine .inr ?_
  cases flags : TypeFlags.ofBits? t.flags with
  | none => exact .inl rfl
  | some known =>
  refine .inr ?_
  cases fields : t.fields.pick? members.fields with
  | none => exact .inl ((Span.pick?_eq_none fieldCount).mp fields)
  | some _ =>
  refine .inr ?_
  cases methods : t.methods.pick? members.methods with
  | none => exact .inl ((Span.pick?_eq_none methodCount).mp methods)
  | some _ =>
  refine .inr ?_
  cases constructors : t.constructors.pick? members.constructors with
  | none => exact .inl ((Span.pick?_eq_none constructorCount).mp constructors)
  | some _ =>
  cases attributes : t.attributes.pick? members.attributes with
  | none => exact .inr ((Span.pick?_eq_none attributeCount).mp attributes)
  | some _ => simp [name, flags, fields, methods, constructors, attributes] at rejected

/-- Behind the checks of the header, an image is rejected for what one of its records says. -/
theorem rejects_of_decode {bytes : List UInt8} {e : MergeError} (accepted : ofBytes bytes = .ok v)
    (rejected : decode exports bytes = .error e) : v.Rejects exports e := by
  have checked := (checked_ofBytes accepted).2
  have readable := checked.readable
  simp only [decode, accepted, bind, Except.bind] at rejected
  split at rejected
  next failed =>
    cases rejected
    obtain ⟨index, below, none, rfl⟩ := exists_of_readAll_eq_error failed
    obtain ⟨a, read⟩ := readable.attributes index below
    exact .attribute below read (attribute?_flawed read none)
  next attributes attributesRead =>
  have attributeCount := length_of_readAll attributesRead
  split at rejected
  next failed =>
    cases rejected
    obtain ⟨index, below, none, rfl⟩ := exists_of_readAll_eq_error failed
    obtain ⟨f, read⟩ := readable.fields index below
    exact .field below read (field?_flawed read attributeCount none)
  next fields fieldsRead =>
  split at rejected
  next failed =>
    cases rejected
    obtain ⟨index, below, none, rfl⟩ := exists_of_readAll_eq_error failed
    obtain ⟨m, read⟩ := readable.methods index below
    obtain ⟨slot, word⟩ := readable.methodSlots index below
    exact .method below read word (method?_flawed checked read word attributeCount none)
  next methods methodsRead =>
  split at rejected
  next failed =>
    cases rejected
    obtain ⟨index, below, none, rfl⟩ := exists_of_readAll_eq_error failed
    obtain ⟨c, read⟩ := readable.constructors index below
    obtain ⟨slot, word⟩ := readable.constructorSlots index below
    exact .constructor below read word (constructor?_flawed checked read word attributeCount none)
  next constructors constructorsRead =>
  obtain ⟨index, below, none, rfl⟩ := exists_of_readAll_eq_error rejected
  obtain ⟨t, read⟩ := readable.types index below
  exact .type below read (type?_flawed read (length_of_readAll fieldsRead)
    (length_of_readAll methodsRead) (length_of_readAll constructorsRead) attributeCount none)

end View

end TypeCatalog.Image
