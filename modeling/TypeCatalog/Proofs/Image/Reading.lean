import TypeCatalog.Proofs.Image.Decode
import TypeCatalog.Proofs.Image.Sections
import TypeCatalog.Proofs.Members

/-!
Reading an image that has been written from rows. Every record is found, refers to what it stands
for, and passes its checks; so the image is accepted and yields the rows, less what no image carries.
-/
namespace TypeCatalog

theorem MethodFlags.ofBits?_bits (f : MethodFlags) : ofBits? f.bits = some f := by
  obtain ⟨isStatic, isMutating⟩ := f
  cases isStatic <;> cases isMutating <;> decide

theorem TypeFlags.ofBits?_bits (f : TypeFlags) : ofBits? f.bits = some f := by
  obtain ⟨isEnum, isPrimitive, isDefaultConstructible⟩ := f
  cases isEnum <;> cases isPrimitive <;> cases isDefaultConstructible <;> decide

namespace Image

theorem TextRef.toNat_pack (t : TextRef) :
    t.pack.toNat = t.length.toNat * 4294967296 + t.offset.toNat := by
  have low := t.offset.toNat_lt
  have high := t.length.toNat_lt
  have shifted : (t.length.toUInt64 <<< 32).toNat = t.length.toNat * 4294967296 := by
    rw [UInt64.toNat_shiftLeft, UInt32.toNat_toUInt64, show (32 : UInt64).toNat % 64 = 32 from rfl,
      Nat.shiftLeft_eq, Nat.mod_eq_of_lt (by omega)]
  rw [pack, UInt64.toNat_or, UInt32.toNat_toUInt64, shifted, Nat.or_comm, Nat.mul_comm,
    Nat.two_pow_add_eq_or_of_lt low]

theorem TextRef.unpack_pack (t : TextRef) : unpack t.pack = t := by
  obtain ⟨offset, length⟩ := t
  have low := offset.toNat_lt
  have high := length.toNat_lt
  have packed : (pack ⟨offset, length⟩).toNat = length.toNat * 4294967296 + offset.toNat :=
    toNat_pack _
  have lower : (pack ⟨offset, length⟩).toUInt32 = offset := by
    apply UInt32.toNat_inj.mp
    rw [UInt64.toNat_toUInt32, packed]
    omega
  have upper : (pack ⟨offset, length⟩ >>> 32).toUInt32 = length := by
    apply UInt32.toNat_inj.mp
    rw [UInt64.toNat_toUInt32, UInt64.toNat_shiftRight, packed,
      show (32 : UInt64).toNat % 64 = 32 from rfl, Nat.shiftRight_eq_div_pow]
    omega
  rw [unpack, lower, upper]

theorem TextRef.pack_unpack (word : UInt64) : (unpack word).pack = word := by
  have small := word.toNat_lt
  apply UInt64.toNat_inj.mp
  rw [toNat_pack, unpack, UInt64.toNat_toUInt32, UInt64.toNat_toUInt32, UInt64.toNat_shiftRight,
    show (32 : UInt64).toNat % 64 = 32 from rfl, Nat.shiftRight_eq_div_pow]
  omega

theorem fromUTF8?_utf8 (text : String) : String.fromUTF8? ⟨(utf8 text).toArray⟩ = some text := by
  have bytes : (⟨(utf8 text).toArray⟩ : ByteArray) = text.toByteArray := by
    simp [utf8]
  rw [bytes, String.fromUTF8?, dif_pos text.isValidUTF8]
  rfl

section

variable {α β : Type} {entries run : List α} {start : Nat}

theorem RunAt.bound (there : RunAt entries start run) :
    start + run.length ≤ entries.length := by
  obtain ⟨pre, post, rfl, rfl⟩ := there
  simp only [List.length_append]
  omega

theorem RunAt.slice (there : RunAt entries start run) :
    (entries.drop start).take run.length = run := by
  obtain ⟨pre, post, rfl, rfl⟩ := there
  rw [List.append_assoc, List.drop_left, List.take_left]

theorem RunAt.getElem? (there : RunAt entries start run) {offset : Nat} (within : offset < run.length) :
    entries[start + offset]? = run[offset]? := by
  obtain ⟨pre, post, rfl, rfl⟩ := there
  rw [List.append_assoc, List.getElem?_append_right (Nat.le_add_right _ _), Nat.add_sub_cancel_left,
    List.getElem?_append_left within]

theorem RunAt.within? (there : RunAt entries start run) (small : entries.length < UInt32.size) :
    Span.within? (UInt32.ofNat start) (UInt32.ofNat run.length) entries.length =
      some (start, start + run.length) := by
  have bound := there.bound
  rw [Span.within?, UInt32.toNat_ofNat_of_lt' (by omega), UInt32.toNat_ofNat_of_lt' (by omega),
    if_pos bound]

theorem Span.Covers.pick? {span : Span} (covers : span.Covers entries run)
    (small : entries.length < UInt32.size) (f : α → β) :
    span.pick? (entries.map f) = some (run.map f) := by
  obtain ⟨start, there, rfl⟩ := covers
  have same : (entries.map f).length = entries.length := List.length_map _
  simp only [Span.pick?, Span.ofNat, same, there.within? small, Option.map_some,
    Nat.add_sub_cancel_left, ← List.map_drop, ← List.map_take, there.slice]

theorem RunAt.mapM (there : RunAt entries start run) {read? : Nat → Option β} {f : α → β}
    (reads : ∀ index a, entries[index]? = some a → read? index = some (f a)) :
    (List.range' start run.length).mapM read? = some (run.map f) := by
  induction run generalizing start with
  | nil => rfl
  | cons a rest ih =>
    have first : entries[start + 0]? = some a := there.getElem? (Nat.zero_lt_succ _)
    have tail : RunAt entries (start + 1) rest := by
      obtain ⟨pre, post, rfl, rfl⟩ := there
      exact ⟨pre ++ [a], post, by simp, by simp⟩
    rw [List.length_cons, List.range'_succ, List.mapM_cons, reads start a first, ih tail]
    rfl

theorem readAll_of {items : List α} {count : UInt32} (length : count.toNat = items.length)
    (corrupt : Nat → MergeError) {read? : Nat → Option β} {f : α → β}
    (reads : ∀ index a, items[index]? = some a → read? index = some (f a)) :
    View.readAll count corrupt read? = .ok (items.map f) := by
  rw [readAll_eq_ok, length]
  refine List.ext_getElem? fun index => ?_
  simp only [List.getElem?_map]
  by_cases within : index < items.length
  · have found := List.getElem?_eq_getElem within
    rw [found, List.getElem?_range within, Option.map_some, reads index _ found]
    rfl
  · have outside := Nat.le_of_not_lt within
    rw [List.getElem?_eq_none outside, List.getElem?_eq_none (by rwa [List.length_range])]
    rfl

theorem record_of_item {R : α → β → Prop} {records : List α} {items : List β}
    (all : List.Forall₂ R records items) {index : Nat} {b : β} (found : items[index]? = some b) :
    ∃ a, records[index]? = some a ∧ R a b := by
  obtain ⟨within, rfl⟩ := List.getElem?_eq_some_iff.mp found
  have before : index < records.length := by rwa [all.length_eq]
  exact ⟨records[index], List.getElem?_eq_getElem before, all.get before within⟩

end

/-- What a reference to a text is read as, in a section short enough for references. -/
theorem View.text?_of_means {v : View} {ref : TextRef} {text : String}
    (small : v.texts.length < UInt32.size) (means : ref.Means v.texts text) :
    v.text? ref = some text := by
  obtain ⟨start, there, rfl⟩ := means
  simp only [View.text?, there.within? small, Option.bind_eq_bind, Option.bind_some,
    Nat.add_sub_cancel_left, there.slice, fromUTF8?_utf8]

def ReadAttribute.of (a : Attribute) : ReadAttribute := ⟨a.key.text, a.value⟩

def ReadField.of (f : Field) : ReadField :=
  ⟨f.name.text, f.type, f.offset, f.accessor, f.attributes.map ReadAttribute.of⟩

/-- A field as an image keeps it: the greatest offset stands for none. -/
def ReadField.stored (f : ReadField) : ReadField :=
  { f with offset := f.offset.filter (· ≠ unknownOffset) }

def ReadMethod.of (m : Method) : ReadMethod :=
  ⟨m.name.text, m.params, m.returnType, m.signature, m.flags, m.callable,
    m.attributes.map ReadAttribute.of⟩

def ReadConstructor.of (c : Constructor) : ReadConstructor :=
  ⟨c.params, c.signature, c.callable, c.attributes.map ReadAttribute.of⟩

def ReadType.of (row : Row) : ReadType :=
  ⟨row.name.text, row.typeHash, row.owner, row.size, row.align, row.flags,
    row.fields.map (fun f => (ReadField.of f).stored), row.methods.map ReadMethod.of,
    row.constructors.map ReadConstructor.of, row.attributes.map ReadAttribute.of⟩

def Contents.members (k : Contents) : View.Members :=
  ⟨k.fields.map fun f => (ReadField.of f).stored, k.methods.map .of, k.constructors.map .of,
    k.attributes.map .of⟩

namespace Sections

variable {known : Exported → Prop} {s : Sections} {k : Contents}

theorem text?_view (fits : s.Fits) {ref : TextRef} {text : String}
    (means : ref.Means s.texts.bytes text) : s.view.text? ref = some text :=
  View.text?_of_means (v := s.view) fits.texts means

theorem attributeValue?_view (fits : s.Fits) {payload : UInt64} {value : AttributeValue}
    (tells : s.Payload payload value) :
    s.view.attributeValue? value.kind.tag payload = some value := by
  rw [View.attributeValue?, AttributeKind.ofTag?_tag]
  cases value with
  | bool b =>
    cases tells
    cases b <;> rfl
  | int n =>
    cases tells
    simp [AttributeValue.kind]
  | double bits =>
    cases tells
    rfl
  | string text =>
    obtain ⟨ref, means, rfl⟩ := tells
    simp only [AttributeValue.kind, Option.bind_eq_bind, Option.bind_some, TextRef.unpack_pack,
      text?_view fits means, Option.map_some]
  | type hash =>
    cases tells
    rfl

theorem attribute?_view (fits : s.Fits) (hold : s.Hold known k) {index : Nat} {a : Attribute}
    (found : k.attributes[index]? = some a) :
    s.view.attribute? index = some (.of a) := by
  obtain ⟨r, listed, tells⟩ := record_of_item hold.tell.attributes found
  have part : (s.header.offsets.attributes, s.attributes.flatMap AttributeRecord.encode) ∈ s.parts := by
    simp [parts, contents, Offsets.toList]
  have record := record?_part fits hold.parallel length_attributeRecord reads_attributeRecord part
    listed
  have value := attributeValue?_view fits tells.payload
  rw [← tells.kind] at value
  have offset : s.view.header = s.header := rfl
  simp only [View.attribute?, offset, record, text?_view fits tells.key, value,
    Option.bind_eq_bind, Option.bind_some]
  rfl

theorem getElem?_slot {entries more : List Exported} {slot : UInt64} {e : Exported}
    (there : SlotFor entries slot e) (few : entries.length ≤ UInt64.size) (grown : entries <+: more) :
    more[slot.toNat]? = some e := by
  obtain ⟨position, present, rfl⟩ := there
  obtain ⟨rest, rfl⟩ := grown
  obtain ⟨within, _⟩ := List.getElem?_eq_some_iff.mp present
  rw [UInt64.toNat_ofNat_of_lt' (Nat.lt_of_lt_of_le within few)]
  exact (List.getElem?_append_left within).trans present

theorem knownOffset_eq (offset : Option UInt64) :
    (if offset.getD unknownOffset = unknownOffset then none
      else some (offset.getD unknownOffset)) = offset.filter (· ≠ unknownOffset) := by
  cases offset with
  | none => rfl
  | some value =>
    rw [Option.getD_some, Option.filter_some]
    by_cases unknown : value = unknownOffset <;> simp [unknown]

variable {later : ExportTable}

theorem field?_view (fits : s.Fits) (hold : s.Hold known k)
    (slots : s.exports.entries <+: later.entries) {index : Nat} {f : Field}
    (found : k.fields[index]? = some f) :
    s.view.field? later (k.attributes.map .of) index = some (ReadField.of f).stored := by
  obtain ⟨r, listed, tells⟩ := record_of_item hold.tell.fields found
  have part : (s.header.offsets.fields, s.fields.flatMap FieldRecord.encode) ∈ s.parts := by
    simp [parts, contents, Offsets.toList]
  have record := record?_part fits hold.parallel length_fieldRecord reads_fieldRecord part listed
  have few : k.attributes.length < UInt32.size := hold.tell.attributes.length_eq ▸ fits.attributes
  have accessor : later.accessor? r.slot = some f.accessor := by
    rw [ExportTable.accessor?, getElem?_slot tells.slot fits.slots slots]
  have offset : s.view.header = s.header := rfl
  simp only [View.field?, offset, record, text?_view fits tells.name, accessor,
    tells.attributes.pick? few, tells.type, tells.offset, knownOffset_eq, Option.bind_eq_bind,
    Option.bind_some]
  rfl

theorem params?_view (fits : s.Fits) (hold : s.Hold known k) {span : Span}
    {params : List TypeHash} (covers : span.Covers s.params (params.map TypeHash.value)) :
    s.view.params? span = some params := by
  obtain ⟨start, there, rfl⟩ := covers
  have part : (s.header.offsets.params, s.params.flatMap put64) ∈ s.parts := by
    simp [parts, contents, Offsets.toList]
  have header : s.view.header = s.header := rfl
  have count := fits.withinLimits.counts.2.2.2.2.2.1
  have read := there.mapM (f := TypeHash.mk) fun index word found =>
    congrArg (Option.map TypeHash.mk)
      (record?_part fits hold.parallel length_put64 reads_put64 part found)
  have back : (params.map TypeHash.value).map TypeHash.mk = params := by simp [Function.comp_def]
  rw [back] at read
  simp only [View.params?, header, Span.ofNat, count, there.within? fits.params,
    Option.bind_eq_bind, Option.bind_some, Nat.add_sub_cancel_left]
  exact read

theorem callable?_view (fits : s.Fits) (hold : s.Hold known k)
    (slots : s.exports.entries <+: later.entries) {offset : UInt64} {table : List UInt64}
    (part : (offset, table.flatMap put64) ∈ s.parts) {index : Nat} {slot : UInt64}
    (listed : table[index]? = some slot) {c : Callable}
    (there : SlotFor s.exports.entries slot (.callable c)) {arity : Nat} (fit : c.arity = arity) :
    s.view.callable? later offset index arity = some c := by
  have record : s.view.record? read64 wordSize offset index = some slot :=
    record?_part fits hold.parallel length_put64 reads_put64 part listed
  have callable : later.callable? slot = some c := by
    rw [ExportTable.callable?, getElem?_slot there fits.slots slots]
  simp [View.callable?, record, callable, fit]

theorem method?_view (fits : s.Fits) (hold : s.Hold known k)
    (slots : s.exports.entries <+: later.entries) {index : Nat} {m : Method}
    (found : k.methods[index]? = some m) (arity : m.callable.arity = m.params.length) :
    s.view.method? later (k.attributes.map .of) index = some (.of m) := by
  obtain ⟨r, listed, tells⟩ := record_of_item hold.tell.methods found
  obtain ⟨slot, beside, there⟩ := record_of_item hold.tell.methodSlots found
  have part : (s.header.offsets.methods, s.methods.flatMap MethodRecord.encode) ∈ s.parts := by
    simp [parts, contents, Offsets.toList]
  have table : (s.header.offsets.methodSlots, s.methodSlots.flatMap put64) ∈ s.parts := by
    simp [parts, contents, Offsets.toList]
  have record := record?_part fits hold.parallel length_methodRecord reads_methodRecord part listed
  have callable := callable?_view fits hold slots table beside there arity
  have few : k.attributes.length < UInt32.size := hold.tell.attributes.length_eq ▸ fits.attributes
  have header : s.view.header = s.header := rfl
  simp only [View.method?, header, record, text?_view fits tells.name,
    params?_view fits hold tells.params, tells.flags, MethodFlags.ofBits?_bits, callable,
    tells.attributes.pick? few, tells.returnType, tells.signature, Option.bind_eq_bind,
    Option.bind_some]
  rfl

theorem constructor?_view (fits : s.Fits) (hold : s.Hold known k)
    (slots : s.exports.entries <+: later.entries) {index : Nat} {c : Constructor}
    (found : k.constructors[index]? = some c) (arity : c.callable.arity = c.params.length) :
    s.view.constructor? later (k.attributes.map .of) index = some (.of c) := by
  obtain ⟨r, listed, tells⟩ := record_of_item hold.tell.constructors found
  obtain ⟨slot, beside, there⟩ := record_of_item hold.tell.constructorSlots found
  have part : (s.header.offsets.constructors, s.constructors.flatMap ConstructorRecord.encode) ∈
      s.parts := by
    simp [parts, contents, Offsets.toList]
  have table : (s.header.offsets.constructorSlots, s.constructorSlots.flatMap put64) ∈ s.parts := by
    simp [parts, contents, Offsets.toList]
  have record := record?_part fits hold.parallel length_constructorRecord reads_constructorRecord
    part listed
  have callable := callable?_view fits hold slots table beside there arity
  have few : k.attributes.length < UInt32.size := hold.tell.attributes.length_eq ▸ fits.attributes
  have header : s.view.header = s.header := rfl
  simp only [View.constructor?, header, record, params?_view fits hold tells.params, callable,
    tells.attributes.pick? few, tells.signature, Option.bind_eq_bind, Option.bind_some]
  rfl

theorem type?_view (fits : s.Fits) (hold : s.Hold known k) {index : Nat} {row : Row}
    (found : k.rows[index]? = some row) (aligned : row.align.toNat < UInt32.size) :
    s.view.typeHash? index = some row.typeHash ∧
      s.view.type? k.members index = some (.of row) := by
  obtain ⟨r, listed, tells⟩ := record_of_item hold.tell.rows found
  have part : (s.header.offsets.types, s.types.flatMap TypeRecord.encode) ∈ s.parts := by
    simp [parts, contents, Offsets.toList]
  have record := record?_part fits hold.parallel length_typeRecord reads_typeRecord part listed
  have fields := tells.fields.pick? (hold.tell.fields.length_eq ▸ fits.fields)
    fun f => (ReadField.of f).stored
  have methods := tells.methods.pick? (hold.tell.methods.length_eq ▸ fits.methods) ReadMethod.of
  have constructors := tells.constructors.pick?
    (hold.tell.constructors.length_eq ▸ fits.constructors) ReadConstructor.of
  have attributes := tells.attributes.pick?
    (hold.tell.attributes.length_eq ▸ fits.attributes) ReadAttribute.of
  have align : row.align.toUInt32.toUInt64 = row.align := by
    apply UInt64.toNat_inj.mp
    rw [UInt32.toNat_toUInt64, UInt64.toNat_toUInt32, Nat.mod_eq_of_lt aligned]
  have header : s.view.header = s.header := rfl
  constructor
  · simp only [View.typeHash?, header, record, Option.map_some, tells.typeHash]
  · simp only [View.type?, Contents.members, header, record, text?_view fits tells.name, tells.flags,
      TypeFlags.ofBits?_bits, fields, methods, constructors, attributes, tells.typeHash,
      tells.owner, tells.size, tells.align, align, Option.bind_eq_bind, Option.bind_some]
    rfl

/-- No row repeats the hash of an earlier one. -/
theorem isRepeated_view {index : Nat} {row : Row} (found : k.rows[index]? = some row)
    (hashes : ∀ i row, k.rows[i]? = some row → s.view.typeHash? i = some row.typeHash)
    (distinct : (k.rows.map Row.typeHash).Nodup) : s.view.isRepeated index = false := by
  rw [View.isRepeated, List.any_eq_false]
  intro earlier less same
  obtain ⟨within, _⟩ := List.getElem?_eq_some_iff.mp found
  have before := List.getElem?_eq_getElem (Nat.lt_trans (List.mem_range.mp less) within)
  rw [decide_eq_true_eq, hashes earlier _ before, hashes index row found] at same
  refine List.nodup_iff_getElem?_ne_getElem?.mp distinct earlier index (List.mem_range.mp less)
    (by rwa [List.length_map]) ?_
  rw [List.getElem?_map, List.getElem?_map, before, found, Option.map_some, Option.map_some]
  exact same

/-- An image is read back as the rows that it was written from. -/
theorem decode_image (fits : s.Fits) (hold : s.Hold known k)
    (slots : s.exports.entries <+: later.entries)
    (methodArity : ∀ m ∈ k.methods, m.callable.arity = m.params.length)
    (constructorArity : ∀ c ∈ k.constructors, c.callable.arity = c.params.length)
    (distinct : (k.rows.map Row.typeHash).Nodup)
    (aligned : ∀ row ∈ k.rows, row.align.toNat < UInt32.size) :
    decode later s.image = .ok (k.rows.map .of) := by
  obtain ⟨types, fields, methods, constructors, attributes, _, _⟩ := fits.withinLimits.counts
  have all := hold.tell
  have rows := fun index row (found : k.rows[index]? = some row) =>
    type?_view fits hold found (aligned row (List.mem_of_getElem? found))
  refine decode_eq_ok.mpr ⟨s.view, k.members.attributes, k.members.fields, k.members.methods,
    k.members.constructors, ofBytes_image fits hold.parallel, ?_, ?_, ?_, ?_, ?_⟩
  · exact readAll_of (attributes.trans all.attributes.length_eq) _
      fun index a found => attribute?_view fits hold found
  · exact readAll_of (fields.trans all.fields.length_eq) _
      fun index f found => field?_view fits hold slots found
  · exact readAll_of (methods.trans all.methods.length_eq) _ fun index m found =>
      method?_view fits hold slots found (methodArity m (List.mem_of_getElem? found))
  · exact readAll_of (constructors.trans all.constructors.length_eq) _ fun index c found =>
      constructor?_view fits hold slots found (constructorArity c (List.mem_of_getElem? found))
  · refine readAll_of (types.trans all.rows.length_eq) _ fun index row found => ?_
    rw [isRepeated_view found (fun i row found => (rows i row found).1) distinct]
    exact (rows index row found).2

/-- The image of rows whose callables take as many arguments as is shown is read back by whoever
knows at least its slots. -/
theorem decode_ofRows (numbered : Numbered known) {exports : ExportTable}
    (all : ∀ e ∈ exports.entries, known e) {rows : List Row}
    (told : ∀ row ∈ rows, MembersKnown known row)
    (methodArity : ∀ row ∈ rows, ∀ m ∈ row.methods, m.callable.arity = m.params.length)
    (constructorArity : ∀ row ∈ rows, ∀ c ∈ row.constructors, c.callable.arity = c.params.length)
    (distinct : (rows.map Row.typeHash).Nodup) (aligned : ∀ row ∈ rows, row.align.toNat < UInt32.size)
    (fits : (ofRows exports rows).Fits)
    (slots : (ofRows exports rows).exports.entries <+: later.entries) :
    decode later (ofRows exports rows).image = .ok (rows.map .of) := by
  have hold := (ofRows_goes numbered all told).hold
  obtain ⟨same, methods, constructors⟩ := Contents.addRows_eq {} rows
  rw [List.nil_append] at same methods constructors
  have read := decode_image fits hold slots ?_ ?_ (by rwa [same]) (by rwa [same])
  · rwa [same] at read
  · intro m listed
    rw [methods] at listed
    obtain ⟨row, member, own⟩ := List.mem_flatMap.mp listed
    exact methodArity row member m own
  · intro c listed
    rw [constructors] at listed
    obtain ⟨row, member, own⟩ := List.mem_flatMap.mp listed
    exact constructorArity row member c own

end Sections

end Image

end TypeCatalog
