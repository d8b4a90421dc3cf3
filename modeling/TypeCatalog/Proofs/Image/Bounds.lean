import TypeCatalog.Proofs.Image.Decode
import TypeCatalog.Proofs.Image.Layout

/-!
What the checks of the header are good for. They bound every section that has entries, and sections
without entries are never read; so each entry whose index is below the count of its section lies
within the image, and reading it cannot fail. What is rejected after these checks is rejected for
what a record says: for a text, a run of entries, a slot or a flag that there is not, or for a type
that occurs again.
-/
namespace TypeCatalog.Image

/-- A reader that takes this many bytes, whatever they are, and only fails if there are fewer. -/
def Consumes {α : Type} (reader : Reader α) (size : Nat) : Prop :=
  ∃ value : List UInt8 → α, ∀ bytes, reader.run bytes =
    if size ≤ bytes.length then some (value (bytes.take size), bytes.drop size) else none

section

variable {α β : Type} {reader : Reader α} {next : α → Reader β} {size more : Nat}

theorem consumes_pure (a : α) : Consumes (pure a) 0 := ⟨fun _ => a, fun _ => rfl⟩

theorem consumes_take (count : Nat) : Consumes (take count) count := ⟨id, fun _ => rfl⟩

theorem Consumes.bind (first : Consumes reader size) (second : ∀ a, Consumes (next a) more) :
    Consumes (reader >>= next) (size + more) := by
  obtain ⟨value, runs⟩ := first
  choose values follows using second
  refine ⟨fun bytes => values (value (bytes.take size)) (bytes.drop size), fun bytes => ?_⟩
  rw [StateT.run_bind, runs]
  by_cases enough : size ≤ bytes.length
  · have parts : (size + more ≤ bytes.length) ↔ more ≤ (bytes.drop size).length := by
      rw [List.length_drop]
      omega
    rw [if_pos enough]
    show (next _).run (bytes.drop size) = _
    rw [follows]
    simp only [parts, List.drop_drop, List.take_take, List.drop_take]
    simp
  · rw [if_neg enough, if_neg (by omega)]
    rfl

theorem Consumes.readAt (consumes : Consumes reader size) {bytes : List UInt8} {position : Nat}
    (within : position + size ≤ bytes.length) :
    ∃ a, readAt reader bytes position = some a ∧
      Image.readAt reader ((bytes.drop position).take size) 0 = some a := by
  obtain ⟨value, runs⟩ := consumes
  refine ⟨value ((bytes.drop position).take size), ?_, ?_⟩
  · rw [Image.readAt, runs, if_pos (by rw [List.length_drop]; omega)]
    rfl
  · rw [Image.readAt, List.drop_zero, runs, List.take_take, Nat.min_self,
      if_pos (by rw [List.length_take, List.length_drop]; omega)]
    rfl

end

theorem consumes_skip (count : Nat) : Consumes (skip count) count :=
  (consumes_take count).bind fun _ => consumes_pure ()

theorem consumes_read8 : Consumes read8 1 := (consumes_take 1).bind fun _ => consumes_pure _

theorem consumes_read32 : Consumes read32 4 := (consumes_take 4).bind fun _ => consumes_pure _

theorem consumes_read64 : Consumes read64 wordSize :=
  (consumes_take 8).bind fun _ => consumes_pure _

theorem consumes_textRef : Consumes TextRef.read 8 :=
  consumes_read32.bind fun _ => consumes_read32.bind fun _ => consumes_pure _

theorem consumes_span : Consumes Span.read 8 :=
  consumes_read32.bind fun _ => consumes_read32.bind fun _ => consumes_pure _

theorem consumes_attributeRecord : Consumes AttributeRecord.read attributeSize :=
  consumes_textRef.bind fun _ => consumes_read8.bind fun _ => (consumes_skip 7).bind fun _ =>
    consumes_read64.bind fun _ => consumes_pure _

theorem consumes_fieldRecord : Consumes FieldRecord.read fieldSize :=
  consumes_textRef.bind fun _ => consumes_read64.bind fun _ => consumes_read64.bind fun _ =>
    consumes_read64.bind fun _ => consumes_span.bind fun _ => consumes_pure _

theorem consumes_methodRecord : Consumes MethodRecord.read methodSize :=
  consumes_textRef.bind fun _ => consumes_read64.bind fun _ => consumes_read64.bind fun _ =>
    consumes_span.bind fun _ => consumes_read32.bind fun _ => (consumes_skip 4).bind fun _ =>
      consumes_span.bind fun _ => consumes_pure _

theorem consumes_constructorRecord : Consumes ConstructorRecord.read constructorSize :=
  consumes_read64.bind fun _ => consumes_span.bind fun _ => consumes_span.bind fun _ =>
    consumes_pure _

theorem consumes_typeRecord : Consumes TypeRecord.read typeSize :=
  consumes_textRef.bind fun _ => consumes_read64.bind fun _ => consumes_read64.bind fun _ =>
    consumes_read64.bind fun _ => consumes_read32.bind fun _ => consumes_read32.bind fun _ =>
      consumes_span.bind fun _ => consumes_span.bind fun _ => consumes_span.bind fun _ =>
        consumes_span.bind fun _ => consumes_pure _

/-- Where a section begins, how many entries it has, and how many bytes each of them has. -/
structure Extent where
  offset : UInt64
  count : UInt32
  size : Nat
deriving DecidableEq

namespace Header

/-- The sections in the order in which a header tells them. -/
def extents (h : Header) : List Extent :=
  [⟨h.offsets.types, h.counts.types, typeSize⟩, ⟨h.offsets.fields, h.counts.fields, fieldSize⟩,
    ⟨h.offsets.methods, h.counts.methods, methodSize⟩,
    ⟨h.offsets.constructors, h.counts.constructors, constructorSize⟩,
    ⟨h.offsets.attributes, h.counts.attributes, attributeSize⟩,
    ⟨h.offsets.params, h.counts.params, wordSize⟩, ⟨h.offsets.texts, h.counts.textBytes, 1⟩,
    ⟨h.offsets.methodSlots, h.counts.methods, wordSize⟩,
    ⟨h.offsets.constructorSlots, h.counts.constructors, wordSize⟩]

/-- A section of entries that a reader takes one by one. -/
structure Holds {α : Type} (h : Header) (reader : Reader α) (e : Extent) : Prop where
  listed : e ∈ h.extents
  consumes : Consumes reader e.size

section

variable (h : Header)

theorem holds_types : h.Holds TypeRecord.read ⟨h.offsets.types, h.counts.types, typeSize⟩ :=
  ⟨by simp [extents], consumes_typeRecord⟩

theorem holds_fields : h.Holds FieldRecord.read ⟨h.offsets.fields, h.counts.fields, fieldSize⟩ :=
  ⟨by simp [extents], consumes_fieldRecord⟩

theorem holds_methods :
    h.Holds MethodRecord.read ⟨h.offsets.methods, h.counts.methods, methodSize⟩ :=
  ⟨by simp [extents], consumes_methodRecord⟩

theorem holds_constructors : h.Holds ConstructorRecord.read
    ⟨h.offsets.constructors, h.counts.constructors, constructorSize⟩ :=
  ⟨by simp [extents], consumes_constructorRecord⟩

theorem holds_attributes :
    h.Holds AttributeRecord.read ⟨h.offsets.attributes, h.counts.attributes, attributeSize⟩ :=
  ⟨by simp [extents], consumes_attributeRecord⟩

theorem holds_params : h.Holds read64 ⟨h.offsets.params, h.counts.params, wordSize⟩ :=
  ⟨by simp [extents], consumes_read64⟩

theorem holds_methodSlots : h.Holds read64 ⟨h.offsets.methodSlots, h.counts.methods, wordSize⟩ :=
  ⟨by simp [extents], consumes_read64⟩

theorem holds_constructorSlots :
    h.Holds read64 ⟨h.offsets.constructorSlots, h.counts.constructors, wordSize⟩ :=
  ⟨by simp [extents], consumes_read64⟩

end

theorem size_bounds {h : Header} {e : Extent} (listed : e ∈ h.extents) :
    0 < e.size ∧ e.size ≤ 72 := by
  simp only [extents, List.mem_cons, List.not_mem_nil, or_false] at listed
  rcases listed with rfl | rfl | rfl | rfl | rfl | rfl | rfl | rfl | rfl <;>
    simp [typeSize, fieldSize, methodSize, constructorSize, attributeSize, wordSize]

theorem regions_eq (h : Header) :
    h.regions = h.extents.map fun e => (e.offset, e.count.toUInt64 * UInt64.ofNat e.size) := by
  rw [regions, Counts.lengths_eq]
  rfl

end Header

namespace View

/-- What the checks of the header establish. A section without entries may be anywhere. -/
structure Checked (v : View) : Prop where
  total : v.header.totalSize.toNat ≤ v.bytes.length
  sections : ∀ e ∈ v.header.extents, e.count ≠ 0 → headerSize ≤ e.offset.toNat ∧
    e.offset.toNat + e.count.toNat * e.size ≤ v.header.totalSize.toNat
  texts : v.texts =
    (v.bytes.drop v.header.offsets.texts.toNat).take v.header.counts.textBytes.toNat

/-- The checks of a header, from the first to the last. -/
theorem ofBytes_eq (bytes : List UInt8) :
    ofBytes bytes = match readAt read32 bytes 0, Header.decode? bytes with
      | none, _ => .error .corruptOffsets
      | some found, header =>
        if found ≠ version then .error (.unsupportedVersion found) else match header with
          | none => .error .corruptOffsets
          | some header =>
            if bytes.length < header.totalSize.toNat then .error .corruptOffsets else
              if header.regions.any (!regionFits header ·) then .error .corruptOffsets else
                .ok ⟨bytes, header, (bytes.drop header.offsets.texts.toNat).take
                  header.counts.textBytes.toNat⟩ := by
  rw [ofBytes]
  cases readAt read32 bytes 0 with
  | none => rfl
  | some found =>
    by_cases current : found ≠ version
    · simp only [if_pos current]
      rfl
    · simp only [if_neg current]
      cases Header.decode? bytes with
      | none => rfl
      | some header =>
        by_cases long : bytes.length < header.totalSize.toNat
        · simp only [if_pos long]
          rfl
        · simp only [if_neg long]
          by_cases outside : header.regions.any (!regionFits header ·)
          · simp only [if_pos outside]
            rfl
          · simp only [if_neg outside]
            rfl

theorem checked_ofBytes {bytes : List UInt8} {v : View} (accepted : ofBytes bytes = .ok v) :
    v.bytes = bytes ∧ v.Checked := by
  rw [ofBytes_eq] at accepted
  split at accepted
  · contradiction
  split at accepted
  · contradiction
  split at accepted
  · contradiction
  next header _ =>
  split at accepted
  · contradiction
  next total =>
  split at accepted
  · contradiction
  next fit =>
  cases accepted
  refine ⟨rfl, Nat.le_of_not_lt total, fun e listed filled => ?_, rfl⟩
  have region : regionFits header (e.offset, e.count.toUInt64 * UInt64.ofNat e.size) = true := by
    rw [Bool.not_eq_true, List.any_eq_false, Header.regions_eq] at fit
    simpa using fit _ (List.mem_map.mpr ⟨e, listed, rfl⟩)
  obtain ⟨positive, small⟩ := Header.size_bounds listed
  have length := (toNat_section e.count small).1
  have nonempty : e.count.toUInt64 * UInt64.ofNat e.size ≠ 0 := by
    intro zero
    rw [zero] at length
    rcases Nat.mul_eq_zero.mp length.symm with none | none
    · exact filled (UInt32.toNat_inj.mp none)
    · omega
  rw [regionFits, beq_eq_false_iff_ne.mpr nonempty, Bool.false_or, Bool.and_eq_true, length]
    at region
  simpa using region

namespace Checked

variable {v : View} {e : Extent}

theorem length_le (checked : v.Checked) (listed : e ∈ v.header.extents) :
    e.count.toNat * e.size ≤ v.bytes.length := by
  by_cases empty : e.count = 0
  · simp [empty]
  · have within := (checked.sections e listed empty).2
    have total := checked.total
    omega

/-- Each entry of a section lies within the image. -/
theorem entry_le (checked : v.Checked) (listed : e ∈ v.header.extents) {index : Nat}
    (below : index < e.count.toNat) :
    e.offset.toNat + index * e.size + e.size ≤ v.header.totalSize.toNat := by
  have filled : e.count ≠ 0 := by
    rintro empty
    rw [empty] at below
    exact Nat.not_lt_zero _ below
  have within := (checked.sections e listed filled).2
  have entries := Nat.mul_le_mul_right e.size (Nat.succ_le_of_lt below)
  rw [Nat.succ_mul] at entries
  omega

theorem record? (checked : v.Checked) {α : Type} {reader : Reader α}
    (holds : v.header.Holds reader e) {index : Nat} (below : index < e.count.toNat) :
    ∃ record, v.record? reader e.size e.offset index = some record := by
  have within := Nat.le_trans (checked.entry_le holds.listed below) checked.total
  obtain ⟨record, read, _⟩ := holds.consumes.readAt within
  exact ⟨record, read⟩

end Checked

/-- What can be read of an image: the records and words that the header counts. -/
structure Readable (v : View) : Prop where
  types : ∀ index < v.header.counts.types.toNat,
    ∃ t, v.record? TypeRecord.read typeSize v.header.offsets.types index = some t
  fields : ∀ index < v.header.counts.fields.toNat,
    ∃ f, v.record? FieldRecord.read fieldSize v.header.offsets.fields index = some f
  methods : ∀ index < v.header.counts.methods.toNat,
    ∃ m, v.record? MethodRecord.read methodSize v.header.offsets.methods index = some m
  constructors : ∀ index < v.header.counts.constructors.toNat, ∃ c,
    v.record? ConstructorRecord.read constructorSize v.header.offsets.constructors index = some c
  attributes : ∀ index < v.header.counts.attributes.toNat, ∃ a,
    v.record? AttributeRecord.read attributeSize v.header.offsets.attributes index = some a
  params : ∀ index < v.header.counts.params.toNat,
    ∃ word, v.record? read64 wordSize v.header.offsets.params index = some word
  methodSlots : ∀ index < v.header.counts.methods.toNat,
    ∃ slot, v.record? read64 wordSize v.header.offsets.methodSlots index = some slot
  constructorSlots : ∀ index < v.header.counts.constructors.toNat,
    ∃ slot, v.record? read64 wordSize v.header.offsets.constructorSlots index = some slot

theorem Checked.readable {v : View} (checked : v.Checked) : v.Readable where
  types _ below := checked.record? v.header.holds_types below
  fields _ below := checked.record? v.header.holds_fields below
  methods _ below := checked.record? v.header.holds_methods below
  constructors _ below := checked.record? v.header.holds_constructors below
  attributes _ below := checked.record? v.header.holds_attributes below
  params _ below := checked.record? v.header.holds_params below
  methodSlots _ below := checked.record? v.header.holds_methodSlots below
  constructorSlots _ below := checked.record? v.header.holds_constructorSlots below

end View

end TypeCatalog.Image
