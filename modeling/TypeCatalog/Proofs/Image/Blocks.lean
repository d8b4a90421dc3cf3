import TypeCatalog.Proofs.Image.Codec
import TypeCatalog.Proofs.Image.Positions
import TypeCatalog.Proofs.Image.Reading

/-!
Encoding and decoding undo each other. Every kind of record has one size; what is read of a block of
that size is encoded as the same block with zeros for its padding, so only blocks whose padding is
zero are encodings. Padding is not read, and neither is anything behind the block.
-/
namespace TypeCatalog.Image

theorem ofLittleEndian_lt (bytes : List UInt8) : ofLittleEndian bytes < Nat.pow 256 bytes.length := by
  induction bytes with
  | nil => exact Nat.one_pos
  | cons b rest ih =>
    have low := b.toNat_lt
    show b.toNat + 256 * ofLittleEndian rest < Nat.pow 256 rest.length * 256
    omega

/-- Bytes are those of the number that they stand for. -/
theorem littleEndian_ofLittleEndian (bytes : List UInt8) :
    littleEndian bytes.length (ofLittleEndian bytes) = bytes := by
  induction bytes with
  | nil => rfl
  | cons b rest ih =>
    have low := b.toNat_lt
    have number : ofLittleEndian (b :: rest) = b.toNat + 256 * ofLittleEndian rest := rfl
    have first : UInt8.ofNat (ofLittleEndian (b :: rest)) = b := by
      rw [number, ← UInt8.toNat_inj, UInt8.toNat_ofNat']
      omega
    have others : ofLittleEndian (b :: rest) / 256 = ofLittleEndian rest := by
      rw [number]
      omega
    rw [List.length_cons, littleEndian, first, others, ih]

/-- A block in which these positions have zeros. -/
def cleared (padding : List Nat) (block : List UInt8) : List UInt8 :=
  block.mapIdx fun i b => if i ∈ padding then 0 else b

/-- Every block of this many bytes is an encoding, if its padding is zero. -/
def Covers {α : Type} (encode : α → List UInt8) (size : Nat) (padding : List Nat) : Prop :=
  ∀ block : List UInt8, block.length = size → (∀ i ∈ padding, block.getD i 0 = 0) →
    ∃ a, encode a = block

section

variable {α β : Type} {encode : α → List UInt8} {other : β → List UInt8} {size more : Nat}
  {padding gaps : List Nat}

theorem Covers.append (first : Covers encode size padding) (second : Covers other more gaps) :
    Covers (fun pair : α × β => encode pair.1 ++ other pair.2) (size + more)
      (padding ++ gaps.map (size + ·)) := by
  intro block length zeros
  obtain ⟨a, before⟩ := first (block.take size) (by rw [List.length_take]; omega) fun i listed => by
    have zero := zeros i (List.mem_append_left _ listed)
    rw [List.getD_eq_getElem?_getD] at zero ⊢
    rw [List.getElem?_take]
    split
    · exact zero
    · rfl
  obtain ⟨b, after⟩ := second (block.drop size) (by rw [List.length_drop]; omega) fun i listed => by
    have zero := zeros (size + i)
      (List.mem_append_right _ (List.mem_map_of_mem (f := (size + ·)) listed))
    rwa [List.getD_eq_getElem?_getD, List.getElem?_drop, ← List.getD_eq_getElem?_getD]
  exact ⟨(a, b), by simp only [before, after, List.take_append_drop]⟩

theorem Covers.map (covers : Covers encode size padding) {f : α → β}
    (same : ∀ a, other (f a) = encode a) : Covers other size padding := by
  intro block length zeros
  obtain ⟨a, encoded⟩ := covers block length zeros
  exact ⟨f a, (same a).trans encoded⟩

end

theorem covers_put8 : Covers put8 1 [] := by
  intro block length _
  obtain ⟨b, rfl⟩ := List.length_eq_one_iff.mp length
  exact ⟨b, rfl⟩

theorem covers_put32 : Covers put32 4 [] := by
  intro block length _
  refine ⟨UInt32.ofNat (ofLittleEndian block), ?_⟩
  have small := ofLittleEndian_lt block
  rw [length] at small
  rw [put32, UInt32.toNat_ofNat_of_lt' small, ← length, littleEndian_ofLittleEndian]

theorem covers_put64 : Covers put64 8 [] := by
  intro block length _
  refine ⟨UInt64.ofNat (ofLittleEndian block), ?_⟩
  have small := ofLittleEndian_lt block
  rw [length] at small
  rw [put64, UInt64.toNat_ofNat_of_lt' small, ← length, littleEndian_ofLittleEndian]

theorem covers_putZeros (count : Nat) :
    Covers (fun _ : Unit => putZeros count) count (List.range count) := by
  intro block length zeros
  refine ⟨(), (List.eq_replicate_iff.mpr ⟨length, fun b listed => ?_⟩).symm⟩
  obtain ⟨i, within, rfl⟩ := List.getElem_of_mem listed
  have zero := zeros i (List.mem_range.mpr (length ▸ within))
  rwa [List.getD_eq_getElem?_getD, List.getElem?_eq_getElem within, Option.getD_some] at zero

theorem covers_textRef : Covers TextRef.encode 8 [] :=
  (covers_put32.append covers_put32).map (f := fun p => ⟨p.1, p.2⟩) fun _ => rfl

theorem covers_span : Covers Span.encode 8 [] :=
  (covers_put32.append covers_put32).map (f := fun p => ⟨p.1, p.2⟩) fun _ => rfl

theorem covers_typeRecord : Covers TypeRecord.encode typeSize [] :=
  (covers_textRef.append covers_put64 |>.append covers_put64 |>.append covers_put64
    |>.append covers_put32 |>.append covers_put32 |>.append covers_span |>.append covers_span
    |>.append covers_span |>.append covers_span).map
    (f := fun (((((((((name, typeHash), owner), size), align), flags), fields), methods),
      constructors), attributes) =>
      ⟨name, typeHash, owner, size, align, flags, fields, methods, constructors, attributes⟩)
    fun _ => rfl

theorem covers_fieldRecord : Covers FieldRecord.encode fieldSize [] :=
  (covers_textRef.append covers_put64 |>.append covers_put64 |>.append covers_put64
    |>.append covers_span).map
    (f := fun ((((name, type), offset), slot), attributes) => ⟨name, type, offset, slot, attributes⟩)
    fun _ => rfl

theorem covers_methodRecord : Covers MethodRecord.encode methodSize [36, 37, 38, 39] :=
  (covers_textRef.append covers_put64 |>.append covers_put64 |>.append covers_span
    |>.append covers_put32 |>.append (covers_putZeros 4) |>.append covers_span).map
    (f := fun ((((((name, returnType), signature), params), flags), _), attributes) =>
      ⟨name, returnType, signature, params, flags, attributes⟩)
    fun _ => rfl

theorem covers_constructorRecord : Covers ConstructorRecord.encode constructorSize [] :=
  (covers_put64.append covers_span |>.append covers_span).map
    (f := fun ((signature, params), attributes) => ⟨signature, params, attributes⟩) fun _ => rfl

theorem covers_attributeRecord :
    Covers AttributeRecord.encode attributeSize [9, 10, 11, 12, 13, 14, 15] :=
  (covers_textRef.append covers_put8 |>.append (covers_putZeros 7) |>.append covers_put64).map
    (f := fun (((key, kind), _), payload) => ⟨key, kind, payload⟩) fun _ => rfl

theorem covers_counts : Covers (fun c : Counts => c.toList.flatMap put32) 28 [] :=
  (covers_put32.append covers_put32 |>.append covers_put32 |>.append covers_put32
    |>.append covers_put32 |>.append covers_put32 |>.append covers_put32).map
    (f := fun ((((((types, fields), methods), constructors), attributes), params), textBytes) =>
      ⟨types, fields, methods, constructors, attributes, params, textBytes⟩)
    fun _ => by simp [Counts.toList]

theorem covers_offsets : Covers (fun o : Offsets => o.toList.flatMap put64) 72 [] :=
  (covers_put64.append covers_put64 |>.append covers_put64 |>.append covers_put64
    |>.append covers_put64 |>.append covers_put64 |>.append covers_put64 |>.append covers_put64
    |>.append covers_put64).map
    (f := fun ((((((((types, fields), methods), constructors), attributes), params), texts),
      methodSlots), constructorSlots) =>
      ⟨types, fields, methods, constructors, attributes, params, texts, methodSlots,
        constructorSlots⟩)
    fun _ => by simp [Offsets.toList]

theorem covers_header : Covers Header.encode headerSize [36, 37, 38, 39] :=
  (covers_put32.append covers_put32 |>.append covers_counts |>.append (covers_putZeros 4)
    |>.append covers_offsets |>.append covers_put64).map
    (f := fun (((((version, flags), counts), _), offsets), totalSize) =>
      ⟨version, flags, counts, offsets, totalSize⟩)
    fun _ => rfl

section

variable {padding : List Nat} {block : List UInt8}

@[simp] theorem length_cleared : (cleared padding block).length = block.length :=
  List.length_mapIdx

theorem getD_cleared {i : Nat} (listed : i ∈ padding) : (cleared padding block).getD i 0 = 0 := by
  rw [List.getD_eq_getElem?_getD, cleared, List.getElem?_mapIdx]
  cases block[i]? with
  | none => rfl
  | some b => simp [listed]

theorem cleared_eq_self_iff :
    cleared padding block = block ↔ ∀ i ∈ padding, block.getD i 0 = 0 := by
  constructor
  · intro same i listed
    rw [← same]
    exact getD_cleared listed
  · intro zeros
    refine List.ext_getElem length_cleared fun i _ within => ?_
    simp only [cleared, List.getElem_mapIdx]
    split
    next listed =>
      have zero := zeros i listed
      rw [List.getD_eq_getElem?_getD, List.getElem?_eq_getElem within, Option.getD_some] at zero
      exact zero.symm
    · rfl

theorem cleared_nil (block : List UInt8) : cleared [] block = block :=
  cleared_eq_self_iff.mpr fun _ listed => absurd listed List.not_mem_nil

/-- What stands beside the padding is read as though the padding were zero. -/
theorem Consumes.readAt_cleared {α : Type} {reader : Reader α} {size position : Nat}
    (consumes : Consumes reader size) (apart : ∀ i ∈ padding, i < position ∨ position + size ≤ i) :
    Image.readAt reader (cleared padding block) position = Image.readAt reader block position := by
  obtain ⟨value, runs⟩ := consumes
  have same : ((cleared padding block).drop position).take size =
      (block.drop position).take size := by
    refine List.ext_getElem (by simp) fun i first second => ?_
    have below : i < size := by
      rw [List.length_take] at first
      omega
    simp only [List.getElem_take, List.getElem_drop, cleared, List.getElem_mapIdx]
    refine if_neg fun listed => ?_
    have outside := apart _ listed
    omega
  simp only [Image.readAt, runs, same, List.length_drop, length_cleared]
  split <;> rfl

end

theorem Header.pick?_cleared (block : List UInt8) :
    Header.pick? (cleared [36, 37, 38, 39] block) = Header.pick? block := by
  simp (disch := decide) only [Header.pick?, length_cleared, consumes_read32.readAt_cleared,
    consumes_read64.readAt_cleared]

theorem MethodRecord.pick?_cleared (block : List UInt8) :
    MethodRecord.pick? (cleared [36, 37, 38, 39] block) = MethodRecord.pick? block := by
  simp (disch := decide) only [MethodRecord.pick?, consumes_textRef.readAt_cleared,
    consumes_read64.readAt_cleared, consumes_span.readAt_cleared, consumes_read32.readAt_cleared]

theorem AttributeRecord.pick?_cleared (block : List UInt8) :
    AttributeRecord.pick? (cleared [9, 10, 11, 12, 13, 14, 15] block) =
      AttributeRecord.pick? block := by
  simp (disch := decide) only [AttributeRecord.pick?, consumes_textRef.readAt_cleared,
    consumes_read8.readAt_cleared, consumes_read64.readAt_cleared]

/-- A kind of record: its reader takes the values that stand at fixed positions; every encoding has
the size of the kind and is taken for what has been encoded, whatever follows; too few bytes are
refused; and every block of the size is taken for something, of which it is the encoding exactly if
the padding is zero. -/
structure Codec {α : Type} (reader : Reader α) (pick? : List UInt8 → Option α)
    (encode : α → List UInt8) (size : Nat) (padding : List Nat) : Prop where
  picks : ∀ bytes position, readAt reader bytes position = pick? (bytes.drop position)
  sizes : ∀ a, (encode a).length = size
  decodes : ∀ a rest, pick? (encode a ++ rest) = some a
  refuses : ∀ bytes : List UInt8, bytes.length < size → pick? bytes = none
  encodes : ∀ block : List UInt8, block.length = size →
    ∃ a, pick? block = some a ∧ (encode a = block ↔ ∀ i ∈ padding, block.getD i 0 = 0)

theorem Codec.of {α : Type} {reader : Reader α} {pick? : List UInt8 → Option α}
    {encode : α → List UInt8} {size : Nat} {padding : List Nat}
    (picks : ∀ bytes position, readAt reader bytes position = pick? (bytes.drop position))
    (consumes : Consumes reader size) (sizes : ∀ a, (encode a).length = size)
    (reads : ∀ a, Reads reader (encode a) a) (covers : Covers encode size padding)
    (blind : ∀ block, pick? (cleared padding block) = pick? block) :
    Codec reader pick? encode size padding := by
  have fromStart (bytes : List UInt8) : pick? bytes = readAt reader bytes 0 := (picks bytes 0).symm
  have decodes (a : α) (rest : List UInt8) : pick? (encode a ++ rest) = some a := by
    rw [fromStart]
    exact (reads a).readAt [] rest
  refine ⟨picks, sizes, decodes, fun bytes short => ?_, fun block length => ?_⟩
  · rw [fromStart]
    exact consumes.readAt_eq_none short
  · obtain ⟨a, encoded⟩ := covers (cleared padding block) (length_cleared.trans length)
      fun i listed => getD_cleared listed
    refine ⟨a, ?_, by rw [encoded, cleared_eq_self_iff]⟩
    rw [← blind, ← encoded]
    simpa using decodes a []

theorem codec_header : Codec Header.read Header.pick? Header.encode headerSize [36, 37, 38, 39] :=
  .of readAt_header consumes_header length_header reads_header covers_header Header.pick?_cleared

theorem codec_typeRecord :
    Codec TypeRecord.read TypeRecord.pick? TypeRecord.encode typeSize [] :=
  .of readAt_typeRecord consumes_typeRecord length_typeRecord reads_typeRecord covers_typeRecord
    fun block => by rw [cleared_nil]

theorem codec_fieldRecord :
    Codec FieldRecord.read FieldRecord.pick? FieldRecord.encode fieldSize [] :=
  .of readAt_fieldRecord consumes_fieldRecord length_fieldRecord reads_fieldRecord
    covers_fieldRecord fun block => by rw [cleared_nil]

theorem codec_methodRecord :
    Codec MethodRecord.read MethodRecord.pick? MethodRecord.encode methodSize [36, 37, 38, 39] :=
  .of readAt_methodRecord consumes_methodRecord length_methodRecord reads_methodRecord
    covers_methodRecord MethodRecord.pick?_cleared

theorem codec_constructorRecord : Codec ConstructorRecord.read ConstructorRecord.pick?
    ConstructorRecord.encode constructorSize [] :=
  .of readAt_constructorRecord consumes_constructorRecord length_constructorRecord
    reads_constructorRecord covers_constructorRecord fun block => by rw [cleared_nil]

theorem codec_attributeRecord : Codec AttributeRecord.read AttributeRecord.pick?
    AttributeRecord.encode attributeSize [9, 10, 11, 12, 13, 14, 15] :=
  .of readAt_attributeRecord consumes_attributeRecord length_attributeRecord reads_attributeRecord
    covers_attributeRecord AttributeRecord.pick?_cleared

/-- The header and every kind of record are codecs, of which the header and the records of methods have
four bytes of padding and those of attributes seven, and the header of an image is decoded by that
codec; and packing a reference to text into a word and taking it out of the word undo each other. -/
theorem codecs_invert :
    Codec Header.read Header.pick? Header.encode headerSize [36, 37, 38, 39] ∧
    (∀ bytes, Header.decode? bytes = Header.pick? bytes) ∧
    Codec TypeRecord.read TypeRecord.pick? TypeRecord.encode typeSize [] ∧
    Codec FieldRecord.read FieldRecord.pick? FieldRecord.encode fieldSize [] ∧
    Codec MethodRecord.read MethodRecord.pick? MethodRecord.encode methodSize [36, 37, 38, 39] ∧
    Codec ConstructorRecord.read ConstructorRecord.pick? ConstructorRecord.encode
      constructorSize [] ∧
    Codec AttributeRecord.read AttributeRecord.pick? AttributeRecord.encode attributeSize
      [9, 10, 11, 12, 13, 14, 15] ∧
    (∀ t : TextRef, TextRef.unpack t.pack = t) ∧
    ∀ word, (TextRef.unpack word).pack = word :=
  ⟨codec_header, fun bytes => readAt_header bytes 0, codec_typeRecord, codec_fieldRecord,
    codec_methodRecord, codec_constructorRecord, codec_attributeRecord, TextRef.unpack_pack,
    TextRef.pack_unpack⟩

/-- A block that differs from the record of a method in a byte of padding is read as that record. -/
example :
    let m : MethodRecord := ⟨⟨1, 2⟩, 3, 4, ⟨5, 6⟩, 7, ⟨8, 9⟩⟩
    let other := m.encode.set 38 255
    other ≠ m.encode ∧ MethodRecord.pick? other = some m := by
  decide

end TypeCatalog.Image
