import TypeCatalog.Image.Layout
import TypeCatalog.Image.Record

/-!
Reading back what has been encoded. Every encoding of a number, a reference, a record or a header is
taken for that value by its reader, whatever follows it, and all encodings of a kind have one
length; so the records of a section are read at multiples of that length.
-/
namespace TypeCatalog.Image

/-- A reader takes these bytes for this value and leaves what follows. -/
def Reads {α : Type} (reader : Reader α) (bytes : List UInt8) (value : α) : Prop :=
  ∀ rest, reader.run (bytes ++ rest) = some (value, rest)

section

variable {α β : Type}

theorem Reads.bind {reader : Reader α} {next : α → Reader β} {a b : List UInt8} {x : α} {y : β}
    (first : Reads reader a x) (second : Reads (next x) b y) :
    Reads (reader >>= next) (a ++ b) y := by
  intro rest
  rw [StateT.run_bind, List.append_assoc, first]
  exact second rest

theorem Reads.map {reader : Reader α} {a : List UInt8} {x : α} (first : Reads reader a x)
    (f : α → β) : Reads (reader >>= fun v => pure (f v)) a (f x) := by
  intro rest
  rw [StateT.run_bind, first]
  rfl

theorem reads_take {bytes : List UInt8} {count : Nat} (length : bytes.length = count) :
    Reads (take count) bytes bytes := by
  intro rest
  show (if count ≤ (bytes ++ rest).length then
    some ((bytes ++ rest).take count, (bytes ++ rest).drop count) else none) = _
  rw [if_pos (by rw [List.length_append]; omega), ← length, List.take_left, List.drop_left]

theorem Reads.skip {bytes : List UInt8} {count : Nat} (length : bytes.length = count) :
    Reads (skip count) bytes () :=
  (reads_take length).map fun _ => ()

theorem Reads.readAt {reader : Reader α} {bytes : List UInt8} {x : α} (reads : Reads reader bytes x)
    (pre post : List UInt8) : readAt reader (pre ++ (bytes ++ post)) pre.length = some x := by
  rw [Image.readAt, List.drop_left, reads post]
  rfl

end

@[simp] theorem length_put8 (n : UInt8) : (put8 n).length = 1 := rfl

@[simp] theorem length_put32 (n : UInt32) : (put32 n).length = 4 := length_littleEndian 4 n.toNat

@[simp] theorem length_put64 (n : UInt64) : (put64 n).length = 8 := length_littleEndian 8 n.toNat

@[simp] theorem length_putZeros (count : Nat) : (putZeros count).length = count :=
  List.length_replicate

theorem reads_put8 (n : UInt8) : Reads read8 (put8 n) n := by
  have taken := (reads_take (length_put8 n)).map fun bytes => UInt8.ofNat (ofLittleEndian bytes)
  have value : UInt8.ofNat (ofLittleEndian (put8 n)) = n := by
    simp [put8, ofLittleEndian]
  rwa [value] at taken

theorem reads_put32 (n : UInt32) : Reads read32 (put32 n) n := by
  have taken := (reads_take (length_put32 n)).map fun bytes => UInt32.ofNat (ofLittleEndian bytes)
  have value : UInt32.ofNat (ofLittleEndian (put32 n)) = n := by
    have small : n.toNat < Nat.pow 256 4 := n.toNat_lt
    rw [put32, ofLittleEndian_littleEndian, Nat.mod_eq_of_lt small, UInt32.ofNat_toNat]
  rwa [value] at taken

theorem reads_put64 (n : UInt64) : Reads read64 (put64 n) n := by
  have taken := (reads_take (length_put64 n)).map fun bytes => UInt64.ofNat (ofLittleEndian bytes)
  have value : UInt64.ofNat (ofLittleEndian (put64 n)) = n := by
    have small : n.toNat < Nat.pow 256 8 := n.toNat_lt
    rw [put64, ofLittleEndian_littleEndian, Nat.mod_eq_of_lt small, UInt64.ofNat_toNat]
  rwa [value] at taken

@[simp] theorem length_textRef (t : TextRef) : t.encode.length = 8 := by simp [TextRef.encode]

@[simp] theorem length_span (s : Span) : s.encode.length = 8 := by simp [Span.encode]

theorem length_typeRecord (t : TypeRecord) : t.encode.length = typeSize := by
  simp [TypeRecord.encode, typeSize]

theorem length_fieldRecord (f : FieldRecord) : f.encode.length = fieldSize := by
  simp [FieldRecord.encode, fieldSize]

theorem length_methodRecord (m : MethodRecord) : m.encode.length = methodSize := by
  simp [MethodRecord.encode, methodSize]

theorem length_constructorRecord (c : ConstructorRecord) : c.encode.length = constructorSize := by
  simp [ConstructorRecord.encode, constructorSize]

theorem length_attributeRecord (a : AttributeRecord) : a.encode.length = attributeSize := by
  simp [AttributeRecord.encode, attributeSize]

theorem reads_textRef (t : TextRef) : Reads TextRef.read t.encode t :=
  (reads_put32 t.offset).bind ((reads_put32 t.length).map _)

theorem reads_span (s : Span) : Reads Span.read s.encode s :=
  (reads_put32 s.start).bind ((reads_put32 s.count).map _)

theorem reads_typeRecord (t : TypeRecord) : Reads TypeRecord.read t.encode t := by
  simp only [TypeRecord.encode, List.append_assoc]
  refine (reads_textRef t.name).bind ((reads_put64 t.typeHash).bind ((reads_put64 t.owner).bind ?_))
  refine (reads_put64 t.size).bind ((reads_put32 t.align).bind ((reads_put32 t.flags).bind ?_))
  refine (reads_span t.fields).bind ((reads_span t.methods).bind ?_)
  exact (reads_span t.constructors).bind ((reads_span t.attributes).map _)

theorem reads_fieldRecord (f : FieldRecord) : Reads FieldRecord.read f.encode f := by
  simp only [FieldRecord.encode, List.append_assoc]
  refine (reads_textRef f.name).bind ((reads_put64 f.type).bind ((reads_put64 f.offset).bind ?_))
  exact (reads_put64 f.slot).bind ((reads_span f.attributes).map _)

theorem reads_methodRecord (m : MethodRecord) : Reads MethodRecord.read m.encode m := by
  simp only [MethodRecord.encode, List.append_assoc]
  refine (reads_textRef m.name).bind ((reads_put64 m.returnType).bind ?_)
  refine (reads_put64 m.signature).bind ((reads_span m.params).bind ((reads_put32 m.flags).bind ?_))
  exact (Reads.skip (length_put32 0)).bind ((reads_span m.attributes).map _)

theorem reads_constructorRecord (c : ConstructorRecord) :
    Reads ConstructorRecord.read c.encode c := by
  simp only [ConstructorRecord.encode, List.append_assoc]
  exact (reads_put64 c.signature).bind
    ((reads_span c.params).bind ((reads_span c.attributes).map _))

theorem reads_attributeRecord (a : AttributeRecord) : Reads AttributeRecord.read a.encode a := by
  simp only [AttributeRecord.encode, List.append_assoc]
  refine (reads_textRef a.key).bind ((reads_put8 a.kind).bind ?_)
  exact (Reads.skip (length_putZeros 7)).bind ((reads_put64 a.payload).map _)

theorem length_header (h : Header) : h.encode.length = headerSize := by
  simp [Header.encode, Counts.toList, Offsets.toList, headerSize]

theorem reads_header (h : Header) : Reads Header.read h.encode h := by
  obtain ⟨version, flags, c, o, totalSize⟩ := h
  simp only [Header.encode, Counts.toList, Offsets.toList, List.flatMap_cons, List.flatMap_nil,
    List.append_nil, List.append_assoc]
  refine (reads_put32 version).bind ((reads_put32 flags).bind ?_)
  refine (reads_put32 c.types).bind ((reads_put32 c.fields).bind ((reads_put32 c.methods).bind ?_))
  refine (reads_put32 c.constructors).bind ((reads_put32 c.attributes).bind ?_)
  refine (reads_put32 c.params).bind ((reads_put32 c.textBytes).bind ?_)
  refine (Reads.skip (length_put32 0)).bind ((reads_put64 o.types).bind ?_)
  refine (reads_put64 o.fields).bind ((reads_put64 o.methods).bind ?_)
  refine (reads_put64 o.constructors).bind ((reads_put64 o.attributes).bind ?_)
  refine (reads_put64 o.params).bind ((reads_put64 o.texts).bind ?_)
  refine (reads_put64 o.methodSlots).bind ((reads_put64 o.constructorSlots).bind ?_)
  exact (reads_put64 totalSize).map _

section

variable {α : Type} {encode : α → List UInt8} {size : Nat}

theorem length_section (sizes : ∀ a, (encode a).length = size) (items : List α) :
    (items.flatMap encode).length = items.length * size := by
  induction items with
  | nil => simp
  | cons first rest ih =>
    rw [List.flatMap_cons, List.length_append, sizes, ih, List.length_cons, Nat.succ_mul]
    omega

/-- The encoding of an item stands in that of the whole section at a multiple of its size. -/
theorem split_section (sizes : ∀ a, (encode a).length = size) {items : List α} {index : Nat} {a : α}
    (found : items[index]? = some a) : ∃ before after,
      items.flatMap encode = before ++ encode a ++ after ∧ before.length = index * size := by
  obtain ⟨within, rfl⟩ := List.getElem?_eq_some_iff.mp found
  have split := List.take_append_drop index items
  rw [List.drop_eq_getElem_cons within] at split
  refine ⟨(items.take index).flatMap encode, (items.drop (index + 1)).flatMap encode, ?_, ?_⟩
  · have whole := congrArg (List.flatMap encode) split
    simp only [List.flatMap_append, List.flatMap_cons] at whole
    simp only [← whole, List.append_assoc]
  · rw [length_section sizes, List.length_take, Nat.min_eq_left (Nat.le_of_lt within)]

theorem readAt_section {reader : Reader α} (sizes : ∀ a, (encode a).length = size)
    (reads : ∀ a, Reads reader (encode a) a) (pre post : List UInt8) {items : List α} {index : Nat}
    {a : α} (found : items[index]? = some a) :
    readAt reader (pre ++ items.flatMap encode ++ post) (pre.length + index * size) = some a := by
  obtain ⟨before, after, whole, length⟩ := split_section sizes found
  have bytes : pre ++ items.flatMap encode ++ post =
      (pre ++ before) ++ (encode a ++ (after ++ post)) := by
    simp only [whole, List.append_assoc]
  rw [bytes, ← length, ← List.length_append]
  exact (reads a).readAt _ _

end

end TypeCatalog.Image
