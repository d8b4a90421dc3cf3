import TypeCatalog.Proofs.Image.Bounds

/-!
Reading by position. The readers take a header or a record from its first byte to its last; the same
values stand at fixed positions of it, whatever the bytes between them are, and can be read there one
by one. Nothing is read of the padding that the layouts leave, so two blocks that differ in padding
alone are read as the same.
-/
namespace TypeCatalog.Image

section

variable {α β : Type} {reader : Reader α} {next : α → Reader β} {size more : Nat}
  {bytes : List UInt8} {position : Nat}

theorem readAt_drop (reader : Reader α) (bytes : List UInt8) (position : Nat) :
    readAt reader (bytes.drop position) 0 = readAt reader bytes position := by
  rw [readAt, readAt, List.drop_zero]

theorem readAt_pure (a : α) : readAt (pure a) bytes position = some a := rfl

/-- What follows a reader reads on where that reader stops. -/
theorem Consumes.readAt_bind (consumes : Consumes reader size) :
    Image.readAt (reader >>= next) bytes position =
      Image.readAt reader bytes position >>= fun a =>
        Image.readAt (next a) bytes (position + size) := by
  obtain ⟨value, runs⟩ := consumes
  simp only [Image.readAt, StateT.run_bind, runs]
  split
  · simp [List.drop_drop]
  · rfl

/-- A reader of some bytes fails where there are too few. -/
theorem Consumes.readAt_eq_none (consumes : Consumes reader size)
    (few : bytes.length - position < size) : Image.readAt reader bytes position = none := by
  obtain ⟨value, runs⟩ := consumes
  rw [Image.readAt, runs, List.length_drop, if_neg (by omega)]
  rfl

/-- To skip bytes that something is read behind is to read it behind them. -/
theorem Consumes.readAt_skip (consumes : Consumes reader size) (positive : 0 < size) (count : Nat) :
    Image.readAt (skip count >>= fun _ => reader >>= next) bytes position =
      Image.readAt (reader >>= next) bytes (position + count) := by
  rw [(consumes_skip count).readAt_bind]
  by_cases enough : position + count ≤ bytes.length
  · obtain ⟨u, skipped, -⟩ := (consumes_skip count).readAt enough
    rw [skipped, Option.bind_eq_bind, Option.bind_some]
  · have nothing : Image.readAt reader bytes (position + count) = none :=
      consumes.readAt_eq_none (by omega)
    rw [consumes.readAt_bind, nothing]
    exact Option.bind_fun_none _

end

theorem consumes_header : Consumes Header.read headerSize :=
  consumes_read32.bind fun _ => consumes_read32.bind fun _ => consumes_read32.bind fun _ =>
    consumes_read32.bind fun _ => consumes_read32.bind fun _ => consumes_read32.bind fun _ =>
      consumes_read32.bind fun _ => consumes_read32.bind fun _ => consumes_read32.bind fun _ =>
        (consumes_skip 4).bind fun _ => consumes_read64.bind fun _ => consumes_read64.bind fun _ =>
          consumes_read64.bind fun _ => consumes_read64.bind fun _ => consumes_read64.bind fun _ =>
            consumes_read64.bind fun _ => consumes_read64.bind fun _ => consumes_read64.bind fun _ =>
              consumes_read64.bind fun _ => consumes_read64.bind fun _ => consumes_pure _

def Header.pick? (bytes : List UInt8) : Option Header :=
  if bytes.length < headerSize then none
  else do
    let count (i : Nat) := readAt read32 bytes (8 + 4 * i)
    let offset (i : Nat) := readAt read64 bytes (40 + 8 * i)
    return ⟨← readAt read32 bytes 0, ← readAt read32 bytes 4,
      ⟨← count 0, ← count 1, ← count 2, ← count 3, ← count 4, ← count 5, ← count 6⟩,
      ⟨← offset 0, ← offset 1, ← offset 2, ← offset 3, ← offset 4, ← offset 5, ← offset 6,
        ← offset 7, ← offset 8⟩,
      ← readAt read64 bytes 112⟩

def TypeRecord.pick? (bytes : List UInt8) : Option TypeRecord :=
  return ⟨← readAt TextRef.read bytes 0, ← readAt read64 bytes 8, ← readAt read64 bytes 16,
    ← readAt read64 bytes 24, ← readAt read32 bytes 32, ← readAt read32 bytes 36,
    ← readAt Span.read bytes 40, ← readAt Span.read bytes 48, ← readAt Span.read bytes 56,
    ← readAt Span.read bytes 64⟩

def FieldRecord.pick? (bytes : List UInt8) : Option FieldRecord :=
  return ⟨← readAt TextRef.read bytes 0, ← readAt read64 bytes 8, ← readAt read64 bytes 16,
    ← readAt read64 bytes 24, ← readAt Span.read bytes 32⟩

def MethodRecord.pick? (bytes : List UInt8) : Option MethodRecord :=
  return ⟨← readAt TextRef.read bytes 0, ← readAt read64 bytes 8, ← readAt read64 bytes 16,
    ← readAt Span.read bytes 24, ← readAt read32 bytes 32, ← readAt Span.read bytes 40⟩

def ConstructorRecord.pick? (bytes : List UInt8) : Option ConstructorRecord :=
  return ⟨← readAt read64 bytes 0, ← readAt Span.read bytes 8, ← readAt Span.read bytes 16⟩

def AttributeRecord.pick? (bytes : List UInt8) : Option AttributeRecord :=
  return ⟨← readAt TextRef.read bytes 0, ← readAt read8 bytes 8, ← readAt read64 bytes 16⟩

theorem readAt_typeRecord (bytes : List UInt8) (position : Nat) :
    readAt TypeRecord.read bytes position = TypeRecord.pick? (bytes.drop position) := by
  rw [← readAt_drop]
  simp only [TypeRecord.read, consumes_textRef.readAt_bind, consumes_read64.readAt_bind,
    consumes_read32.readAt_bind, consumes_span.readAt_bind, readAt_pure]
  rfl

theorem readAt_fieldRecord (bytes : List UInt8) (position : Nat) :
    readAt FieldRecord.read bytes position = FieldRecord.pick? (bytes.drop position) := by
  rw [← readAt_drop]
  simp only [FieldRecord.read, consumes_textRef.readAt_bind, consumes_read64.readAt_bind,
    consumes_span.readAt_bind, readAt_pure]
  rfl

theorem readAt_constructorRecord (bytes : List UInt8) (position : Nat) :
    readAt ConstructorRecord.read bytes position = ConstructorRecord.pick? (bytes.drop position) := by
  rw [← readAt_drop]
  simp only [ConstructorRecord.read, consumes_read64.readAt_bind, consumes_span.readAt_bind,
    readAt_pure]
  rfl

theorem readAt_methodRecord (bytes : List UInt8) (position : Nat) :
    readAt MethodRecord.read bytes position = MethodRecord.pick? (bytes.drop position) := by
  rw [← readAt_drop]
  simp only [MethodRecord.read, consumes_textRef.readAt_bind, consumes_read64.readAt_bind,
    consumes_read32.readAt_bind, consumes_span.readAt_bind, readAt_pure,
    consumes_span.readAt_skip (Nat.succ_pos 7)]
  rfl

theorem readAt_attributeRecord (bytes : List UInt8) (position : Nat) :
    readAt AttributeRecord.read bytes position = AttributeRecord.pick? (bytes.drop position) := by
  rw [← readAt_drop]
  simp only [AttributeRecord.read, consumes_textRef.readAt_bind, consumes_read8.readAt_bind,
    consumes_read64.readAt_bind, readAt_pure, consumes_read64.readAt_skip (Nat.succ_pos 7)]
  rfl

theorem readAt_header (bytes : List UInt8) (position : Nat) :
    readAt Header.read bytes position = Header.pick? (bytes.drop position) := by
  rw [← readAt_drop, Header.pick?]
  split
  next short => exact consumes_header.readAt_eq_none short
  simp only [Header.read, consumes_read32.readAt_bind, consumes_read64.readAt_bind, readAt_pure,
    consumes_read64.readAt_skip (Nat.succ_pos 7)]
  rfl

end TypeCatalog.Image
