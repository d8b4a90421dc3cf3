import TypeCatalog.Proofs.Image.Rejection

/-!
The reading of an image as a machine performs it. Positions and lengths are machine words; an
addition that nothing checks and an index that nothing checks stop the machine where they go wrong.
Whatever the bytes are, none of them does: what the header has passed keeps every position within
the image, and the machine reads what `decode` reads.
-/
namespace TypeCatalog.Image

/-- What stops a machine. -/
inductive Fault where
  | overflow
  | outOfBounds
deriving DecidableEq

/-- A computation that a fault may stop, and that may have no result. -/
abbrev Guarded := OptionT (Except Fault)

/-- A computation that a fault may stop, and that may reject the image. -/
abbrev Judged := ExceptT MergeError (Except Fault)

namespace Machine

-- The checked operations have no result where the others go wrong.
def add? (m n : Nat) : Option Nat := if m + n < UInt64.size then some (m + n) else none

def mul? (m n : Nat) : Option Nat := if m * n < UInt64.size then some (m * n) else none

def add (m n : Nat) : Except Fault Nat :=
  if m + n < UInt64.size then .ok (m + n) else .error .overflow

def slice? {α : Type} (entries : List α) (first last : Nat) : Option (List α) :=
  if first ≤ last ∧ last ≤ entries.length then some ((entries.drop first).take (last - first))
  else none

def slice {α : Type} (entries : List α) (first last : Nat) : Except Fault (List α) :=
  if first ≤ last ∧ last ≤ entries.length then .ok ((entries.drop first).take (last - first))
  else .error .outOfBounds

/-- A result of checked operations only. -/
def checked {α : Type} (result : Option α) : Guarded α := OptionT.mk (.ok result)

/-- A result of checked operations, without which the image is rejected. -/
def required {α : Type} (result : Option α) : Judged α :=
  ExceptT.mk (.ok (result.elim (.error .corruptOffsets) .ok))

def regionFits (h : Header) (e : Extent) : Bool :=
  match mul? e.count.toNat e.size with
  | none => false
  | some 0 => true
  | some length => match add? e.offset.toNat length with
    | none => false
    | some last => headerSize ≤ e.offset.toNat && last ≤ h.totalSize.toNat

def texts (bytes : List UInt8) (h : Header) : Judged (List UInt8) := do
  if h.counts.textBytes = 0 then return []
  let last ← add h.offsets.texts.toNat h.counts.textBytes.toNat
  required (slice? bytes h.offsets.texts.toNat last)

def ofBytes (bytes : List UInt8) : Judged View := do
  let some found := readAt read32 bytes 0 | throw .corruptOffsets
  if found ≠ version then throw (.unsupportedVersion found)
  let some header := Header.decode? bytes | throw .corruptOffsets
  if bytes.length < header.totalSize.toNat then throw .corruptOffsets
  if header.extents.any (!regionFits header ·) then throw .corruptOffsets
  return ⟨bytes, header, ← texts bytes header⟩

def record? {α : Type} (v : View) (reader : Reader α) (size : Nat) (offset : UInt64) (index : Nat) :
    Option α := do
  let first ← add? offset.toNat (← mul? index size)
  let entry ← slice? v.bytes first (← add? first size)
  -- Within an entry, all positions are constants.
  readAt reader entry 0

def span? (start count : UInt32) (length : Nat) : Option (Nat × Nat) := do
  let last ← add? start.toNat count.toNat
  if last ≤ length then some (start.toNat, last) else none

def text? (v : View) (ref : TextRef) : Guarded String := do
  let (first, last) ← checked (span? ref.offset ref.length v.texts.length)
  let bytes ← slice v.texts first last
  checked (String.fromUTF8? ⟨bytes.toArray⟩)

def pick? {α : Type} (span : Span) (entries : List α) : Guarded (List α) := do
  let (first, last) ← checked (span? span.start span.count entries.length)
  slice entries first last

def params? (v : View) (span : Span) : Option (List TypeHash) := do
  let (first, last) ← span? span.start span.count v.header.counts.params.toNat
  (List.range' first (last - first)).mapM fun index =>
    (record? v read64 wordSize v.header.offsets.params index).map TypeHash.mk

def attributeValue? (v : View) (kind : UInt8) (payload : UInt64) : Guarded AttributeValue := do
  match ← checked (AttributeKind.ofTag? kind) with
  | .bool =>
    if payload = 0 then return .bool false
    else if payload = 1 then return .bool true
    else failure
  | .int => return .int payload.toInt64
  | .double => return .double payload
  | .string => return .string (← text? v (.unpack payload))
  | .type => return .type ⟨payload⟩

def attribute? (v : View) (index : Nat) : Guarded ReadAttribute := do
  let record ← checked
    (record? v AttributeRecord.read attributeSize v.header.offsets.attributes index)
  let key ← text? v record.key
  let value ← attributeValue? v record.kind record.payload
  return ⟨key, value⟩

def field? (v : View) (exports : ExportTable) (attributes : List ReadAttribute) (index : Nat) :
    Guarded ReadField := do
  let record ← checked (record? v FieldRecord.read fieldSize v.header.offsets.fields index)
  let name ← text? v record.name
  let accessor ← checked (exports.accessor? record.slot)
  let attributes ← pick? record.attributes attributes
  let offset := if record.offset = unknownOffset then none else some record.offset
  return ⟨name, ⟨record.type⟩, offset, accessor, attributes⟩

def callable? (v : View) (exports : ExportTable) (slots : UInt64) (index arity : Nat) :
    Option Callable := do
  let slot ← record? v read64 wordSize slots index
  (exports.callable? slot).filter (·.arity = arity)

def method? (v : View) (exports : ExportTable) (attributes : List ReadAttribute) (index : Nat) :
    Guarded ReadMethod := do
  let record ← checked (record? v MethodRecord.read methodSize v.header.offsets.methods index)
  let name ← text? v record.name
  let params ← checked (params? v record.params)
  let flags ← checked (MethodFlags.ofBits? record.flags)
  let callable ← checked
    (callable? v exports v.header.offsets.methodSlots index params.length)
  let attributes ← pick? record.attributes attributes
  return ⟨name, params, ⟨record.returnType⟩, ⟨record.signature⟩, flags, callable, attributes⟩

def constructor? (v : View) (exports : ExportTable) (attributes : List ReadAttribute)
    (index : Nat) : Guarded ReadConstructor := do
  let record ← checked
    (record? v ConstructorRecord.read constructorSize v.header.offsets.constructors index)
  let params ← checked (params? v record.params)
  let callable ← checked
    (callable? v exports v.header.offsets.constructorSlots index params.length)
  let attributes ← pick? record.attributes attributes
  return ⟨params, ⟨record.signature⟩, callable, attributes⟩

def type? (v : View) (members : View.Members) (index : Nat) : Guarded ReadType := do
  let record ← checked (record? v TypeRecord.read typeSize v.header.offsets.types index)
  -- The hashes that have been seen are looked at before anything else of the record.
  let _ ← checked (if v.isRepeated index then none else some ())
  let name ← text? v record.name
  let flags ← checked (TypeFlags.ofBits? record.flags)
  let fields ← pick? record.fields members.fields
  let methods ← pick? record.methods members.methods
  let constructors ← pick? record.constructors members.constructors
  let attributes ← pick? record.attributes members.attributes
  return ⟨name, ⟨record.typeHash⟩, ⟨record.owner⟩, record.size, record.align.toUInt64, flags,
    fields, methods, constructors, attributes⟩

def readAll {α : Type} (count : UInt32) (corrupt : Nat → MergeError) (read? : Nat → Guarded α) :
    Judged (List α) :=
  (List.range count.toNat).mapM fun index => ExceptT.mk do
    match ← (read? index).run with
    | some record => return .ok record
    | none => return .error (corrupt index)

def decode (exports : ExportTable) (bytes : List UInt8) : Judged (List ReadType) := do
  let v ← ofBytes bytes
  let counts := v.header.counts
  let attributes ← readAll counts.attributes .corruptAttributeRecord (attribute? v)
  let fields ← readAll counts.fields .corruptFieldRecord (field? v exports attributes)
  let methods ← readAll counts.methods .corruptMethodRecord (method? v exports attributes)
  let constructors ←
    readAll counts.constructors .corruptConstructorRecord (constructor? v exports attributes)
  readAll counts.types .corruptTypeRecord (type? v ⟨fields, methods, constructors, attributes⟩)

def Gives {α : Type} (x : Guarded α) (answer : Option α) : Prop := x.run = .ok answer

def Returns {α : Type} (x : Judged α) (answer : Except MergeError α) : Prop := x.run = .ok answer

section

variable {α β : Type}

theorem gives_checked {result answer : Option α} (same : result = answer) :
    Gives (checked result) answer := congrArg Except.ok same

theorem gives_pure (a : α) : Gives (pure a) (some a) := rfl

theorem Gives.bind {x : Guarded α} {answer : Option α} {next : α → Guarded β}
    {after : α → Option β} (first : Gives x answer)
    (rest : ∀ a, answer = some a → Gives (next a) (after a)) :
    Gives (x >>= next) (answer >>= after) := by
  rw [Gives, OptionT.run_bind, first]
  cases answer with
  | none => rfl
  | some a => exact rest a rfl

theorem returns_pure (a : α) : Returns (pure a) (.ok a) := rfl

theorem Returns.bind {x : Judged α} {answer : Except MergeError α} {next : α → Judged β}
    {after : α → Except MergeError β} (first : Returns x answer)
    (rest : ∀ a, answer = .ok a → Returns (next a) (after a)) :
    Returns (x >>= next) (answer >>= after) := by
  rw [Returns, ExceptT.run_bind, first]
  cases answer with
  | error e => rfl
  | ok a => exact rest a rfl

theorem returns_mapM {f : α → Judged β} {g : α → Except MergeError β} {xs : List α}
    (each : ∀ x ∈ xs, Returns (f x) (g x)) : Returns (xs.mapM f) (xs.mapM g) := by
  induction xs with
  | nil => exact returns_pure []
  | cons x xs ih =>
    rw [List.mapM_cons, List.mapM_cons]
    have rest := ih fun x listed => each x (List.mem_cons_of_mem _ listed)
    exact (each x List.mem_cons_self).bind fun y _ => rest.bind fun ys _ => returns_pure (y :: ys)

theorem returns_readAll {count : UInt32} {corrupt : Nat → MergeError} {guarded : Nat → Guarded α}
    {read? : Nat → Option α} (each : ∀ index < count.toNat, Gives (guarded index) (read? index)) :
    Returns (readAll count corrupt guarded) (View.readAll count corrupt read?) := by
  refine returns_mapM fun index listed => ?_
  have same := each index (List.mem_range.mp listed)
  rw [Gives] at same
  rw [Returns, ExceptT.run_mk, same]
  cases read? index <;> rfl

end

theorem add?_eq_some {m n : Nat} (small : m + n < UInt64.size) : add? m n = some (m + n) :=
  if_pos small

theorem mul?_eq_some {m n : Nat} (small : m * n < UInt64.size) : mul? m n = some (m * n) :=
  if_pos small

theorem slice?_eq_some {α : Type} {entries : List α} {first last : Nat} (ordered : first ≤ last)
    (within : last ≤ entries.length) :
    slice? entries first last = some ((entries.drop first).take (last - first)) :=
  if_pos ⟨ordered, within⟩

/-- The machine's run of entries is the one of the model: two words of 32 bits cannot overflow. -/
theorem span?_eq (start count : UInt32) (length : Nat) :
    span? start count length = Span.within? start count length := by
  have low := start.toNat_lt
  have high := count.toNat_lt
  rw [span?, add?_eq_some (by rw [UInt64.size]; omega)]
  rfl

theorem within?_bounds {start count : UInt32} {length : Nat} {run : Nat × Nat}
    (within : Span.within? start count length = some run) : run.1 ≤ run.2 ∧ run.2 ≤ length := by
  rw [Span.within?] at within
  split at within
  case isFalse => contradiction
  case isTrue fits =>
    cases within
    exact ⟨Nat.le_add_right _ _, fits⟩

theorem gives_slice {α : Type} {entries : List α} {start count : UInt32} {run : Nat × Nat}
    (within : Span.within? start count entries.length = some run) :
    Gives (slice entries run.1 run.2) (some ((entries.drop run.1).take (run.2 - run.1))) := by
  rw [slice, if_pos (within?_bounds within)]
  rfl

theorem gives_text? (v : View) (ref : TextRef) : Gives (text? v ref) (v.text? ref) :=
  (gives_checked (span?_eq _ _ _)).bind fun _ within =>
    (gives_slice within).bind fun _ _ => gives_checked rfl

theorem gives_pick? {α : Type} (span : Span) (entries : List α) :
    Gives (pick? span entries) (span.pick? entries) := by
  rw [Span.pick?, Option.map_eq_bind]
  exact (gives_checked (span?_eq _ _ _)).bind fun _ within => gives_slice within

theorem gives_attributeValue? (v : View) (kind : UInt8) (payload : UInt64) :
    Gives (attributeValue? v kind payload) (v.attributeValue? kind payload) := by
  refine (gives_checked rfl).bind fun kind _ => ?_
  cases kind with
  | bool =>
    by_cases off : payload = 0
    · simp only [if_pos off]
      rfl
    · by_cases on : payload = 1
      · simp only [if_neg off, if_pos on]
        rfl
      · simp only [if_neg off, if_neg on]
        rfl
  | int => rfl
  | double => rfl
  | string =>
    simp only [Option.map_eq_bind]
    exact (gives_text? v _).bind fun _ _ => rfl
  | type => rfl

section

variable {v : View}

/-- An entry that its section counts is read where it stands. -/
theorem record?_eq (checked : v.Checked) {α : Type} {reader : Reader α} {e : Extent}
    (holds : v.header.Holds reader e) {index : Nat} (below : index < e.count.toNat) :
    record? v reader e.size e.offset index = v.record? reader e.size e.offset index := by
  have entry := checked.entry_le holds.listed below
  have total := checked.total
  have word := v.header.totalSize.toNat_lt
  have within : e.offset.toNat + index * e.size + e.size ≤ v.bytes.length := by omega
  -- All sums are below the total size, which is a word itself, however long the bytes are.
  obtain ⟨a, whole, alone⟩ := holds.consumes.readAt within
  have first : index * e.size < UInt64.size := by rw [UInt64.size]; omega
  have second : e.offset.toNat + index * e.size < UInt64.size := by rw [UInt64.size]; omega
  have third : e.offset.toNat + index * e.size + e.size < UInt64.size := by
    rw [UInt64.size]
    omega
  rw [View.record?, whole, record?, mul?_eq_some first]
  simp only [Option.bind_eq_bind, Option.bind_some, add?_eq_some second, add?_eq_some third,
    slice?_eq_some (Nat.le_add_right _ _) within, Nat.add_sub_cancel_left]
  exact alone

theorem mapM_congr {α β : Type} {f g : α → Option β} {xs : List α} (same : ∀ x ∈ xs, f x = g x) :
    xs.mapM f = xs.mapM g := by
  induction xs with
  | nil => rfl
  | cons x xs ih =>
    rw [List.mapM_cons, List.mapM_cons, same x List.mem_cons_self,
      ih fun x listed => same x (List.mem_cons_of_mem _ listed)]

theorem params?_eq (checked : v.Checked) (span : Span) : params? v span = v.params? span := by
  rw [params?, View.params?, span?_eq]
  cases within : Span.within? span.start span.count v.header.counts.params.toNat with
  | none => rfl
  | some run =>
    obtain ⟨ordered, last⟩ := within?_bounds within
    refine mapM_congr fun index listed => ?_
    have below := (List.mem_range'_1.mp listed).2
    have counted : index < v.header.counts.params.toNat := by omega
    rw [record?_eq checked v.header.holds_params counted]

theorem callable?_eq (exports : ExportTable) {slots : UInt64} {index arity : Nat}
    (same : record? v read64 wordSize slots index = v.record? read64 wordSize slots index) :
    callable? v exports slots index arity = v.callable? exports slots index arity := by
  rw [callable?, same]
  rfl

theorem gives_attribute? (checked : v.Checked) {index : Nat}
    (below : index < v.header.counts.attributes.toNat) :
    Gives (attribute? v index) (v.attribute? index) := by
  have record := record?_eq checked v.header.holds_attributes below
  exact (gives_checked record).bind fun a _ => (gives_text? v a.key).bind fun _ _ =>
    (gives_attributeValue? v a.kind a.payload).bind fun _ _ => gives_pure _

theorem gives_field? (checked : v.Checked) (exports : ExportTable)
    (attributes : List ReadAttribute) {index : Nat}
    (below : index < v.header.counts.fields.toNat) :
    Gives (field? v exports attributes index) (v.field? exports attributes index) := by
  have record := record?_eq checked v.header.holds_fields below
  exact (gives_checked record).bind fun f _ => (gives_text? v f.name).bind fun _ _ =>
    (gives_checked rfl).bind fun _ _ => (gives_pick? f.attributes attributes).bind fun _ _ =>
      gives_pure _

theorem gives_method? (checked : v.Checked) (exports : ExportTable)
    (attributes : List ReadAttribute) {index : Nat}
    (below : index < v.header.counts.methods.toNat) :
    Gives (method? v exports attributes index) (v.method? exports attributes index) := by
  have record := record?_eq checked v.header.holds_methods below
  have slot := record?_eq checked v.header.holds_methodSlots below
  exact (gives_checked record).bind fun m _ => (gives_text? v m.name).bind fun _ _ =>
    (gives_checked (params?_eq checked m.params)).bind fun _ _ =>
      (gives_checked rfl).bind fun _ _ =>
        (gives_checked (callable?_eq exports slot)).bind fun _ _ =>
          (gives_pick? m.attributes attributes).bind fun _ _ => gives_pure _

theorem gives_constructor? (checked : v.Checked) (exports : ExportTable)
    (attributes : List ReadAttribute) {index : Nat}
    (below : index < v.header.counts.constructors.toNat) :
    Gives (constructor? v exports attributes index) (v.constructor? exports attributes index) := by
  have record := record?_eq checked v.header.holds_constructors below
  have slot := record?_eq checked v.header.holds_constructorSlots below
  exact (gives_checked record).bind fun c _ =>
    (gives_checked (params?_eq checked c.params)).bind fun _ _ =>
      (gives_checked (callable?_eq exports slot)).bind fun _ _ =>
        (gives_pick? c.attributes attributes).bind fun _ _ => gives_pure _

theorem gives_type? (checked : v.Checked) (members : View.Members) {index : Nat}
    (below : index < v.header.counts.types.toNat) :
    Gives (type? v members index)
      (if v.isRepeated index then none else v.type? members index) := by
  have record := record?_eq checked v.header.holds_types below
  cases repeated : v.isRepeated index with
  | true =>
    obtain ⟨t, there⟩ := checked.readable.types index below
    rw [Gives, type?, record, there, repeated]
    rfl
  | false =>
    refine (gives_checked record).bind fun t _ => ?_
    rw [repeated]
    exact (gives_text? v t.name).bind fun _ _ => (gives_checked rfl).bind fun _ _ =>
      (gives_pick? t.fields members.fields).bind fun _ _ =>
        (gives_pick? t.methods members.methods).bind fun _ _ =>
          (gives_pick? t.constructors members.constructors).bind fun _ _ =>
            (gives_pick? t.attributes members.attributes).bind fun _ _ => gives_pure _

end

theorem regionFits_eq {h : Header} {e : Extent} (listed : e ∈ h.extents) : regionFits h e =
    Image.regionFits h (e.offset, e.count.toUInt64 * UInt64.ofNat e.size) := by
  have length := (toNat_section e.count (Header.size_bounds listed).2).1
  rw [regionFits, Image.regionFits, mul?_eq_some (length ▸ UInt64.toNat_lt_size _), ← length]
  generalize e.count.toUInt64 * UInt64.ofNat e.size = word
  have total := h.totalSize.toNat_lt
  cases same : word.toNat with
  | zero => simp [UInt64.toNat_inj.mp (same.trans UInt64.toNat_zero.symm)]
  | succ n =>
    have filled : (word == 0) = false := by
      rw [beq_eq_false_iff_ne]
      rintro rfl
      contradiction
    rw [filled, Bool.false_or]
    by_cases small : e.offset.toNat + (n + 1) < UInt64.size
    · simp only [add?_eq_some small]
    · simp only [add?, if_neg small]
      rw [UInt64.size] at small
      symm
      simp
      omega

theorem returns_texts {v : View} (checked : v.Checked) :
    Returns (texts v.bytes v.header) (.ok v.texts) := by
  rw [checked.texts, texts]
  by_cases empty : v.header.counts.textBytes = 0
  · rw [if_pos empty, empty]
    rfl
  · have within := (checked.sections ⟨v.header.offsets.texts, v.header.counts.textBytes, 1⟩
      (by simp [Header.extents]) empty).2
    have total := checked.total
    have word := v.header.totalSize.toNat_lt
    simp only [Nat.mul_one] at within
    have last : add v.header.offsets.texts.toNat v.header.counts.textBytes.toNat =
        .ok (v.header.offsets.texts.toNat + v.header.counts.textBytes.toNat) :=
      if_pos (by rw [UInt64.size]; omega)
    have whole := slice?_eq_some (Nat.le_add_right v.header.offsets.texts.toNat
      v.header.counts.textBytes.toNat) (Nat.le_trans within total)
    rw [Nat.add_sub_cancel_left] at whole
    rw [if_neg empty, last]
    show (required (slice? v.bytes _ _)).run = _
    rw [whole]
    rfl

theorem returns_ofBytes (bytes : List UInt8) : Returns (ofBytes bytes) (View.ofBytes bytes) := by
  have accepted : ∀ v, View.ofBytes bytes = .ok v → v.Checked :=
    fun v found => (View.checked_ofBytes found).2
  rw [View.ofBytes_eq] at accepted ⊢
  rw [Returns, ofBytes]
  generalize readAt read32 bytes 0 = number, Header.decode? bytes = decoded at accepted ⊢
  cases number with
  | none => rfl
  | some found =>
    by_cases current : found ≠ version
    · simp only [if_pos current]
      rfl
    · simp only [if_neg current] at accepted ⊢
      cases decoded with
      | none => rfl
      | some header =>
        have fits : header.extents.any (!regionFits header ·) =
            header.regions.any (!Image.regionFits header ·) := by
          rw [Header.regions_eq, List.any_map]
          rw [Bool.eq_iff_iff, List.any_eq_true, List.any_eq_true]
          exact exists_congr fun e => and_congr_right fun listed => by
            rw [Function.comp_apply, regionFits_eq listed]
        by_cases long : bytes.length < header.totalSize.toNat
        · simp only [if_pos long]
          rfl
        · simp only [if_neg long] at accepted ⊢
          by_cases outside : header.regions.any (!Image.regionFits header ·)
          · simp only [fits, if_pos outside]
            rfl
          · simp only [fits, if_neg outside] at accepted ⊢
            exact (returns_texts (accepted _ rfl)).bind fun _ _ => returns_pure _

theorem returns_decode (exports : ExportTable) (bytes : List UInt8) :
    Returns (decode exports bytes) (Image.decode exports bytes) := by
  refine (returns_ofBytes bytes).bind fun v accepted => ?_
  have checked := (View.checked_ofBytes accepted).2
  refine (returns_readAll fun _ => gives_attribute? checked).bind fun attributes _ => ?_
  refine (returns_readAll fun _ => gives_field? checked exports attributes).bind fun _ _ => ?_
  refine (returns_readAll fun _ => gives_method? checked exports attributes).bind fun _ _ => ?_
  refine (returns_readAll fun _ => gives_constructor? checked exports attributes).bind fun _ _ => ?_
  exact returns_readAll fun _ => gives_type? checked _

end Machine

/-- Whatever the bytes are, no fault stops their reading. Behind the checks of the header, each
section is at most as long as the image and each of its entries lies within it and can be read, so
that what is rejected is rejected for what a record says. -/
theorem decode_safe (exports : ExportTable) (bytes : List UInt8) :
    (Machine.decode exports bytes).run = .ok (decode exports bytes) ∧
      ∀ v, View.ofBytes bytes = .ok v →
        (∀ e ∈ v.header.extents, e.count.toNat * e.size ≤ bytes.length ∧
          ∀ index < e.count.toNat, e.offset.toNat + index * e.size + e.size ≤ bytes.length) ∧
        v.Readable ∧ ∀ e, decode exports bytes = .error e → v.Rejects exports e := by
  refine ⟨Machine.returns_decode exports bytes, fun v accepted => ?_⟩
  obtain ⟨rfl, checked⟩ := View.checked_ofBytes accepted
  refine ⟨fun e listed => ⟨checked.length_le listed, fun index below => ?_⟩, checked.readable,
    fun e rejected => View.rejects_of_decode accepted rejected⟩
  exact Nat.le_trans (checked.entry_le listed below) checked.total

/-- An image of one attribute, of a kind that there is not. -/
def strangeAttribute : List UInt8 :=
  (Header.layout ⟨0, 0, 0, 0, 1, 0, 0⟩).encode ++ (AttributeRecord.mk ⟨0, 0⟩ 9 0).encode

theorem strange_attribute_rejected : ∃ v, View.ofBytes strangeAttribute = .ok v ∧ v.Readable ∧
    v.Rejects .empty (.corruptAttributeRecord 0) := by
  have accepted : (View.ofBytes strangeAttribute).toOption.isSome := by decide +kernel
  have rejected : (match decode .empty strangeAttribute with
    | .error e => some e
    | .ok _ => none) = some (.corruptAttributeRecord 0) := by decide +kernel
  cases read : View.ofBytes strangeAttribute with
  | error e =>
    rw [read] at accepted
    exact absurd accepted Bool.false_ne_true
  | ok v =>
    obtain ⟨_, readable, rejects⟩ := (decode_safe .empty strangeAttribute).2 v read
    cases failed : decode .empty strangeAttribute with
    | ok types =>
      rw [failed] at rejected
      exact absurd rejected (Option.some_ne_none _).symm
    | error e =>
      rw [failed] at rejected
      cases Option.some.inj rejected
      exact ⟨v, rfl, readable, rejects _ failed⟩

end TypeCatalog.Image
