import Mathlib.Data.List.Forall2
import TypeCatalog.Proofs.Image.Layout

/-!
What the records of an image stand for. While sections are written, each record stands for one
attribute, member or row: its texts are runs of the text section, its runs of attributes and members
are those of the item, and its slot is that of the item's callable or accessor. Sections only grow,
so a record never comes to stand for something else.
-/
namespace TypeCatalog.Image

section

variable {α : Type} {entries more run : List α} {start : Nat}

/-- Whether a run is in a list from a position on. -/
def RunAt (entries : List α) (start : Nat) (run : List α) : Prop :=
  ∃ pre post, entries = pre ++ run ++ post ∧ pre.length = start

theorem RunAt.later (there : RunAt entries start run) (grown : entries <+: more) :
    RunAt more start run := by
  obtain ⟨pre, post, rfl, length⟩ := there
  obtain ⟨rest, rfl⟩ := grown
  exact ⟨pre, post ++ rest, by simp only [List.append_assoc], length⟩

theorem runAt_append (entries run : List α) : RunAt (entries ++ run) entries.length run :=
  ⟨entries, [], (List.append_nil _).symm, rfl⟩

def Span.Covers (span : Span) (entries run : List α) : Prop :=
  ∃ start, RunAt entries start run ∧ span = .ofNat start run.length

theorem Span.Covers.later {span : Span} (covers : span.Covers entries run)
    (grown : entries <+: more) : span.Covers more run := by
  obtain ⟨start, there, same⟩ := covers
  exact ⟨start, there.later grown, same⟩

end

def utf8 (text : String) : List UInt8 := text.toUTF8.data.toList

/-- A reference to a text in the text section. -/
def TextRef.Means (ref : TextRef) (bytes : List UInt8) (text : String) : Prop :=
  ∃ start, RunAt bytes start (utf8 text) ∧
    ref = ⟨UInt32.ofNat start, UInt32.ofNat (utf8 text).length⟩

theorem TextRef.Means.later {ref : TextRef} {bytes more : List UInt8} {text : String}
    (means : ref.Means bytes text) (grown : bytes <+: more) : ref.Means more text := by
  obtain ⟨start, there, same⟩ := means
  exact ⟨start, there.later grown, same⟩

def TextTable.Sound (t : TextTable) : Prop :=
  ∀ entry ∈ t.seen, entry.2.Means t.bytes entry.1

theorem TextTable.add_spec {t : TextTable} (sound : t.Sound) (text : String) :
    (t.add text).2.Sound ∧ t.bytes <+: (t.add text).2.bytes ∧
      (t.add text).1.Means (t.add text).2.bytes text := by
  unfold TextTable.add
  split
  · rename_i other ref found
    have listed := sound _ (List.mem_of_find?_eq_some found)
    have same : other = text := by simpa using List.find?_some found
    exact ⟨sound, List.prefix_rfl, same ▸ listed⟩
  · have new : TextRef.Means ⟨UInt32.ofNat t.bytes.length, UInt32.ofNat (utf8 text).length⟩
        (t.bytes ++ utf8 text) text := ⟨_, runAt_append _ _, rfl⟩
    refine ⟨fun entry listed => ?_, List.prefix_append _ _, new⟩
    rcases List.mem_append.mp listed with old | last
    · exact (sound entry old).later (List.prefix_append _ _)
    · rw [List.mem_singleton.mp last]
      exact new

def SlotFor (entries : List Exported) (slot : UInt64) (e : Exported) : Prop :=
  ∃ position, entries[position]? = some e ∧ slot = UInt64.ofNat position

theorem SlotFor.later {entries more : List Exported} {slot : UInt64} {e : Exported}
    (there : SlotFor entries slot e) (grown : entries <+: more) : SlotFor more slot e := by
  obtain ⟨position, present, same⟩ := there
  obtain ⟨rest, rfl⟩ := grown
  obtain ⟨within, _⟩ := List.getElem?_eq_some_iff.mp present
  exact ⟨position, (List.getElem?_append_left within).trans present, same⟩

/-- Callables and accessors of which no two have one number. -/
def Numbered (known : Exported → Prop) : Prop :=
  ∀ a b, known a → known b → a.number = b.number → a = b

theorem slotOf_spec {known : Exported → Prop} (numbered : Numbered known) {t : ExportTable}
    (all : ∀ e ∈ t.entries, known e) {e : Exported} (told : known e) :
    (∀ x ∈ (t.slotOf e).2.entries, known x) ∧ t.entries <+: (t.slotOf e).2.entries ∧
      SlotFor (t.slotOf e).2.entries (t.slotOf e).1 e := by
  unfold ExportTable.slotOf
  split
  · rename_i position found
    obtain ⟨within, number, _⟩ := List.findIdx?_eq_some_iff_getElem.mp found
    have same := numbered _ _ (all _ (List.getElem_mem within)) told (of_decide_eq_true number)
    exact ⟨all, List.prefix_rfl, position, same ▸ List.getElem?_eq_getElem within, rfl⟩
  · refine ⟨fun x listed => ?_, List.prefix_append _ _, t.entries.length, by simp, rfl⟩
    rcases List.mem_append.mp listed with old | last
    · exact all x old
    · exact List.mem_singleton.mp last ▸ told

/-- What has been written into sections, in the order of their records. -/
structure Contents where
  attributes : List Attribute := []
  fields : List Field := []
  methods : List Method := []
  constructors : List Constructor := []
  rows : List Row := []

def Sections.Payload (s : Sections) (payload : UInt64) : AttributeValue → Prop
  | .bool value => payload = value.toUInt64
  | .int value => payload = value.toUInt64
  | .double bits => payload = bits
  | .string text => ∃ ref : TextRef, ref.Means s.texts.bytes text ∧ payload = ref.pack
  | .type hash => payload = hash.value

structure AttributeRecord.Tells (s : Sections) (r : AttributeRecord) (a : Attribute) : Prop where
  key : r.key.Means s.texts.bytes a.key.text
  kind : r.kind = a.value.kind.tag
  payload : s.Payload r.payload a.value

structure FieldRecord.Tells (s : Sections) (k : Contents) (r : FieldRecord) (f : Field) :
    Prop where
  name : r.name.Means s.texts.bytes f.name.text
  type : r.type = f.type.value
  offset : r.offset = f.offset.getD unknownOffset
  slot : SlotFor s.exports.entries r.slot (.accessor f.accessor)
  attributes : r.attributes.Covers k.attributes f.attributes

structure MethodRecord.Tells (s : Sections) (k : Contents) (r : MethodRecord) (m : Method) :
    Prop where
  name : r.name.Means s.texts.bytes m.name.text
  returnType : r.returnType = m.returnType.value
  signature : r.signature = m.signature.value
  params : r.params.Covers s.params (m.params.map TypeHash.value)
  flags : r.flags = m.flags.bits
  attributes : r.attributes.Covers k.attributes m.attributes

structure ConstructorRecord.Tells (s : Sections) (k : Contents) (r : ConstructorRecord)
    (c : Constructor) : Prop where
  signature : r.signature = c.signature.value
  params : r.params.Covers s.params (c.params.map TypeHash.value)
  attributes : r.attributes.Covers k.attributes c.attributes

structure TypeRecord.Tells (s : Sections) (k : Contents) (r : TypeRecord) (row : Row) : Prop where
  name : r.name.Means s.texts.bytes row.name.text
  typeHash : r.typeHash = row.typeHash.value
  owner : r.owner = row.owner.value
  size : r.size = row.size
  align : r.align = row.align.toUInt32
  flags : r.flags = row.flags.bits
  fields : r.fields.Covers k.fields row.fields
  methods : r.methods.Covers k.methods row.methods
  constructors : r.constructors.Covers k.constructors row.constructors
  attributes : r.attributes.Covers k.attributes row.attributes

namespace Sections

/-- Texts, slots, parameters and members are only ever added. -/
structure Extends (s : Sections) (k : Contents) (t : Sections) (j : Contents) : Prop where
  texts : s.texts.bytes <+: t.texts.bytes
  slots : s.exports.entries <+: t.exports.entries
  params : s.params <+: t.params
  attributes : k.attributes <+: j.attributes
  fields : k.fields <+: j.fields
  methods : k.methods <+: j.methods
  constructors : k.constructors <+: j.constructors

theorem Extends.refl (s : Sections) (k : Contents) : Extends s k s k :=
  ⟨List.prefix_rfl, List.prefix_rfl, List.prefix_rfl, List.prefix_rfl, List.prefix_rfl,
    List.prefix_rfl, List.prefix_rfl⟩

variable {s t v : Sections} {k j i : Contents}

theorem Extends.trans (first : Extends s k t j) (second : Extends t j v i) : Extends s k v i where
  texts := first.texts.trans second.texts
  slots := first.slots.trans second.slots
  params := first.params.trans second.params
  attributes := first.attributes.trans second.attributes
  fields := first.fields.trans second.fields
  methods := first.methods.trans second.methods
  constructors := first.constructors.trans second.constructors

/-- The records of `t` stand for the items of `j`, by the texts, slots and runs of `s` and `k`. -/
structure Tell (s : Sections) (k : Contents) (t : Sections) (j : Contents) : Prop where
  attributes : List.Forall₂ (AttributeRecord.Tells s) t.attributes j.attributes
  fields : List.Forall₂ (FieldRecord.Tells s k) t.fields j.fields
  methods : List.Forall₂ (MethodRecord.Tells s k) t.methods j.methods
  methodSlots : List.Forall₂ (fun slot m => SlotFor s.exports.entries slot (.callable m.callable))
    t.methodSlots j.methods
  constructors : List.Forall₂ (ConstructorRecord.Tells s k) t.constructors j.constructors
  constructorSlots :
    List.Forall₂ (fun slot c => SlotFor s.exports.entries slot (.callable c.callable))
      t.constructorSlots j.constructors
  rows : List.Forall₂ (TypeRecord.Tells s k) t.types j.rows

theorem Payload.later {payload : UInt64} {value : AttributeValue}
    (tells : s.Payload payload value) (grown : Extends s k t j) : t.Payload payload value := by
  cases value with
  | string text =>
    obtain ⟨ref, means, same⟩ := tells
    exact ⟨ref, means.later grown.texts, same⟩
  | _ => exact tells

theorem Tell.later (tell : Tell s k v i) (grown : Extends s k t j) : Tell t j v i where
  attributes := tell.attributes.imp fun _ _ r =>
    { r with key := r.key.later grown.texts, payload := r.payload.later grown }
  fields := tell.fields.imp fun _ _ r =>
    { r with
      name := r.name.later grown.texts
      slot := r.slot.later grown.slots
      attributes := r.attributes.later grown.attributes }
  methods := tell.methods.imp fun _ _ r =>
    { r with
      name := r.name.later grown.texts
      params := r.params.later grown.params
      attributes := r.attributes.later grown.attributes }
  methodSlots := tell.methodSlots.imp fun _ _ slot => slot.later grown.slots
  constructors := tell.constructors.imp fun _ _ r =>
    { r with
      params := r.params.later grown.params
      attributes := r.attributes.later grown.attributes }
  constructorSlots := tell.constructorSlots.imp fun _ _ slot => slot.later grown.slots
  rows := tell.rows.imp fun _ _ r =>
    { r with
      name := r.name.later grown.texts
      fields := r.fields.later grown.fields
      methods := r.methods.later grown.methods
      constructors := r.constructors.later grown.constructors
      attributes := r.attributes.later grown.attributes }

/-- Sections whose records stand for some contents, with slots of known things only. -/
structure Hold (known : Exported → Prop) (s : Sections) (k : Contents) : Prop where
  tell : Tell s k s k
  texts : s.texts.Sound
  slots : ∀ e ∈ s.exports.entries, known e

/-- What writing leads to: sections that hold the contents and extend those before. -/
structure Goes (known : Exported → Prop) (s : Sections) (k : Contents) (t : Sections)
    (j : Contents) : Prop where
  hold : t.Hold known j
  grown : Extends s k t j

theorem forall₂_push {α β : Type} {R : α → β → Prop} {as : List α} {bs : List β} {a : α} {b : β}
    (all : List.Forall₂ R as bs) (last : R a b) : List.Forall₂ R (as ++ [a]) (bs ++ [b]) :=
  List.rel_append all (.cons last .nil)

variable {known : Exported → Prop}

theorem Goes.trans (first : Goes known s k t j) (second : Goes known t j v i) :
    Goes known s k v i :=
  ⟨second.hold, first.grown.trans second.grown⟩

theorem goes_of_tell (extension : Extends s k t j) (tell : Tell s k t j) (texts : t.texts.Sound)
    (slots : ∀ e ∈ t.exports.entries, known e) : Goes known s k t j :=
  ⟨⟨tell.later extension, texts, slots⟩, extension⟩

theorem addText_goes (hold : s.Hold known k) (text : String) :
    Goes known s k (s.addText text).2 k ∧
      (s.addText text).1.Means (s.addText text).2.texts.bytes text := by
  obtain ⟨sound, grown, means⟩ := TextTable.add_spec hold.texts text
  exact ⟨goes_of_tell { Extends.refl s k with texts := grown } { hold.tell with } sound hold.slots,
    means⟩

theorem slotOf_goes (numbered : Numbered known) (hold : s.Hold known k) {e : Exported}
    (told : known e) :
    Goes known s k (s.slotOf e).2 k ∧
      SlotFor (s.slotOf e).2.exports.entries (s.slotOf e).1 e := by
  obtain ⟨all, grown, there⟩ := slotOf_spec numbered hold.slots told
  exact ⟨goes_of_tell { Extends.refl s k with slots := grown } { hold.tell with } hold.texts all,
    there⟩

theorem addParams_goes (hold : s.Hold known k) (params : List TypeHash) :
    Goes known s k (s.addParams params).2 k ∧
      (s.addParams params).1.Covers (s.addParams params).2.params
        (params.map TypeHash.value) := by
  refine ⟨goes_of_tell { Extends.refl s k with params := List.prefix_append _ _ }
    { hold.tell with } hold.texts hold.slots, s.params.length, runAt_append _ _, ?_⟩
  rw [List.length_map]
  rfl

theorem addPayload_goes (hold : s.Hold known k) (value : AttributeValue) :
    Goes known s k (s.addPayload value).2 k ∧
      (s.addPayload value).2.Payload (s.addPayload value).1 value := by
  have same : Goes known s k s k := ⟨hold, .refl s k⟩
  cases value with
  | string text =>
    obtain ⟨goes, means⟩ := addText_goes hold text
    exact ⟨goes, _, means, rfl⟩
  | _ => exact ⟨same, rfl⟩

theorem pushAttribute_goes (hold : s.Hold known k) {r : AttributeRecord} {a : Attribute}
    (tells : r.Tells s a) :
    Goes known s k { s with attributes := s.attributes ++ [r] }
      { k with attributes := k.attributes ++ [a] } :=
  goes_of_tell { Extends.refl s k with attributes := List.prefix_append _ _ }
    { hold.tell with attributes := forall₂_push hold.tell.attributes tells } hold.texts hold.slots

theorem addAttribute_goes (hold : s.Hold known k) (a : Attribute) :
    Goes known s k (s.addAttribute a) { k with attributes := k.attributes ++ [a] } := by
  obtain ⟨keyed, key⟩ := addText_goes hold a.key.text
  obtain ⟨loaded, payload⟩ := addPayload_goes keyed.hold a.value
  have tells : AttributeRecord.Tells _ ⟨_, a.value.kind.tag, _⟩ a :=
    ⟨key.later loaded.grown.texts, rfl, payload⟩
  exact (keyed.trans loaded).trans (pushAttribute_goes loaded.hold tells)

theorem foldl_goes {α : Type} {step : Sections → α → Sections}
    {add : Contents → List α → Contents} (none : ∀ k, add k [] = k)
    (next : ∀ k x xs, add (add k [x]) xs = add k (x :: xs)) {xs : List α}
    (one : ∀ x ∈ xs, ∀ {s k}, s.Hold known k → Goes known s k (step s x) (add k [x]))
    (hold : s.Hold known k) : Goes known s k (xs.foldl step s) (add k xs) := by
  induction xs generalizing s k with
  | nil =>
    rw [none]
    exact ⟨hold, .refl s k⟩
  | cons x xs ih =>
    have first := one x List.mem_cons_self hold
    have rest := ih (fun y listed => one y (List.mem_cons_of_mem x listed)) first.hold
    rw [next] at rest
    exact first.trans rest

end Sections

/-- A row whose accessors and callables are all known. -/
structure MembersKnown (known : Exported → Prop) (row : Row) : Prop where
  fields : ∀ f ∈ row.fields, known (.accessor f.accessor)
  methods : ∀ m ∈ row.methods, known (.callable m.callable)
  constructors : ∀ c ∈ row.constructors, known (.callable c.callable)

namespace Contents

def addAttributes (k : Contents) (attributes : List Attribute) : Contents :=
  { k with attributes := k.attributes ++ attributes }

def addFields (k : Contents) (fields : List Field) : Contents :=
  { k with
    attributes := k.attributes ++ fields.flatMap Field.attributes
    fields := k.fields ++ fields }

def addMethods (k : Contents) (methods : List Method) : Contents :=
  { k with
    attributes := k.attributes ++ methods.flatMap Method.attributes
    methods := k.methods ++ methods }

def addConstructors (k : Contents) (constructors : List Constructor) : Contents :=
  { k with
    attributes := k.attributes ++ constructors.flatMap Constructor.attributes
    constructors := k.constructors ++ constructors }

def addRow (k : Contents) (row : Row) : Contents :=
  let k := ((k.addFields row.fields).addMethods row.methods).addConstructors row.constructors
  let k := k.addAttributes row.attributes
  { k with rows := k.rows ++ [row] }

def addRows (k : Contents) (rows : List Row) : Contents := rows.foldl addRow k

theorem addRows_eq (k : Contents) (rows : List Row) :
    (k.addRows rows).rows = k.rows ++ rows ∧
      (k.addRows rows).methods = k.methods ++ rows.flatMap Row.methods ∧
      (k.addRows rows).constructors = k.constructors ++ rows.flatMap Row.constructors := by
  induction rows generalizing k with
  | nil => simp [addRows]
  | cons row rows ih =>
    rw [addRows, List.foldl_cons, ← addRows, (ih _).1, (ih _).2.1, (ih _).2.2]
    simp [addRow, addFields, addMethods, addConstructors, addAttributes]

end Contents

namespace Sections

variable {known : Exported → Prop} {s : Sections} {k : Contents}

theorem addAttributes_goes (hold : s.Hold known k) (attributes : List Attribute) :
    Goes known s k (s.addAttributes attributes).2 (k.addAttributes attributes) ∧
      (s.addAttributes attributes).1.Covers (k.addAttributes attributes).attributes
        attributes := by
  refine ⟨foldl_goes (fun k => ?_) (fun k x xs => ?_)
    (fun a _ _ _ hold => addAttribute_goes hold a) hold,
    s.attributes.length, ?_, rfl⟩
  · simp [Contents.addAttributes]
  · simp [Contents.addAttributes]
  · rw [hold.tell.attributes.length_eq]
    exact runAt_append _ _

theorem pushField_goes (hold : s.Hold known k) {r : FieldRecord} {f : Field}
    (tells : r.Tells s k f) :
    Goes known s k { s with fields := s.fields ++ [r] } { k with fields := k.fields ++ [f] } :=
  goes_of_tell { Extends.refl s k with fields := List.prefix_append _ _ }
    { hold.tell with fields := forall₂_push hold.tell.fields tells } hold.texts hold.slots

theorem addField_goes (numbered : Numbered known) (hold : s.Hold known k) {f : Field}
    (told : known (.accessor f.accessor)) :
    Goes known s k (s.addField f) (k.addFields [f]) := by
  obtain ⟨named, name⟩ := addText_goes hold f.name.text
  obtain ⟨marked, attributes⟩ := addAttributes_goes named.hold f.attributes
  obtain ⟨placed, slot⟩ := slotOf_goes numbered marked.hold told
  have tells : FieldRecord.Tells _ _ ⟨_, f.type.value, f.offset.getD unknownOffset, _, _⟩ f :=
    ⟨(name.later marked.grown.texts).later placed.grown.texts, rfl, rfl, slot, attributes⟩
  rw [Contents.addFields, List.flatMap_singleton]
  exact ((named.trans marked).trans placed).trans (pushField_goes placed.hold tells)

theorem pushMethod_goes (hold : s.Hold known k) {r : MethodRecord} {slot : UInt64} {m : Method}
    (tells : r.Tells s k m) (placed : SlotFor s.exports.entries slot (.callable m.callable)) :
    Goes known s k
      { s with methods := s.methods ++ [r], methodSlots := s.methodSlots ++ [slot] }
      { k with methods := k.methods ++ [m] } :=
  goes_of_tell { Extends.refl s k with methods := List.prefix_append _ _ }
    { hold.tell with
      methods := forall₂_push hold.tell.methods tells
      methodSlots := forall₂_push hold.tell.methodSlots placed } hold.texts hold.slots

theorem addMethod_goes (numbered : Numbered known) (hold : s.Hold known k) {m : Method}
    (told : known (.callable m.callable)) :
    Goes known s k (s.addMethod m) (k.addMethods [m]) := by
  obtain ⟨named, name⟩ := addText_goes hold m.name.text
  obtain ⟨listed, params⟩ := addParams_goes named.hold m.params
  obtain ⟨marked, attributes⟩ := addAttributes_goes listed.hold m.attributes
  obtain ⟨placed, slot⟩ := slotOf_goes numbered marked.hold told
  have later := marked.trans placed
  have tells : MethodRecord.Tells _ _
      ⟨_, m.returnType.value, m.signature.value, _, m.flags.bits, _⟩ m :=
    ⟨(name.later listed.grown.texts).later later.grown.texts, rfl, rfl,
      params.later later.grown.params, rfl, attributes⟩
  rw [Contents.addMethods, List.flatMap_singleton]
  exact ((named.trans listed).trans later).trans (pushMethod_goes placed.hold tells slot)

theorem pushConstructor_goes (hold : s.Hold known k) {r : ConstructorRecord} {slot : UInt64}
    {c : Constructor} (tells : r.Tells s k c)
    (placed : SlotFor s.exports.entries slot (.callable c.callable)) :
    Goes known s k
      { s with
        constructors := s.constructors ++ [r]
        constructorSlots := s.constructorSlots ++ [slot] }
      { k with constructors := k.constructors ++ [c] } :=
  goes_of_tell { Extends.refl s k with constructors := List.prefix_append _ _ }
    { hold.tell with
      constructors := forall₂_push hold.tell.constructors tells
      constructorSlots := forall₂_push hold.tell.constructorSlots placed } hold.texts hold.slots

theorem addConstructor_goes (numbered : Numbered known) (hold : s.Hold known k) {c : Constructor}
    (told : known (.callable c.callable)) :
    Goes known s k (s.addConstructor c) (k.addConstructors [c]) := by
  obtain ⟨listed, params⟩ := addParams_goes hold c.params
  obtain ⟨marked, attributes⟩ := addAttributes_goes listed.hold c.attributes
  obtain ⟨placed, slot⟩ := slotOf_goes numbered marked.hold told
  have later := marked.trans placed
  have tells : ConstructorRecord.Tells _ _ ⟨c.signature.value, _, _⟩ c :=
    ⟨rfl, params.later later.grown.params, attributes⟩
  rw [Contents.addConstructors, List.flatMap_singleton]
  exact (listed.trans later).trans (pushConstructor_goes placed.hold tells slot)

theorem pushType_goes (hold : s.Hold known k) {r : TypeRecord} {row : Row}
    (tells : r.Tells s k row) :
    Goes known s k { s with types := s.types ++ [r] } { k with rows := k.rows ++ [row] } :=
  goes_of_tell { Extends.refl s k with }
    { hold.tell with rows := forall₂_push hold.tell.rows tells } hold.texts hold.slots

theorem addFields_goes (numbered : Numbered known) (hold : s.Hold known k) {fields : List Field}
    (told : ∀ f ∈ fields, known (.accessor f.accessor)) :
    Goes known s k (fields.foldl addField s) (k.addFields fields) ∧
      (Span.ofNat s.fields.length fields.length).Covers (k.addFields fields).fields fields := by
  refine ⟨foldl_goes (fun k => by simp [Contents.addFields])
    (fun k x xs => by simp [Contents.addFields])
    (fun f listed _ _ hold => addField_goes numbered hold (told f listed)) hold, _, ?_, rfl⟩
  rw [hold.tell.fields.length_eq]
  exact runAt_append _ _

theorem addMethods_goes (numbered : Numbered known) (hold : s.Hold known k) {methods : List Method}
    (told : ∀ m ∈ methods, known (.callable m.callable)) :
    Goes known s k (methods.foldl addMethod s) (k.addMethods methods) ∧
      (Span.ofNat s.methods.length methods.length).Covers (k.addMethods methods).methods
        methods := by
  refine ⟨foldl_goes (fun k => by simp [Contents.addMethods])
    (fun k x xs => by simp [Contents.addMethods])
    (fun m listed _ _ hold => addMethod_goes numbered hold (told m listed)) hold, _, ?_, rfl⟩
  rw [hold.tell.methods.length_eq]
  exact runAt_append _ _

theorem addConstructors_goes (numbered : Numbered known) (hold : s.Hold known k)
    {constructors : List Constructor} (told : ∀ c ∈ constructors, known (.callable c.callable)) :
    Goes known s k (constructors.foldl addConstructor s) (k.addConstructors constructors) ∧
      (Span.ofNat s.constructors.length constructors.length).Covers
        (k.addConstructors constructors).constructors constructors := by
  refine ⟨foldl_goes (fun k => by simp [Contents.addConstructors])
    (fun k x xs => by simp [Contents.addConstructors])
    (fun c listed _ _ hold => addConstructor_goes numbered hold (told c listed)) hold, _, ?_, rfl⟩
  rw [hold.tell.constructors.length_eq]
  exact runAt_append _ _

theorem addType_goes (numbered : Numbered known) (hold : s.Hold known k) {row : Row}
    (told : MembersKnown known row) : Goes known s k (s.addType row) (k.addRow row) := by
  obtain ⟨named, name⟩ := addText_goes hold row.name.text
  obtain ⟨first, fields⟩ := addFields_goes numbered named.hold told.fields
  obtain ⟨second, methods⟩ := addMethods_goes numbered first.hold told.methods
  obtain ⟨third, constructors⟩ := addConstructors_goes numbered second.hold told.constructors
  obtain ⟨last, attributes⟩ := addAttributes_goes third.hold row.attributes
  have afterMethods := third.trans last
  have afterFields := second.trans afterMethods
  have afterName := first.trans afterFields
  have tells : TypeRecord.Tells _ _ ⟨_, row.typeHash.value, row.owner.value, row.size,
      row.align.toUInt32, row.flags.bits, _, _, _, _⟩ row :=
    ⟨name.later afterName.grown.texts, rfl, rfl, rfl, rfl, rfl,
      fields.later afterFields.grown.fields, methods.later afterMethods.grown.methods,
      constructors.later last.grown.constructors, attributes⟩
  exact (named.trans afterName).trans (pushType_goes last.hold tells)

def ofRows (exports : ExportTable) (rows : List Row) : Sections := rows.foldl addType { exports }

/-- The sections of rows stand for just these rows. -/
theorem ofRows_goes (numbered : Numbered known) {exports : ExportTable}
    (slots : ∀ e ∈ exports.entries, known e) {rows : List Row}
    (told : ∀ row ∈ rows, MembersKnown known row) :
    Goes known { exports } {} (ofRows exports rows) (Contents.addRows {} rows) := by
  have start : Hold known { exports } {} :=
    ⟨⟨.nil, .nil, .nil, .nil, .nil, .nil, .nil⟩, by simp [TextTable.Sound], slots⟩
  exact foldl_goes (fun _ => rfl) (fun _ _ _ => rfl)
    (fun row listed _ _ hold => addType_goes numbered hold (told row listed)) start

theorem Hold.parallel (hold : s.Hold known k) : s.Parallel where
  methods := hold.tell.methodSlots.length_eq.trans hold.tell.methods.length_eq.symm
  constructors :=
    hold.tell.constructorSlots.length_eq.trans hold.tell.constructors.length_eq.symm

end Sections

end TypeCatalog.Image
