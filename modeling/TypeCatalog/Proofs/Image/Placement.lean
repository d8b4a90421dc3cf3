import TypeCatalog.Proofs.Image.Guarded
import TypeCatalog.Proofs.Image.Sections
import TypeCatalog.Registry.Types

/-!
Where an image has its sections. Their places are computed from the counts, and checked operations
on words compute the same, since no counts make them overflow. The bytes are appended one section
after another, and the padding in between reaches just these places, since as many entries are
written as have been counted; so each entry stands where the header says that it does, and what is in
no section is zero.
-/
namespace TypeCatalog.Image

namespace Machine

def mul (m n : Nat) : Except Fault Nat :=
  if m * n < UInt64.size then .ok (m * n) else .error .overflow

/-- The first multiple of eight from a position on. -/
def align8 (position : Nat) : Except Fault Nat := do
  return (← add position 7) / 8 * 8

/-- Where sections of these entries begin and how long they are, and where all of them end. -/
def place (cursor : Nat) : List (UInt32 × Nat) → Except Fault (List (Nat × Nat) × Nat)
  | [] => return ([], ← align8 cursor)
  | (count, size) :: entries => do
    let length ← mul count.toNat size
    let offset ← align8 cursor
    let (regions, total) ← place (← add offset length) entries
    return ((offset, length) :: regions, total)

/-- The sections and the size of an image. -/
def layout (c : Counts) : Except Fault (List (Nat × Nat) × Nat) := place headerSize c.entries

theorem mul_eq_ok {m n : Nat} (small : m * n < UInt64.size) : mul m n = .ok (m * n) := if_pos small

theorem add_eq_ok {m n : Nat} (small : m + n < UInt64.size) : add m n = .ok (m + n) := if_pos small

theorem align8_eq_ok {position : Nat} (small : position + 7 < UInt64.size) :
    align8 position = .ok ((position + 7) / 8 * 8) := by
  rw [align8, add_eq_ok small]
  rfl

end Machine

section

variable {cursor : UInt64} {entries : List (UInt32 × Nat)}

theorem place_eq_ok (room : Room cursor entries) :
    Machine.place cursor.toNat entries =
      .ok ((placeWords cursor entries).1.map Region.toNat, (placeWords cursor entries).2.toNat) := by
  induction entries generalizing cursor with
  | nil =>
    have small : cursor.toNat + 7 < UInt64.size := by simpa using room.2
    rw [Machine.place, Machine.align8_eq_ok small, placeWords, toNat_align8 small]
    rfl
  | cons entry entries ih =>
    obtain ⟨count, size⟩ := entry
    obtain ⟨length, raised, sum, rest⟩ := room.next
    have product := Machine.mul_eq_ok (length ▸ UInt64.toNat_lt_size _)
    have begun := @Machine.align8_eq_ok cursor.toNat (by have := room.2; omega)
    have moved := Machine.add_eq_ok (sum ▸ UInt64.toNat_lt_size _)
    rw [← length] at product
    rw [← raised] at begun
    rw [Machine.place, product, begun]
    show (Machine.add _ _ >>= fun next => Machine.place next entries >>= _) = _
    rw [moved, ← sum]
    show (Machine.place _ entries >>= _) = _
    rw [ih rest]
    rfl

end

theorem layout_computed (c : Counts) : Machine.layout c =
    .ok ((Header.layout c).regions.map Region.toNat, (Header.layout c).totalSize.toNat) := by
  obtain ⟨regions, total⟩ := layout_eq_placeWords c
  rw [regions, total]
  exact place_eq_ok (room_layout c)

/-- Entries of one length that follow each other from an offset on. -/
def Entries {α : Type} (bytes : List UInt8) (offset : UInt64) (size : Nat) (encode : α → List UInt8)
    (entries : List α) : Prop :=
  ∀ index entry, entries[index]? = some entry →
    (encode entry).length = size ∧ RunAt bytes (offset.toNat + index * size) (encode entry)

theorem RunAt.entries {α : Type} {bytes : List UInt8} {offset : UInt64} {size : Nat}
    {encode : α → List UInt8} {entries : List α}
    (there : RunAt bytes offset.toNat (entries.flatMap encode))
    (sizes : ∀ a, (encode a).length = size) : Entries bytes offset size encode entries := by
  intro index entry found
  obtain ⟨pre, post, rfl, start⟩ := there
  obtain ⟨before, after, whole, length⟩ := split_section sizes found
  refine ⟨sizes entry, pre ++ before, after ++ post, ?_, ?_⟩
  · simp only [whole, List.append_assoc]
  · rw [List.length_append, start, length]

theorem padTo_gap {bytes : List UInt8} {position i : Nat} (after : bytes.length ≤ i)
    (before : i < position) : (padTo bytes position)[i]? = some 0 := by
  rw [padTo, List.getElem?_append_right after, putZeros, List.getElem?_replicate,
    if_pos (by omega)]

/-- What is placed in no part, behind what has been there before, is padding. -/
theorem place_gap {last i : Nat} {parts : List (UInt64 × List UInt8)} {bytes : List UInt8}
    (placed : Placed bytes.length last parts) (after : bytes.length ≤ i)
    (within : i < (place bytes parts).length)
    (outside : ∀ part ∈ parts, i < part.1.toNat ∨ part.1.toNat + part.2.length ≤ i) :
    (place bytes parts)[i]? = some 0 := by
  induction parts generalizing bytes with
  | nil => exact absurd within (Nat.not_lt.mpr after)
  | cons first rest ih =>
    obtain ⟨offset, content⟩ := first
    obtain ⟨before, later⟩ := placed
    obtain ⟨out, outside⟩ := List.forall_mem_cons.mp outside
    have padded := length_padTo before
    have length : (padTo bytes offset.toNat ++ content).length = offset.toNat + content.length := by
      rw [List.length_append, padded]
    have room : Placed (padTo bytes offset.toNat ++ content).length last rest := length ▸ later
    rcases out with early | late
    · obtain ⟨-, ⟨post, whole⟩, -⟩ := place_spec room
      show (place (padTo bytes offset.toNat ++ content) rest)[i]? = some 0
      rw [← whole, List.append_assoc, List.getElem?_append_left (by rw [padded]; exact early)]
      exact padTo_gap after early
    · exact ih room (length ▸ late) within outside

namespace Sections

variable {s : Sections}

theorem Parallel.addAttribute (parallel : s.Parallel) (a : Attribute) :
    (s.addAttribute a).Parallel := by
  obtain ⟨key, value⟩ := a
  cases value <;> exact ⟨parallel.methods, parallel.constructors⟩

theorem Parallel.addAttributes (parallel : s.Parallel) (attributes : List Attribute) :
    (s.addAttributes attributes).2.Parallel :=
  attributes.foldlRecOn Sections.addAttribute parallel fun _ kept a _ => kept.addAttribute a

theorem Parallel.addField (parallel : s.Parallel) (field : Field) : (s.addField field).Parallel :=
  have named : (s.addText field.name.text).2.Parallel := ⟨parallel.methods, parallel.constructors⟩
  have marked := named.addAttributes field.attributes
  ⟨marked.methods, marked.constructors⟩

/-- A method gets one record and one slot. -/
theorem Parallel.addMethod (parallel : s.Parallel) (method : Method) :
    (s.addMethod method).Parallel := by
  have listed : ((s.addText method.name.text).2.addParams method.params).2.Parallel :=
    ⟨parallel.methods, parallel.constructors⟩
  have marked := listed.addAttributes method.attributes
  refine ⟨?_, marked.constructors⟩
  rw [Sections.addMethod, List.length_append, List.length_append]
  exact congrArg (· + 1) marked.methods

theorem Parallel.addConstructor (parallel : s.Parallel) (constructor : Constructor) :
    (s.addConstructor constructor).Parallel := by
  have listed : (s.addParams constructor.params).2.Parallel :=
    ⟨parallel.methods, parallel.constructors⟩
  have marked := listed.addAttributes constructor.attributes
  refine ⟨marked.methods, ?_⟩
  rw [Sections.addConstructor, List.length_append, List.length_append]
  exact congrArg (· + 1) marked.constructors

theorem Parallel.addType (parallel : s.Parallel) (row : Row) : (s.addType row).Parallel :=
  have named : (s.addText row.name.text).2.Parallel := ⟨parallel.methods, parallel.constructors⟩
  have fields := row.fields.foldlRecOn Sections.addField named fun _ kept f _ => kept.addField f
  have methods := row.methods.foldlRecOn Sections.addMethod fields fun _ kept m _ =>
    kept.addMethod m
  have constructors := row.constructors.foldlRecOn Sections.addConstructor methods fun _ kept c _ =>
    kept.addConstructor c
  have marked := constructors.addAttributes row.attributes
  ⟨marked.methods, marked.constructors⟩

theorem parallel_ofRows (exports : ExportTable) (rows : List Row) :
    (ofRows exports rows).Parallel :=
  rows.foldlRecOn Sections.addType ⟨rfl, rfl⟩ fun _ kept row _ => kept.addType row

/-- Whether an image with a header has as many entries of each kind as the header says, one after
the other from the offset on that the header says. -/
structure WrittenAt (s : Sections) (h : Header) (bytes : List UInt8) : Prop where
  types : h.counts.types.toNat = s.types.length ∧
    Entries bytes h.offsets.types typeSize TypeRecord.encode s.types
  fields : h.counts.fields.toNat = s.fields.length ∧
    Entries bytes h.offsets.fields fieldSize FieldRecord.encode s.fields
  methods : h.counts.methods.toNat = s.methods.length ∧
    Entries bytes h.offsets.methods methodSize MethodRecord.encode s.methods
  constructors : h.counts.constructors.toNat = s.constructors.length ∧
    Entries bytes h.offsets.constructors constructorSize ConstructorRecord.encode s.constructors
  attributes : h.counts.attributes.toNat = s.attributes.length ∧
    Entries bytes h.offsets.attributes attributeSize AttributeRecord.encode s.attributes
  params : h.counts.params.toNat = s.params.length ∧
    Entries bytes h.offsets.params wordSize put64 s.params
  texts : h.counts.textBytes.toNat = s.texts.bytes.length ∧
    RunAt bytes h.offsets.texts.toNat s.texts.bytes
  methodSlots : h.counts.methods.toNat = s.methodSlots.length ∧
    Entries bytes h.offsets.methodSlots wordSize put64 s.methodSlots
  constructorSlots : h.counts.constructors.toNat = s.constructorSlots.length ∧
    Entries bytes h.offsets.constructorSlots wordSize put64 s.constructorSlots

theorem writtenAt_image (limits : s.WithinLimits) (parallel : s.Parallel) :
    s.WrittenAt s.header s.image := by
  obtain ⟨types, fields, methods, constructors, attributes, params, texts⟩ := limits.counts
  have there : ∀ part ∈ s.parts, RunAt s.image part.1.toNat part.2 :=
    fun _ listed => image_part limits parallel listed
  simp only [parts, contents, Offsets.toList, List.zip_cons_cons, List.zip_nil_right,
    List.forall_mem_cons] at there
  obtain ⟨first, second, third, fourth, fifth, sixth, seventh, eighth, ninth, -⟩ := there
  exact
    { types := ⟨types, first.entries length_typeRecord⟩
      fields := ⟨fields, second.entries length_fieldRecord⟩
      methods := ⟨methods, third.entries length_methodRecord⟩
      constructors := ⟨constructors, fourth.entries length_constructorRecord⟩
      attributes := ⟨attributes, fifth.entries length_attributeRecord⟩
      params := ⟨params, sixth.entries length_put64⟩
      texts := ⟨texts, seventh⟩
      methodSlots := ⟨methods.trans parallel.methods.symm, eighth.entries length_put64⟩
      constructorSlots :=
        ⟨constructors.trans parallel.constructors.symm, ninth.entries length_put64⟩ }

theorem region_of_part (limits : s.WithinLimits) (parallel : s.Parallel)
    {part : UInt64 × List UInt8} (listed : part ∈ s.parts) :
    ∃ region ∈ s.header.regions, Region.toNat region = (part.1.toNat, part.2.length) := by
  have measured := List.mem_map_of_mem (f := Prod.map UInt64.toNat List.length) listed
  rw [← regions_parts limits parallel] at measured
  exact List.mem_map.mp measured

theorem image_gap (limits : s.WithinLimits) (parallel : s.Parallel) {i : Nat}
    (after : headerSize ≤ i) (within : i < s.image.length)
    (outside : ∀ region ∈ s.header.regions,
      i < region.1.toNat ∨ region.1.toNat + region.2.toNat ≤ i) : s.image[i]? = some 0 := by
  have placed := parts_placed limits parallel
  have behind : s.header.encode.length ≤ i := by rwa [length_header]
  rw [length_image limits parallel] at within
  rw [image_eq]
  by_cases early : i < (place s.header.encode s.parts).length
  · have padded : place s.header.encode s.parts <+:
        padTo (place s.header.encode s.parts) s.header.totalSize.toNat := List.prefix_append _ _
    obtain ⟨post, whole⟩ := padded
    rw [← whole, List.getElem?_append_left early]
    refine place_gap placed behind early fun part listed => ?_
    obtain ⟨region, found, same⟩ := region_of_part limits parallel listed
    obtain ⟨offset, length⟩ := Prod.mk.inj same
    rw [← offset, ← length]
    exact outside region found
  · exact padTo_gap (Nat.le_of_not_lt early) within

end Sections

/-- Where everything is in an image. Whatever the counts are, a header tells nine sections, which
begin behind the header at multiples of eight, follow each other in order without overlapping, and end
within the image, whose size is a multiple of eight; this is what machine words compute, and none of
them overflows. The image of a registry whose counts fit into 32 bits is as long as its header says,
begins with the header, has the entries of each section one after the other from the offset on that
the header tells, and zeros between the sections. -/
theorem image_laid_out (r : Registry) (exports : ExportTable) :
    (∀ c : Counts, let h := Header.layout c
      h.regions.length = 9 ∧
      Machine.layout c = .ok (h.regions.map Region.toNat, h.totalSize.toNat) ∧
      Laid headerSize h.totalSize.toNat (h.regions.map Region.toNat)) ∧
    let s := Sections.ofRows exports (r.publishedRows.map (·.2))
    let h := Header.layout s.counts
    let image := (ofRegistry r exports).1
    s.WithinLimits →
      image.length = h.totalSize.toNat ∧ h.encode.length = headerSize ∧ h.encode <+: image ∧
      s.WrittenAt h image ∧
      ∀ i, headerSize ≤ i → i < image.length → (∀ region ∈ h.regions,
        i < region.1.toNat ∨ region.1.toNat + region.2.toNat ≤ i) → image[i]? = some 0 := by
  refine ⟨fun c => ⟨rfl, layout_computed c, layout_laid c⟩, ?_⟩
  intro s h image limits
  have parallel : s.Parallel := Sections.parallel_ofRows exports _
  obtain ⟨post, whole⟩ := Sections.image_header limits parallel
  exact ⟨Sections.length_image limits parallel, length_header h, ⟨post, whole.symm⟩,
    Sections.writtenAt_image limits parallel, fun i => Sections.image_gap limits parallel⟩

/-- A type with one constructor and one attribute. Its texts have seven bytes. -/
def dotRow : Row where
  name := ⟨⟨0⟩, "dot"⟩
  typeHash := .ofName "dot"
  owner := .host
  size := 8
  align := 8
  flags := {}
  constructors :=
    [⟨[.ofName "i32"], .ofName "dot(i32)",
      ⟨0, .none, [.primitive (.integer ⟨true, .w32⟩)], fun object _ => ⟨.void, object⟩⟩, []⟩]
  attributes := [⟨⟨⟨1⟩, "axis"⟩, .int 2⟩]
  published := true

def oneDot : Registry := (({} : Registry).insertRow dotRow).2

/-- The texts are at 248, behind the one parameter; the byte behind them is padding, and then comes
the slot of the constructor. -/
theorem one_dot_laid_out :
    let s := Sections.ofRows .empty (oneDot.publishedRows.map (·.2))
    let image := (ofRegistry oneDot .empty).1
    s.WithinLimits ∧ image.length = 264 ∧ RunAt image 248 "dotaxis".toUTF8.data.toList ∧
      image[255]? = some 0 ∧ RunAt image 256 (put64 0) := by
  intro s image
  have limits : s.WithinLimits := by
    constructor <;> decide +kernel
  have offsets : (Header.layout s.counts).totalSize.toNat = 264 ∧
      (Header.layout s.counts).offsets.texts.toNat = 248 ∧
      (Header.layout s.counts).offsets.constructorSlots.toNat = 256 := by
    decide +kernel
  have contents : s.texts.bytes = "dotaxis".toUTF8.data.toList ∧ s.constructorSlots[0]? = some 0 := by
    decide +kernel
  have outside : (Header.layout s.counts).regions.all (fun region =>
      255 < region.1.toNat ∨ region.1.toNat + region.2.toNat ≤ 255) = true := by
    decide +kernel
  obtain ⟨length, -, -, written, padding⟩ := (image_laid_out oneDot .empty).2 limits
  have size : image.length = 264 := length.trans offsets.1
  refine ⟨limits, size, ?_, padding 255 (by decide) (by rw [size]; decide) ?_, ?_⟩
  · rw [← offsets.2.1, ← contents.1]
    exact written.texts.2
  · exact fun region listed => of_decide_eq_true (List.all_eq_true.mp outside region listed)
  · rw [← offsets.2.2]
    exact (written.constructorSlots.2 0 0 contents.2).2

end TypeCatalog.Image
