import TypeCatalog.Image.Decode
import TypeCatalog.Image.Export
import TypeCatalog.Proofs.Image.Codec

/-!
Where the sections of an image are. Each section begins at the first multiple of eight behind the one
before it, and nothing overflows, since there are fewer than 2^32 entries of each kind; so the content
of a section is found at its offset, whatever stands in the others.
-/
namespace TypeCatalog.Image

/-- Clearing the low three bits is shifting them out. -/
theorem and_not_seven (x : BitVec 64) : x &&& ~~~7#64 = (x >>> 3) <<< 3 := by
  have mask : ∀ i : Fin 64, (18446744073709551608#64).getLsbD i = decide (3 ≤ i.val) := by decide
  rw [show ~~~7#64 = 18446744073709551608#64 from rfl]
  ext i within
  have bit := mask ⟨i, within⟩
  rw [BitVec.getLsbD_eq_getElem within] at bit
  by_cases low : i < 3
  · simp [bit, low]
  · have back : 3 + (i - 3) = i := by omega
    simp [bit, low, back, Nat.le_of_not_lt low, BitVec.getLsbD_eq_getElem within]

/-- A position that is not too great goes up to the next multiple of eight. -/
theorem toNat_align8 {x : UInt64} (small : x.toNat + 7 < UInt64.size) :
    (align8 x).toNat = (x.toNat + 7) / 8 * 8 := by
  rw [UInt64.size] at small
  have sum : (x + 7).toNat = x.toNat + 7 := by
    rw [UInt64.toNat_add, show (7 : UInt64).toNat = 7 from rfl, Nat.mod_eq_of_lt small]
  have word : (align8 x).toNat = ((((x + 7).toBitVec >>> 3) <<< 3 : BitVec 64)).toNat := by
    rw [← and_not_seven]
    rfl
  rw [word, BitVec.toNat_shiftLeft, BitVec.toNat_ushiftRight, UInt64.toNat_toBitVec, sum,
    Nat.shiftRight_eq_div_pow, Nat.shiftLeft_eq]
  omega

/-- The length of a section whose entries have `size` bytes. -/
theorem toNat_section (count : UInt32) {size : Nat} (small : size ≤ 72) :
    (count.toUInt64 * UInt64.ofNat size).toNat = count.toNat * size ∧
      count.toNat * size < 72 * UInt32.size := by
  have below := count.toNat_lt
  have product := Nat.mul_le_mul_left count.toNat small
  have bound : count.toNat * size < 72 * UInt32.size := by
    rw [UInt32.size]
    omega
  have word : (UInt64.ofNat size).toNat = size := by
    rw [UInt64.toNat_ofNat']
    omega
  refine ⟨?_, bound⟩
  rw [UInt32.size] at bound
  rw [UInt64.toNat_mul, UInt32.toNat_toUInt64, word, Nat.mod_eq_of_lt (by omega)]

namespace Counts

/-- How many entries each section has, and how many bytes each of them has. -/
def entries (c : Counts) : List (UInt32 × Nat) :=
  [(c.types, typeSize), (c.fields, fieldSize), (c.methods, methodSize),
    (c.constructors, constructorSize), (c.attributes, attributeSize), (c.params, wordSize),
    (c.textBytes, 1), (c.methods, wordSize), (c.constructors, wordSize)]

theorem size_le (c : Counts) : ∀ e ∈ c.entries, e.2 ≤ 72 := by
  simp [entries, typeSize, fieldSize, methodSize, constructorSize, attributeSize, wordSize]

theorem lengths_eq (c : Counts) :
    c.lengths = c.entries.map fun e => e.1.toUInt64 * UInt64.ofNat e.2 := by
  have one : c.textBytes.toUInt64 * UInt64.ofNat 1 = c.textBytes.toUInt64 := UInt64.mul_one _
  simp only [entries, List.map_cons, List.map_nil, one]
  rfl

theorem toNat_lengths (c : Counts) :
    c.lengths.map UInt64.toNat = c.entries.map fun e => e.1.toNat * e.2 := by
  rw [lengths_eq, List.map_map]
  exact List.map_congr_left fun e listed => (toNat_section e.1 (c.size_le e listed)).1

end Counts

/-- Sections from a position on that begin at multiples of eight, in order and apart, and end at a
multiple of eight. -/
structure Laid (cursor total : Nat) (regions : List (Nat × Nat)) : Prop where
  aligned : ∀ region ∈ regions, 8 ∣ region.1
  after : ∀ region ∈ regions, cursor ≤ region.1
  apart : regions.Pairwise fun a b => a.1 + a.2 ≤ b.1
  within : ∀ region ∈ regions, region.1 + region.2 ≤ total
  reaches : cursor ≤ total
  total : 8 ∣ total

section

variable {cursor offset length total : Nat} {regions : List (Nat × Nat)}

/-- One more section in front. -/
theorem Laid.cons (laid : Laid (offset + length) total regions) (before : cursor ≤ offset)
    (aligned : 8 ∣ offset) : Laid cursor total ((offset, length) :: regions) where
  aligned := List.forall_mem_cons.mpr ⟨aligned, laid.aligned⟩
  after := List.forall_mem_cons.mpr ⟨before, fun region listed => by
    have := laid.after region listed
    omega⟩
  apart := List.pairwise_cons.mpr ⟨laid.after, laid.apart⟩
  within := List.forall_mem_cons.mpr ⟨laid.reaches, laid.within⟩
  reaches := by
    have := laid.reaches
    omega
  total := laid.total

theorem Laid.tail (laid : Laid cursor total ((offset, length) :: regions)) :
    Laid (offset + length) total regions where
  aligned := (List.forall_mem_cons.mp laid.aligned).2
  after := (List.pairwise_cons.mp laid.apart).1
  apart := (List.pairwise_cons.mp laid.apart).2
  within := (List.forall_mem_cons.mp laid.within).2
  reaches := (List.forall_mem_cons.mp laid.within).1
  total := laid.total

end

/-- The sections that words place. -/
def placeWords (cursor : UInt64) : List (UInt32 × Nat) → List (UInt64 × UInt64) × UInt64
  | [] => ([], align8 cursor)
  | (count, size) :: entries =>
    let length := count.toUInt64 * UInt64.ofNat size
    let rest := placeWords (align8 cursor + length) entries
    ((align8 cursor, length) :: rest.1, rest.2)

theorem layout_eq_placeWords (c : Counts) :
    (Header.layout c).regions = (placeWords 120 c.entries).1 ∧
      (Header.layout c).totalSize = (placeWords 120 c.entries).2 := by
  have one : c.textBytes.toUInt64 * UInt64.ofNat 1 = c.textBytes.toUInt64 := UInt64.mul_one _
  simp only [placeWords, Counts.entries, one]
  exact ⟨rfl, rfl⟩

def Region.toNat (region : UInt64 × UInt64) : Nat × Nat := (region.1.toNat, region.2.toNat)

section

variable {cursor : UInt64} {entries : List (UInt32 × Nat)}

/-- Each section takes less than eighty bytes for each entry that can be counted, with the padding
in front of it. -/
def Room (cursor : UInt64) (entries : List (UInt32 × Nat)) : Prop :=
  (∀ e ∈ entries, e.2 ≤ 72) ∧ cursor.toNat + entries.length * (80 * UInt32.size) + 7 < UInt64.size

/-- What one section leaves to the others. -/
theorem Room.next {count : UInt32} {size : Nat} (room : Room cursor ((count, size) :: entries)) :
    let length := count.toUInt64 * UInt64.ofNat size
    length.toNat = count.toNat * size ∧
      (align8 cursor).toNat = (cursor.toNat + 7) / 8 * 8 ∧
      (align8 cursor + length).toNat = (align8 cursor).toNat + length.toNat ∧
      Room (align8 cursor + length) entries := by
  intro length
  obtain ⟨sizes, enough⟩ := room
  obtain ⟨small, sizes⟩ := List.forall_mem_cons.mp sizes
  obtain ⟨product, bound⟩ : length.toNat = count.toNat * size ∧
      count.toNat * size < 72 * UInt32.size := toNat_section count small
  rw [List.length_cons, Nat.succ_mul] at enough
  simp only [UInt32.size, UInt64.size] at enough bound
  have raised := toNat_align8 (x := cursor) (by rw [UInt64.size]; omega)
  have sum : (align8 cursor + length).toNat = (align8 cursor).toNat + length.toNat := by
    rw [UInt64.toNat_add, Nat.mod_eq_of_lt (by omega)]
  refine ⟨product, raised, sum, sizes, ?_⟩
  simp only [UInt32.size, UInt64.size]
  omega

theorem placeWords_laid (room : Room cursor entries) : Laid cursor.toNat
    (placeWords cursor entries).2.toNat ((placeWords cursor entries).1.map Region.toNat) := by
  -- From section to section the cursor moves, and the room left for the others is what remains.
  induction entries generalizing cursor with
  | nil =>
    have raised := toNat_align8 (x := cursor) (by simpa using room.2)
    exact ⟨by simp [placeWords], by simp [placeWords], by simp [placeWords], by simp [placeWords],
      by rw [placeWords, raised]; omega, by rw [placeWords, raised]; omega⟩
  | cons entry entries ih =>
    obtain ⟨length, raised, sum, rest⟩ := room.next
    have laid := ih rest
    rw [sum] at laid
    exact laid.cons (by omega) (by omega)

end

theorem room_layout (c : Counts) : Room 120 c.entries :=
  ⟨c.size_le, by simp [Counts.entries, UInt32.size, UInt64.size]⟩

theorem layout_laid (c : Counts) : Laid headerSize (Header.layout c).totalSize.toNat
    ((Header.layout c).regions.map Region.toNat) := by
  obtain ⟨regions, total⟩ := layout_eq_placeWords c
  rw [regions, total]
  exact placeWords_laid (room_layout c)

/-- Contents that follow each other from a position on without overlapping, up to an end. -/
def Placed (position : Nat) (last : Nat) : List (UInt64 × List UInt8) → Prop
  | [] => position ≤ last
  | (offset, content) :: parts =>
    position ≤ offset.toNat ∧ Placed (offset.toNat + content.length) last parts

theorem Laid.placed {cursor total : Nat} {parts : List (UInt64 × List UInt8)}
    (laid : Laid cursor total (parts.map (Prod.map UInt64.toNat List.length))) :
    Placed cursor total parts := by
  induction parts generalizing cursor with
  | nil => exact laid.reaches
  | cons part parts ih => exact ⟨laid.after _ List.mem_cons_self, ih laid.tail⟩

def place (bytes : List UInt8) (parts : List (UInt64 × List UInt8)) : List UInt8 :=
  parts.foldl (fun bytes (offset, content) => padTo bytes offset.toNat ++ content) bytes

theorem length_padTo {bytes : List UInt8} {position : Nat} (before : bytes.length ≤ position) :
    (padTo bytes position).length = position := by
  rw [padTo, List.length_append, length_putZeros]
  omega

theorem place_spec {last : Nat} {parts : List (UInt64 × List UInt8)} {bytes : List UInt8}
    (placed : Placed bytes.length last parts) :
    (place bytes parts).length ≤ last ∧ bytes <+: place bytes parts ∧
      ∀ part ∈ parts, ∃ pre post, place bytes parts = pre ++ part.2 ++ post ∧
        pre.length = part.1.toNat := by
  induction parts generalizing bytes with
  | nil => exact ⟨placed, List.prefix_rfl, by simp⟩
  | cons first rest ih =>
    obtain ⟨offset, content⟩ := first
    obtain ⟨before, after⟩ := placed
    have padded := length_padTo before
    have room : Placed (padTo bytes offset.toNat ++ content).length last rest := by
      rw [List.length_append, padded]
      exact after
    obtain ⟨short, kept, found⟩ := ih room
    have grown : bytes <+: padTo bytes offset.toNat ++ content := by
      rw [padTo, List.append_assoc]
      exact List.prefix_append _ _
    refine ⟨short, grown.trans kept, fun part listed => ?_⟩
    rcases List.mem_cons.mp listed with rfl | later
    · obtain ⟨post, whole⟩ := kept
      exact ⟨padTo bytes offset.toNat, post, whole.symm, padded⟩
    · exact found part later

/-- Sections whose counts fit into the words of a header. -/
structure Sections.WithinLimits (s : Sections) : Prop where
  types : s.types.length < UInt32.size
  fields : s.fields.length < UInt32.size
  methods : s.methods.length < UInt32.size
  constructors : s.constructors.length < UInt32.size
  attributes : s.attributes.length < UInt32.size
  params : s.params.length < UInt32.size
  texts : s.texts.bytes.length < UInt32.size

/-- Sections whose counts and slots fit into the words of an image. Slots are numbered by machine
words, so there are never more of them than `slots` says. -/
structure Sections.Fits (s : Sections) : Prop where
  types : s.types.length < UInt32.size
  fields : s.fields.length < UInt32.size
  methods : s.methods.length < UInt32.size
  constructors : s.constructors.length < UInt32.size
  attributes : s.attributes.length < UInt32.size
  params : s.params.length < UInt32.size
  texts : s.texts.bytes.length < UInt32.size
  slots : s.exports.entries.length ≤ UInt64.size

/-- There is a slot for each method and each constructor. -/
structure Sections.Parallel (s : Sections) : Prop where
  methods : s.methodSlots.length = s.methods.length
  constructors : s.constructorSlots.length = s.constructors.length

namespace Sections

variable {s : Sections}

def header (s : Sections) : Header := Header.layout s.counts

/-- What a reader of the image sees. -/
def view (s : Sections) : View := ⟨s.image, s.header, s.texts.bytes⟩

def parts (s : Sections) : List (UInt64 × List UInt8) := s.header.offsets.toList.zip s.contents

theorem image_eq (s : Sections) :
    s.image = padTo (place s.header.encode s.parts) s.header.totalSize.toNat := rfl

theorem Fits.withinLimits (fits : s.Fits) : s.WithinLimits := { fits with }

theorem WithinLimits.counts (limits : s.WithinLimits) :
    s.header.counts.types.toNat = s.types.length ∧
      s.header.counts.fields.toNat = s.fields.length ∧
      s.header.counts.methods.toNat = s.methods.length ∧
      s.header.counts.constructors.toNat = s.constructors.length ∧
      s.header.counts.attributes.toNat = s.attributes.length ∧
      s.header.counts.params.toNat = s.params.length ∧
      s.header.counts.textBytes.toNat = s.texts.bytes.length :=
  ⟨UInt32.toNat_ofNat_of_lt' limits.types, UInt32.toNat_ofNat_of_lt' limits.fields,
    UInt32.toNat_ofNat_of_lt' limits.methods, UInt32.toNat_ofNat_of_lt' limits.constructors,
    UInt32.toNat_ofNat_of_lt' limits.attributes, UInt32.toNat_ofNat_of_lt' limits.params,
    UInt32.toNat_ofNat_of_lt' limits.texts⟩

/-- The lengths that a header tells are those of what is written. -/
theorem lengths_contents (limits : s.WithinLimits) (parallel : s.Parallel) :
    s.header.counts.lengths.map UInt64.toNat = s.contents.map List.length := by
  obtain ⟨types, fields, methods, constructors, attributes, params, texts⟩ := limits.counts
  rw [Counts.toNat_lengths]
  simp only [Counts.entries, contents, List.map_cons, List.map_nil, types, fields, methods,
    constructors, attributes, params, texts, Nat.mul_one, parallel.methods, parallel.constructors,
    length_section length_typeRecord, length_section length_fieldRecord,
    length_section length_methodRecord, length_section length_constructorRecord,
    length_section length_attributeRecord, length_section length_put64, wordSize]

theorem regions_parts (limits : s.WithinLimits) (parallel : s.Parallel) :
    s.header.regions.map Region.toNat = s.parts.map (Prod.map UInt64.toNat List.length) := by
  show s.header.regions.map (Prod.map UInt64.toNat UInt64.toNat) = _
  rw [Header.regions, parts, ← List.zip_map, ← List.zip_map, lengths_contents limits parallel]

theorem parts_placed (limits : s.WithinLimits) (parallel : s.Parallel) :
    Placed s.header.encode.length s.header.totalSize.toNat s.parts := by
  have laid : Laid headerSize s.header.totalSize.toNat (s.header.regions.map Region.toNat) :=
    layout_laid s.counts
  rw [regions_parts limits parallel] at laid
  rw [length_header]
  exact laid.placed

theorem length_image (limits : s.WithinLimits) (parallel : s.Parallel) :
    s.image.length = s.header.totalSize.toNat := by
  rw [image_eq]
  exact length_padTo (place_spec (parts_placed limits parallel)).1

/-- The content of each section is at its offset. -/
theorem image_part (limits : s.WithinLimits) (parallel : s.Parallel) {part : UInt64 × List UInt8}
    (listed : part ∈ s.parts) :
    ∃ pre post, s.image = pre ++ part.2 ++ post ∧ pre.length = part.1.toNat := by
  obtain ⟨pre, post, whole, length⟩ := (place_spec (parts_placed limits parallel)).2.2 part listed
  refine ⟨pre, post ++ putZeros (s.header.totalSize.toNat -
    (place s.header.encode s.parts).length), ?_, length⟩
  rw [image_eq, padTo, whole]
  simp only [List.append_assoc]

theorem image_header (limits : s.WithinLimits) (parallel : s.Parallel) :
    ∃ post, s.image = s.header.encode ++ post := by
  obtain ⟨post, whole⟩ := (place_spec (parts_placed limits parallel)).2.1
  refine ⟨post ++ putZeros (s.header.totalSize.toNat -
    (place s.header.encode s.parts).length), ?_⟩
  rw [image_eq, padTo, ← whole]
  simp only [List.append_assoc]

theorem record?_part (fits : s.Fits) (parallel : s.Parallel) {α : Type} {reader : Reader α}
    {encode : α → List UInt8} {size : Nat} (sizes : ∀ a, (encode a).length = size)
    (reads : ∀ a, Reads reader (encode a) a) {offset : UInt64} {items : List α}
    (listed : (offset, items.flatMap encode) ∈ s.parts) {index : Nat} {a : α}
    (found : items[index]? = some a) : s.view.record? reader size offset index = some a := by
  obtain ⟨pre, post, whole, length⟩ := image_part fits.withinLimits parallel listed
  rw [View.record?, show s.view.bytes = s.image from rfl, whole, ← length]
  exact readAt_section sizes reads pre post found

theorem regions_fit (s : Sections) :
    s.header.regions.any (!regionFits s.header ·) = false := by
  have laid : Laid headerSize s.header.totalSize.toNat (s.header.regions.map Region.toNat) :=
    layout_laid s.counts
  refine List.any_eq_false.mpr fun region listed => ?_
  have after := laid.after _ (List.mem_map_of_mem listed)
  have within := laid.within _ (List.mem_map_of_mem listed)
  simp [regionFits, show headerSize ≤ region.1.toNat from after,
    show region.1.toNat + region.2.toNat ≤ s.header.totalSize.toNat from within]

/-- The image passes the checks of the header, and its text section is what has been written. -/
theorem ofBytes_image (fits : s.Fits) (parallel : s.Parallel) :
    View.ofBytes s.image = .ok s.view := by
  have limits := fits.withinLimits
  obtain ⟨post, whole⟩ := image_header limits parallel
  have version : readAt read32 s.image 0 = some Image.version := by
    rw [whole, Header.encode]
    simp only [List.append_assoc]
    exact (reads_put32 Image.version).readAt [] _
  have header : Header.decode? s.image = some s.header := by
    rw [whole]
    exact (reads_header s.header).readAt [] post
  have texts : (s.image.drop s.header.offsets.texts.toNat).take s.header.counts.textBytes.toNat =
      s.texts.bytes := by
    have listed : (s.header.offsets.texts, s.texts.bytes) ∈ s.parts := by
      simp [parts, contents, Offsets.toList]
    obtain ⟨pre, post, whole, length⟩ := image_part limits parallel listed
    rw [whole, limits.counts.2.2.2.2.2.2, ← length, List.append_assoc, List.drop_left, List.take_left]
  have long : ¬ s.image.length < s.header.totalSize.toNat := by
    rw [length_image limits parallel]
    exact Nat.lt_irrefl _
  simp only [View.ofBytes, version, header, bind, Except.bind, if_neg long, regions_fit s, pure,
    Except.pure, texts]
  rfl

end Sections

end TypeCatalog.Image
