import Mathlib.Data.List.Perm.Subperm
import Mathlib.Data.Set.Insert
import Mathlib.Logic.Relation
import TypeCatalog.Proofs.Image.Rewriting

/-!
The slots of what has been exported. A number tells a callable or accessor from all others that are in
memory at the same time; once it is gone, its number may be that of another. What has a slot does not
go, so the search by number finds its own slot for ever, whichever registries are exported and
whatever is made and dropped in between. A look-up in a map from numbers does as well as the search.
-/
namespace TypeCatalog

namespace ExportTable

variable {t : ExportTable} {slot : UInt64} {e : Exported}

/-- Whether the look-up of its kind finds a thing in a slot, and the other look-up finds nothing. -/
def Leads (t : ExportTable) (slot : UInt64) : Exported → Prop
  | .callable c => t.callable? slot = some c ∧ t.accessor? slot = none
  | .accessor a => t.accessor? slot = some a ∧ t.callable? slot = none

theorem leads_of_getElem? (here : t.entries[slot.toNat]? = some e) : t.Leads slot e := by
  cases e <;> simp [Leads, callable?, accessor?, here]

theorem lookups_of_getElem?_none (nothing : t.entries[slot.toNat]? = none) :
    t.callable? slot = none ∧ t.accessor? slot = none := by
  simp [callable?, accessor?, nothing]

/-- A table in which no two slots hold things of one number. -/
def Distinct (t : ExportTable) : Prop := (t.entries.map Exported.number).Nodup

theorem Distinct.position_unique (distinct : t.Distinct) {i j : Nat} {a b : Exported}
    (first : t.entries[i]? = some a) (second : t.entries[j]? = some b)
    (same : a.number = b.number) : i = j := by
  obtain ⟨within, _⟩ := List.getElem?_eq_some_iff.mp first
  rw [← List.length_map Exported.number] at within
  rw [← List.getElem?_inj within distinct, List.getElem?_map, List.getElem?_map, first, second]
  exact congrArg some same

/-- What has a slot is found there, and no slot is added for it. -/
theorem Distinct.slotOf_eq (distinct : t.Distinct) (there : Image.SlotFor t.entries slot e) :
    t.slotOf e = (slot, t) := by
  obtain ⟨position, present, rfl⟩ := there
  obtain ⟨within, isHere⟩ := List.getElem?_eq_some_iff.mp present
  have found : t.entries.findIdx? (·.number = e.number) = some position := by
    refine List.findIdx?_eq_some_iff_getElem.mpr ⟨within, by simp [isHere], fun j less same => ?_⟩
    have earlier := List.getElem?_eq_getElem (Nat.lt_trans less within)
    have unique := distinct.position_unique earlier present (of_decide_eq_true same)
    exact Nat.ne_of_lt less unique
  rw [slotOf, found]

theorem Distinct.slotOf (distinct : t.Distinct) (e : Exported) : (t.slotOf e).2.Distinct := by
  unfold ExportTable.slotOf
  split
  next => exact distinct
  next absent =>
    have new : e.number ∉ t.entries.map Exported.number := by
      intro listed
      obtain ⟨x, held, same⟩ := List.mem_map.mp listed
      exact of_decide_eq_false (List.findIdx?_eq_none_iff.mp absent x held) same
    simpa only [Distinct, List.map_append, List.map_singleton, List.concat_eq_append] using
      List.Nodup.concat new distinct

/-- The table after the slots of these things have been asked for, one after another. -/
def asked (t : ExportTable) (things : List Exported) : ExportTable :=
  things.foldl (fun t e => (t.slotOf e).2) t

theorem distinct_asked (things : List Exported) : (empty.asked things).Distinct :=
  List.foldlRecOn things _ List.nodup_nil fun _ distinct e _ => distinct.slotOf e

theorem asked_append (t : ExportTable) (things more : List Exported) :
    t.asked (things ++ more) = (t.asked things).asked more :=
  List.foldl_append

end ExportTable

/-- The entries of a table beside a map from numbers to slots, in which alone a slot is looked up. -/
structure MappedTable where
  entries : List Exported := []
  slots : Index Nat UInt64 := .empty

namespace MappedTable

def slotOf (k : MappedTable) (e : Exported) : UInt64 × MappedTable :=
  match k.slots.find? e.number with
  | some slot => (slot, k)
  | none =>
    let slot := UInt64.ofNat k.entries.length
    (slot, ⟨k.entries ++ [e], k.slots.insert e.number slot⟩)

def asked (k : MappedTable) (things : List Exported) : MappedTable :=
  things.foldl (fun k e => (k.slotOf e).2) k

/-- Whether the entries are those of a table, and the map leads to where they are. -/
structure Maps (k : MappedTable) (t : ExportTable) : Prop where
  entries : k.entries = t.entries
  slots : ∀ number, k.slots.find? number =
    (t.entries.findIdx? (·.number = number)).map UInt64.ofNat

variable {k : MappedTable} {t : ExportTable}

theorem maps_empty : Maps {} .empty := ⟨rfl, fun _ => rfl⟩

/-- The map answers as the search does, and both take up what is new. -/
theorem Maps.slotOf (maps : k.Maps t) (e : Exported) :
    (k.slotOf e).1 = (t.slotOf e).1 ∧ (k.slotOf e).2.Maps (t.slotOf e).2 := by
  rw [MappedTable.slotOf, ExportTable.slotOf, maps.slots, maps.entries]
  cases found : t.entries.findIdx? (·.number = e.number) with
  | some position => exact ⟨rfl, maps⟩
  | none =>
    refine ⟨rfl, rfl, fun number => ?_⟩
    show (k.slots.insert e.number (UInt64.ofNat t.entries.length)).find? number =
      ((t.entries ++ [e]).findIdx? (·.number = number)).map UInt64.ofNat
    rw [Index.find?_insert, maps.slots, List.findIdx?_append]
    split
    next same => simp [same, found, List.findIdx?_cons]
    next other => simp [List.findIdx?_cons, Ne.symm other]

theorem Maps.asked (maps : k.Maps t) (things : List Exported) :
    (k.asked things).Maps (t.asked things) := by
  induction things generalizing k t with
  | nil => exact maps
  | cons e things ih => exact ih (maps.slotOf e).2

end MappedTable

namespace Image

/-- The accessors and callables of rows: those of all fields, of all methods and of all
constructors. -/
def thingsOf (rows : List Row) : List Exported :=
  (rows.flatMap Row.fields).map (.accessor ·.accessor)
    ++ (rows.flatMap Row.methods).map (.callable ·.callable)
    ++ (rows.flatMap Row.constructors).map (.callable ·.callable)

theorem mem_thingsOf {rows : List Row} {e : Exported} :
    e ∈ thingsOf rows ↔ ∃ row ∈ rows, (∃ f ∈ row.fields, .accessor f.accessor = e) ∨
      (∃ m ∈ row.methods, .callable m.callable = e) ∨
      ∃ c ∈ row.constructors, .callable c.callable = e := by
  simp only [thingsOf, List.mem_append, List.mem_map, List.mem_flatMap]
  grind

theorem membersKnown_of_thingsOf {known : Exported → Prop} {rows : List Row}
    (told : ∀ e ∈ thingsOf rows, known e) {row : Row} (listed : row ∈ rows) :
    MembersKnown known row where
  fields f own := told _ (mem_thingsOf.mpr ⟨row, listed, .inl ⟨f, own, rfl⟩⟩)
  methods m own := told _ (mem_thingsOf.mpr ⟨row, listed, .inr (.inl ⟨m, own, rfl⟩)⟩)
  constructors c own := told _ (mem_thingsOf.mpr ⟨row, listed, .inr (.inr ⟨c, own, rfl⟩)⟩)

theorem Contents.fields_addRows (k : Contents) (rows : List Row) :
    (k.addRows rows).fields = k.fields ++ rows.flatMap Row.fields := by
  induction rows generalizing k with
  | nil => simp [addRows]
  | cons row rows ih =>
    rw [addRows, List.foldl_cons, ← addRows, ih]
    simp [addRow, addFields, addMethods, addConstructors, addAttributes]

namespace Sections

variable {s : Sections}

theorem exports_addAttributes (s : Sections) (attributes : List Attribute) :
    (s.addAttributes attributes).2.exports = s.exports :=
  congrArg (·.2.exports) (addAttributes_later s s.exports attributes)

/-- Steps that each ask for the slots of some things ask for those of all, one after another. -/
theorem exports_foldl {α : Type} {step : Sections → α → Sections} {things : α → List Exported}
    (one : ∀ s a, (step s a).exports = s.exports.asked (things a)) (s : Sections)
    (items : List α) : (items.foldl step s).exports = s.exports.asked (items.flatMap things) := by
  rw [ExportTable.asked, List.foldl_flatMap]
  exact (List.foldl_hom exports fun s a => (one s a).symm).symm

theorem exports_foldl_one {α : Type} {step : Sections → α → Sections} {thing : α → Exported}
    (one : ∀ s a, (step s a).exports = (s.exports.slotOf (thing a)).2) (s : Sections)
    (items : List α) : (items.foldl step s).exports = s.exports.asked (items.map thing) := by
  rw [ExportTable.asked, List.foldl_map]
  exact (List.foldl_hom exports fun s a => (one s a).symm).symm

theorem exports_addField (s : Sections) (f : Field) :
    (s.addField f).exports = (s.exports.slotOf (.accessor f.accessor)).2 := by
  have before := exports_addAttributes (s.addText f.name.text).2 f.attributes
  exact congrArg (fun t => (ExportTable.slotOf t (.accessor f.accessor)).2) before

theorem exports_addMethod (s : Sections) (m : Method) :
    (s.addMethod m).exports = (s.exports.slotOf (.callable m.callable)).2 := by
  have before :=
    exports_addAttributes ((s.addText m.name.text).2.addParams m.params).2 m.attributes
  exact congrArg (fun t => (ExportTable.slotOf t (.callable m.callable)).2) before

theorem exports_addConstructor (s : Sections) (c : Constructor) :
    (s.addConstructor c).exports = (s.exports.slotOf (.callable c.callable)).2 := by
  have before := exports_addAttributes (s.addParams c.params).2 c.attributes
  exact congrArg (fun t => (ExportTable.slotOf t (.callable c.callable)).2) before

theorem exports_addType (s : Sections) (row : Row) :
    (s.addType row).exports = s.exports.asked (thingsOf [row]) := by
  let a := (s.addText row.name.text).2
  let b := row.fields.foldl addField a
  let c := row.methods.foldl addMethod b
  let d := row.constructors.foldl addConstructor c
  have fields : b.exports = _ := exports_foldl_one exports_addField a row.fields
  have methods : c.exports = _ := exports_foldl_one exports_addMethod b row.methods
  have constructors : d.exports = _ :=
    exports_foldl_one exports_addConstructor c row.constructors
  have last : (s.addType row).exports = d.exports := exports_addAttributes d row.attributes
  rw [last, constructors, methods, fields]
  simp only [thingsOf, List.flatMap_singleton, ExportTable.asked_append]
  rfl

/-- Writing rows asks for the slots of their accessors and callables, row by row. -/
theorem exports_ofRows (exports : ExportTable) (rows : List Row) :
    (ofRows exports rows).exports = exports.asked (rows.flatMap (thingsOf [·])) :=
  exports_foldl exports_addType { exports } rows

/-- All slots in the records of an image. -/
def slots (s : Sections) : List UInt64 :=
  s.fields.map FieldRecord.slot ++ s.methodSlots ++ s.constructorSlots

/-- In the order of the records, each slot is that of its accessor or callable. -/
theorem Hold.slots_rows {known : Exported → Prop} {rows : List Row}
    (hold : s.Hold known (Contents.addRows {} rows)) :
    List.Forall₂ (SlotFor s.exports.entries) s.slots (thingsOf rows) := by
  obtain ⟨-, methods, constructors⟩ := Contents.addRows_eq {} rows
  have forFields := hold.tell.fields
  have forMethods := hold.tell.methodSlots
  have forConstructors := hold.tell.constructorSlots
  rw [Contents.fields_addRows, List.nil_append] at forFields
  rw [methods, List.nil_append] at forMethods
  rw [constructors, List.nil_append] at forConstructors
  refine List.rel_append (List.rel_append ?_ ?_) ?_
  · rw [List.forall₂_map_left_iff, List.forall₂_map_right_iff]
    exact forFields.imp fun _ _ tells => tells.slot
  · rwa [List.forall₂_map_right_iff]
  · rwa [List.forall₂_map_right_iff]

end Sections

end Image

/-- What is in memory, the slots, and which slot has been handed out for what so far. -/
structure Memory where
  live : Set Exported := ∅
  exports : ExportTable := .empty
  handed : List (UInt64 × Exported) := []

namespace Memory

/-- The sections of the image of a registry. -/
def sections (m : Memory) (r : Registry) : Image.Sections :=
  .ofRows m.exports (r.publishedRows.map (·.2))

/-- What can happen next. Something new has a number, a word, that nothing in memory has; the slots
keep in memory what they hold; and a slot is only asked for on behalf of something that is there. -/
inductive Step (m : Memory) : Memory → Prop where
  | make {e : Exported} (word : e.number < UInt64.size)
      (free : ∀ x ∈ m.live, x.number ≠ e.number) : Step m { m with live := insert e m.live }
  | drop {e : Exported} (unheld : e ∉ m.exports.entries) : Step m { m with live := m.live \ {e} }
  | ask {e : Exported} (live : e ∈ m.live) :
      Step m { m with
        exports := (m.exports.slotOf e).2
        handed := m.handed ++ [((m.exports.slotOf e).1, e)] }
  /-- Writes the image of a registry. -/
  | write (r : Registry) (live : ∀ e ∈ Image.thingsOf (r.publishedRows.map (·.2)), e ∈ m.live) :
      Step m { m with
        exports := (Image.ofRegistry r m.exports).2
        handed := m.handed ++
          (m.sections r).slots.zip (Image.thingsOf (r.publishedRows.map (·.2))) }

/-- The states that can be reached from an empty memory. -/
def Reachable (m : Memory) : Prop := Relation.ReflTransGen Step {} m

/-- Everything in memory has a number of its own, and the slots are the answers to a sequence of
requests and hold what is in memory only. Those that have been handed out are the slots of what they
were handed out for, and there are no others. -/
structure Sound (m : Memory) : Prop where
  numbered : Image.Numbered (· ∈ m.live)
  words : ∀ e ∈ m.live, e.number < UInt64.size
  kept : ∀ e ∈ m.exports.entries, e ∈ m.live
  asked : ∃ things, m.exports = ExportTable.empty.asked things
  handed : ∀ p ∈ m.handed, Image.SlotFor m.exports.entries p.1 p.2
  placed : ∀ position e, m.exports.entries[position]? = some e →
    (UInt64.ofNat position, e) ∈ m.handed

variable {m d : Memory} {slot : UInt64} {e : Exported}

theorem sound_empty : Sound {} where
  numbered a _ first := absurd first (Set.notMem_empty a)
  words e live := absurd live (Set.notMem_empty e)
  kept := by simp [ExportTable.empty]
  asked := ⟨[], rfl⟩
  handed := by simp
  placed := by simp [ExportTable.empty]

theorem Sound.distinct (sound : m.Sound) : m.exports.Distinct := by
  obtain ⟨things, same⟩ := sound.asked
  exact same ▸ ExportTable.distinct_asked things

/-- The numbers in the slots are different words, so there are no more slots than words. -/
theorem Sound.few (sound : m.Sound) : m.exports.entries.length ≤ UInt64.size := by
  have within : m.exports.entries.map Exported.number ⊆ List.range UInt64.size := by
    intro number listed
    obtain ⟨e, held, rfl⟩ := List.mem_map.mp listed
    exact List.mem_range.mpr (sound.words e (sound.kept e held))
  have shorter := (List.subperm_of_subset sound.distinct within).length_le
  rwa [List.length_map, List.length_range] at shorter

theorem Sound.getElem?_handed (sound : m.Sound) (given : (slot, e) ∈ m.handed) :
    m.exports.entries[slot.toNat]? = some e :=
  Image.Sections.getElem?_slot (sound.handed _ given) sound.few List.prefix_rfl

theorem Sound.make (sound : m.Sound) (word : e.number < UInt64.size)
    (free : ∀ x ∈ m.live, x.number ≠ e.number) : Sound { m with live := insert e m.live } where
  numbered := by
    rintro a b (rfl | first) (rfl | second) same
    · rfl
    · exact absurd same.symm (free b second)
    · exact absurd same (free a first)
    · exact sound.numbered a b first second same
  words := by
    rintro x (rfl | live)
    · exact word
    · exact sound.words x live
  kept x held := .inr (sound.kept x held)
  asked := sound.asked
  handed := sound.handed
  placed := sound.placed

theorem Sound.drop (sound : m.Sound) (unheld : e ∉ m.exports.entries) :
    Sound { m with live := m.live \ {e} } where
  numbered a b first second := sound.numbered a b first.1 second.1
  words x live := sound.words x live.1
  kept x held := ⟨sound.kept x held, fun same => unheld (same ▸ held)⟩
  asked := sound.asked
  handed := sound.handed
  placed := sound.placed

theorem Sound.asked_more (sound : m.Sound) (more : List Exported) :
    ∃ things, m.exports.asked more = ExportTable.empty.asked things := by
  obtain ⟨things, same⟩ := sound.asked
  exact ⟨things ++ more, by rw [ExportTable.asked_append, same]⟩

/-- Slots that are handed out for things in memory, where these are all that is new in the slots. -/
theorem Sound.hand (sound : m.Sound) {t : ExportTable} {slots : List UInt64}
    {things : List Exported} (live : ∀ e ∈ things, e ∈ m.live)
    (asked : ∃ things, t = ExportTable.empty.asked things)
    (grown : m.exports.entries <+: t.entries)
    (held : ∀ e ∈ t.entries, e ∈ m.exports.entries ∨ e ∈ things)
    (given : List.Forall₂ (Image.SlotFor t.entries) slots things) :
    Sound { m with exports := t, handed := m.handed ++ slots.zip things } where
  numbered := sound.numbered
  words := sound.words
  kept e there := (held e there).elim (sound.kept e) (live e)
  asked := asked
  handed p listed := by
    rcases List.mem_append.mp listed with old | new
    · exact (sound.handed p old).later grown
    · exact (List.forall₂_iff_zip.mp given).2 new
  placed position e present := by
    obtain ⟨all, rfl⟩ := asked
    have distinct := ExportTable.distinct_asked all
    rcases held e (List.mem_of_getElem? present) with old | new
    · obtain ⟨before, within, rfl⟩ := List.getElem_of_mem old
      have there := List.getElem?_eq_getElem within
      obtain ⟨_, still, same⟩ := Image.SlotFor.later ⟨before, there, rfl⟩ grown
      rw [distinct.position_unique present still rfl, ← same]
      exact List.mem_append_left _ (sound.placed before _ there)
    · rw [← List.map_snd_zip (Nat.le_of_eq given.length_eq.symm)] at new
      obtain ⟨⟨slot, x⟩, listed, rfl⟩ := List.mem_map.mp new
      obtain ⟨there, found, rfl⟩ := (List.forall₂_iff_zip.mp given).2 listed
      rw [distinct.position_unique present found rfl]
      exact List.mem_append_right _ listed

/-- What is in the slots, and some more that is in memory, has numbers of its own. -/
theorem Sound.numbered_with (sound : m.Sound) {things : List Exported}
    (live : ∀ e ∈ things, e ∈ m.live) :
    Image.Numbered fun x => x ∈ m.exports.entries ∨ x ∈ things :=
  fun a b first second => sound.numbered a b (first.elim (sound.kept a) (live a))
    (second.elim (sound.kept b) (live b))

theorem Sound.ask (sound : m.Sound) (live : e ∈ m.live) :
    Sound { m with
      exports := (m.exports.slotOf e).2
      handed := m.handed ++ [((m.exports.slotOf e).1, e)] } := by
  have alive : ∀ x ∈ [e], x ∈ m.live := by simpa using live
  obtain ⟨held, grown, there⟩ := Image.slotOf_spec (sound.numbered_with alive) (t := m.exports)
    (fun _ => .inl) (.inr List.mem_cons_self)
  exact sound.hand alive (sound.asked_more [e]) grown held (.cons there .nil)

/-- What writing rows leads to: their sections, with the slots that the table gives. -/
theorem Sound.goes (sound : m.Sound) {rows : List Row}
    (live : ∀ e ∈ Image.thingsOf rows, e ∈ m.live) :
    let s := Image.Sections.ofRows m.exports rows
    Image.Sections.Goes (fun e => e ∈ m.exports.entries ∨ e ∈ Image.thingsOf rows)
      { exports := m.exports } {} s (Image.Contents.addRows {} rows) :=
  Image.Sections.ofRows_goes (sound.numbered_with live) (fun _ => .inl)
    fun _ => Image.membersKnown_of_thingsOf fun _ => .inr

theorem Sound.write (sound : m.Sound) {rows : List Row}
    (live : ∀ e ∈ Image.thingsOf rows, e ∈ m.live) :
    let s := Image.Sections.ofRows m.exports rows
    Sound { m with
      exports := s.exports
      handed := m.handed ++ s.slots.zip (Image.thingsOf rows) } := by
  have goes := sound.goes live
  refine sound.hand live ?_ goes.grown.slots goes.hold.slots goes.hold.slots_rows
  rw [Image.Sections.exports_ofRows]
  exact sound.asked_more _

theorem Step.sound (step : Step m d) (sound : m.Sound) : d.Sound := by
  cases step with
  | make word free => exact sound.make word free
  | drop unheld => exact sound.drop unheld
  | ask live => exact sound.ask live
  | write r live => exact sound.write live

theorem Reachable.sound (reachable : Reachable m) : m.Sound := by
  induction reachable with
  | refl => exact sound_empty
  | tail _ step ih => exact step.sound ih

/-- What has been handed out once counts as handed out for ever. -/
theorem handed_grows (run : Relation.ReflTransGen Step m d) : m.handed <+: d.handed := by
  induction run with
  | refl => exact List.prefix_rfl
  | tail _ step ih =>
    cases step with
    | make word free => exact ih
    | drop unheld => exact ih
    | ask live => exact ih.trans (List.prefix_append _ _)
    | write r live => exact ih.trans (List.prefix_append _ _)

/-- In every history of a memory, in which things are made and dropped, slots are asked for and
images of any registries are written: a slot that has been handed out for a callable or accessor is
handed out for it every time, now and at any later time; the look-up of its kind finds just this thing
there, and the other look-up nothing; different things have different slots; in a slot that has not
been handed out neither look-up finds anything; an image holds a slot for each accessor and callable
of its rows; and a table that is asked for the same slots and looks them up in a map from numbers has
the same entries, with its map inverse to them, and gives the same slots. -/
theorem slots_permanent_and_injective (reachable : Reachable m) :
    (∀ slot e, (slot, e) ∈ m.handed → ∀ d, Relation.ReflTransGen Step m d →
      d.exports.slotOf e = (slot, d.exports) ∧ d.exports.Leads slot e) ∧
    (∀ slot e other x, (slot, e) ∈ m.handed → (other, x) ∈ m.handed → (slot = other ↔ e = x)) ∧
    (∀ slot, (∀ e, (slot, e) ∉ m.handed) →
      m.exports.callable? slot = none ∧ m.exports.accessor? slot = none) ∧
    (∀ r : Registry, (∀ e ∈ Image.thingsOf (r.publishedRows.map (·.2)), e ∈ m.live) →
      (m.sections r).slots.length = (Image.thingsOf (r.publishedRows.map (·.2))).length) ∧
    ∃ things, m.exports = ExportTable.empty.asked things ∧
      (MappedTable.asked {} things).Maps m.exports ∧
      ∀ e, ((MappedTable.asked {} things).slotOf e).1 = (m.exports.slotOf e).1 := by
  have sound := reachable.sound
  refine ⟨fun slot e given d run => ?_, fun slot e other x first second => ⟨?_, ?_⟩, ?_, ?_, ?_⟩
  · have later : d.Sound := Reachable.sound (Relation.ReflTransGen.trans reachable run)
    have still : (slot, e) ∈ d.handed := (handed_grows run).subset given
    exact ⟨later.distinct.slotOf_eq (later.handed _ still),
      ExportTable.leads_of_getElem? (later.getElem?_handed still)⟩
  · rintro rfl
    exact Option.some.inj ((sound.getElem?_handed first).symm.trans (sound.getElem?_handed second))
  · rintro rfl
    have here := sound.distinct.slotOf_eq (sound.handed _ first)
    have there := sound.distinct.slotOf_eq (sound.handed _ second)
    exact congrArg Prod.fst (here.symm.trans there)
  · intro slot never
    refine ExportTable.lookups_of_getElem?_none (Option.eq_none_iff_forall_not_mem.mpr ?_)
    intro e present
    have placed := sound.placed slot.toNat e present
    rw [UInt64.ofNat_toNat] at placed
    exact never e placed
  · exact fun r live => (sound.goes live).hold.slots_rows.length_eq
  · obtain ⟨things, same⟩ := sound.asked
    have maps := MappedTable.maps_empty.asked things
    exact ⟨things, same, same ▸ maps, fun e => same ▸ (maps.slotOf e).1⟩

def callableOf (number : Nat) : Callable := ⟨number, .none, [], fun object _ => ⟨object, object⟩⟩

/-- An accessor with the number of a callable that is gone. -/
def laterAccessor : Accessor := ⟨7, ⟨.user "A", .primitive .bool, .whole⟩⟩

/-- A registry with one type, which has a field and a constructor. -/
def oneType : Registry where
  types := ⟨[⟨0, some {
    name := ⟨⟨0⟩, "A"⟩
    typeHash := ⟨1⟩
    owner := .host
    size := 8
    align := 8
    flags := {}
    fields := [⟨⟨⟨1⟩, "x"⟩, ⟨2⟩, none, laterAccessor, []⟩]
    constructors := [⟨[], ⟨3⟩, callableOf 8, []⟩]
    published := true }⟩], []⟩

/-- The memory once a callable has been made and dropped, and the accessor made in its place. -/
def numberUsedAgain : Memory where
  live := insert (.accessor laterAccessor)
    (insert (.callable (callableOf 7)) ∅ \ {.callable (callableOf 7)})

/-- The same memory once the accessor has its slot. -/
def slotGiven : Memory where
  live := numberUsedAgain.live
  exports := (numberUsedAgain.exports.slotOf (.accessor laterAccessor)).2
  handed := [(0, .accessor laterAccessor)]

/-- The same memory once the type has been written, with a second slot for its constructor. -/
def typeWritten : Memory where
  live := insert (.callable (callableOf 8)) slotGiven.live
  exports := (Image.ofRegistry oneType slotGiven.exports).2
  handed := [(0, .accessor laterAccessor), (0, .accessor laterAccessor),
    (1, .callable (callableOf 8))]

theorem eq_of_live_numberUsedAgain {x : Exported} (live : x ∈ numberUsedAgain.live) :
    x = .accessor laterAccessor := by
  rcases live with same | ⟨same | none, other⟩
  · exact same
  · exact absurd same other
  · exact absurd none (Set.notMem_empty x)

theorem reachable_slotGiven : Reachable slotGiven := by
  let old := Exported.callable (callableOf 7)
  let made : Memory := { live := insert old ∅ }
  let dropped : Memory := { live := insert old ∅ \ {old} }
  have makes : Step {} made := .make (by decide) fun x live => absurd live (Set.notMem_empty x)
  have drops : Step made dropped := .drop (m := made) List.not_mem_nil
  have again : Step dropped numberUsedAgain := by
    refine .make (m := dropped) (e := .accessor laterAccessor) (by decide) fun x live => ?_
    simp [dropped] at live
  have asks : Step numberUsedAgain slotGiven := .ask (m := numberUsedAgain) (.inl rfl)
  exact (((Relation.ReflTransGen.single makes).tail drops).tail again).tail asks

theorem run_typeWritten : Relation.ReflTransGen Step slotGiven typeWritten := by
  let made : Memory := { slotGiven with live := typeWritten.live }
  have makes : Step slotGiven made := by
    refine .make (by decide) fun x live => ?_
    cases eq_of_live_numberUsedAgain live
    decide
  have writes : Step made typeWritten := by
    refine .write (m := made) oneType fun e listed => ?_
    have oneOf : e ∈ [.accessor laterAccessor, .callable (callableOf 8)] := listed
    rcases List.mem_cons.mp oneOf with rfl | last
    · exact .inr (.inl rfl)
    · exact .inl (List.mem_singleton.mp last)
  exact (Relation.ReflTransGen.single makes).tail writes

/-- The accessor keeps its slot, whatever had its number before and whatever is written after. -/
theorem later_accessor_keeps_slot :
    let a := Exported.accessor laterAccessor
    let c := Exported.callable (callableOf 8)
    let d := typeWritten
    Reachable slotGiven ∧ (0, a) ∈ slotGiven.handed ∧ Relation.ReflTransGen Step slotGiven d ∧
      d.exports.slotOf a = (0, d.exports) ∧ d.exports.Leads 0 a ∧
      d.exports.slotOf c = (1, d.exports) ∧ d.exports.Leads 1 c ∧
      d.exports.callable? 2 = none ∧ d.exports.accessor? 2 = none := by
  intro a c d
  have reachable : Reachable d := Relation.ReflTransGen.trans reachable_slotGiven run_typeWritten
  have first : (0, a) ∈ slotGiven.handed := List.mem_cons_self
  have second : (1, c) ∈ d.handed := by simp [d, c, typeWritten]
  have unused : ∀ e, (2, e) ∉ d.handed := by simp [d, typeWritten]
  obtain ⟨kept, -⟩ := slots_permanent_and_injective reachable_slotGiven
  obtain ⟨given, -, others, -⟩ := slots_permanent_and_injective reachable
  obtain ⟨sameSlot, leads⟩ := kept 0 a first d run_typeWritten
  obtain ⟨ownSlot, found⟩ := given 1 c second d .refl
  exact ⟨reachable_slotGiven, first, run_typeWritten, sameSlot, leads, ownSlot, found,
    others 2 unused⟩

end Memory

end TypeCatalog
