import TypeCatalog.Proofs.Attributes
import TypeCatalog.Proofs.Descriptions
import TypeCatalog.Registry.Verify

/-!
Members by name. A query begins with a text and the indexes of a row with ids, so a member is found
under its name because the name is still in the table, under the id that the row knows.
-/
namespace TypeCatalog

namespace Row

variable {row : Row} {names : Interner}

/-- In a held row a name that is found by its text is the one that a member carries. -/
theorem HeldIn.id_eq_iff (held : row.HeldIn names) {text : String}
    {id : NameId} (found : names.find? text = some id) {name : Name} (listed : name ∈ row.names) :
    name.id = id ↔ name.text = text := by
  have own := (held.held name listed).find?
  constructor
  · intro same
    obtain ⟨entry, there, texts, _⟩ := held.held name listed
    obtain ⟨entry', there', texts'⟩ := Interner.entryAt?_of_find? found
    rw [same] at there
    cases Option.some.inj (there.symm.trans there')
    exact texts.symm.trans texts'
  · intro same
    rw [same, found] at own
    exact (Option.some.inj own).symm

theorem HeldIn.nodup_texts (held : row.HeldIn names) {members : List Name}
    (listed : ∀ name ∈ members, name ∈ row.names) (distinct : (members.map Name.id).Nodup) :
    (members.map Name.text).Nodup := by
  rw [List.nodup_map_iff_inj_on (List.Nodup.of_map Name.id distinct)]
  intro a first b second same
  exact (held.held a (listed a first)).eq_of_text (held.held b (listed b second)) same

end Row

namespace Registry

variable {r : Registry} {h : TypeHandle} {row : Row}

theorem RowsHeld.of_row? (held : r.RowsHeld) (found : r.row? h = some row) :
    row.HeldIn r.names := by
  have alive := (Option.filter_eq_some_iff.mp found).1
  exact held h.slot.index row (SlotTable.get?_eq_some_iff.mp alive).1

theorem fieldNamed?_of_field (held : r.RowsHeld) (found : r.row? h = some row) {p : Nat}
    {f : Field} (present : row.fields[p]? = some f) :
    r.fieldNamed? h f.name.text = some (h.member p) := by
  have own := held.of_row? found
  have known := (own.held _ (Row.name_of_field (List.mem_of_getElem? present))).find?
  have position : row.fieldPosition? f.name.id = some p :=
    (own.sound.fields.find?_iff f.name.id p).mpr (by simp [present])
  simp [fieldNamed?, known, found, position]

theorem propertyNamed?_of_property (held : r.RowsHeld) (found : r.row? h = some row) {p : Nat}
    {f : Property} (present : row.properties[p]? = some f) :
    r.propertyNamed? h f.name.text = some (h.member p) := by
  have own := held.of_row? found
  have known := (own.held _ (Row.name_of_property (List.mem_of_getElem? present))).find?
  have position : row.propertyPosition? f.name.id = some p :=
    (own.sound.properties.find?_iff f.name.id p).mpr (by simp [present])
  simp [propertyNamed?, known, found, position]

/-- The positions of the methods of a name, in ascending order. -/
def methodPositions (row : Row) (text : String) : List Nat :=
  (List.range row.methods.length).filter fun p => row.methods[p]?.any (·.name.text = text)

/-- A name that is not in the table is the name of no method. -/
theorem methodPositions_eq_nil (held : r.RowsHeld) (found : r.row? h = some row) {text : String}
    (unknown : r.names.find? text = none) : methodPositions row text = [] := by
  have own := held.of_row? found
  rw [methodPositions, List.filter_eq_nil_iff]
  intro p _
  cases present : row.methods[p]? with
  | none => simp
  | some m =>
    have there := (own.held _ (Row.name_of_method (List.mem_of_getElem? present))).find?
    have differs : m.name.text ≠ text := by
      intro same
      rw [same, unknown] at there
      contradiction
    simp [differs]

theorem overloads_eq_methodPositions (held : r.RowsHeld) (found : r.row? h = some row)
    {text : String} {id : NameId} (known : r.names.find? text = some id) :
    row.overloads id = methodPositions row text := by
  have own := held.of_row? found
  rw [Row.overloads, own.sound.methods.find?_eq, List.length_map, methodPositions]
  refine List.filter_congr fun p _ => ?_
  cases present : row.methods[p]? with
  | none => simp [present]
  | some m =>
    have same := own.id_eq_iff known (Row.name_of_method (List.mem_of_getElem? present))
    simp [present, same]

theorem methodsNamed_eq (held : r.RowsHeld) (found : r.row? h = some row) (text : String) :
    r.methodsNamed h text = (methodPositions row text).map h.member := by
  unfold methodsNamed
  cases known : r.names.find? text with
  | none => simp [methodPositions_eq_nil held found known]
  | some id => simp [found, overloads_eq_methodPositions held found known]

/-- In a held row no two fields, properties or alternatives have one text. -/
theorem nodup_texts (held : r.RowsHeld) (found : r.row? h = some row) :
    (row.fields.map (·.name.text)).Nodup ∧ (row.properties.map (·.name.text)).Nodup ∧
      (row.enumValues.map (·.name.text)).Nodup := by
  have own := held.of_row? found
  have texts : ∀ members : List Name, (∀ name ∈ members, name ∈ row.names) →
      (members.map Name.id).Nodup → (members.map Name.text).Nodup :=
    fun _ listed distinct => own.nodup_texts listed distinct
  refine ⟨?_, ?_, ?_⟩
  · have distinct := own.sound.fields.nodup
    rw [← Function.comp_def Name.id, ← List.map_map] at distinct
    rw [← Function.comp_def Name.text, ← List.map_map]
    exact texts _ (fun name listed => by simp [Row.names, listed]) distinct
  · have distinct := own.sound.properties.nodup
    rw [← Function.comp_def Name.id, ← List.map_map] at distinct
    rw [← Function.comp_def Name.text, ← List.map_map]
    exact texts _ (fun name listed => by simp [Row.names, listed]) distinct
  · have listed : ∀ name ∈ row.enumValues.map EnumValue.name, name ∈ row.names :=
      fun name member => by simp [Row.names, member]
    rw [← Function.comp_def Name.text, ← List.map_map]
    rw [List.nodup_map_iff_inj_on own.sound.enumValues]
    intro a first b second same
    exact (own.held a (listed a first)).eq_of_text (own.held b (listed b second)) same

theorem overflow?_eq_none (sound : row.Sound) : overflow? row = none := by
  have fits : ∀ {positions : List Nat} {length : Nat}, (∀ p ∈ positions, p < length) →
      positions.find? (length ≤ ·) = none := by
    intro positions length below
    rw [List.find?_eq_none]
    intro p listed
    simpa using below p listed
  have fields := sound.fields.within
  have properties := sound.properties.within
  have methods := sound.methods.within
  rw [List.length_map] at fields properties methods
  simp [overflow?, fits fields, fits properties, fits methods]

theorem verify_ok (held : r.RowsHeld) : r.verify = .ok () := by
  unfold verify
  split
  · rename_i found
    obtain ⟨⟨h, row⟩, listed, here⟩ := List.exists_of_findSome?_eq_some found
    have none : overflow? row = none :=
      overflow?_eq_none (held.of_row? (mem_publishedRows.mp listed)).sound
    exact absurd (none.symm.trans here) nofun
  · rfl

end Registry

namespace Catalog

variable {u : Universe} {c : Catalog}

/-- In every published row of every state, fields and properties are found by their texts exactly
where they are, and the methods of a text are the ones so named, in ascending order; no two fields,
properties or alternatives have one text; and the member indexes pass their check. -/
theorem members_found_by_name (attained : Attained u c) (n : Nat) :
    let r := c.registry n
    (∀ h row, r.row? h = some row →
      (∀ p f, row.fields[p]? = some f → r.fieldNamed? h f.name.text = some (h.member p)) ∧
      (∀ p f, row.properties[p]? = some f →
        r.propertyNamed? h f.name.text = some (h.member p)) ∧
      (∀ text, r.methodsNamed h text = (Registry.methodPositions row text).map h.member) ∧
      (row.fields.map (·.name.text)).Nodup ∧ (row.properties.map (·.name.text)).Nodup ∧
      (row.enumValues.map (·.name.text)).Nodup) ∧
    r.verify = .ok () := by
  obtain ⟨ended, kept⟩ := attained.kept
  have held := kept.rows n
  refine ⟨fun h row found => ⟨?_, ?_, ?_, Registry.nodup_texts held found⟩,
    Registry.verify_ok held⟩
  · exact fun p f present => Registry.fieldNamed?_of_field held found present
  · exact fun p f present => Registry.propertyNamed?_of_property held found present
  · exact Registry.methodsNamed_eq held found

/-- The run that makes a registry and describes a type with one field in it. -/
theorem one_field_run (offset : Option UInt64) :
    let u := Gallery.knownTypes
    let type := TypeKey.user "A"
    let accessor : Accessor := ⟨0, ⟨type, .primitive .bool, .whole⟩⟩
    ∃ c name, Relation.ReflTransGen (fun a b => QuietStep u a b ∧ a.Annotates b) {} c ∧
      c.passes = [] ∧ name.text = "x" ∧ c.exports = .empty ∧ c.registries.length = 1 ∧
      (c.registry 0).types = ⟨[⟨0, some ((Registry.skeletonRow {} u type ⟨1⟩).publish
        { fields := [⟨name, u.hash (.primitive .bool), offset, accessor, []⟩] })⟩], []⟩ := by
  intro u type accessor
  let empty : Catalog := { registries := [{}] }
  let p := empty.firstPass u 0 type ⟨1⟩
  let begun : Catalog := { empty.change 0 (.skeleton u type ⟨1⟩) with passes := [p] }
  -- The name stays a variable, so that nothing below evaluates the table of names.
  obtain ⟨name, isName⟩ : ∃ name, ((begun.registry 0).intern "x" ⟨1⟩).1 = name := ⟨_, rfl⟩
  let q : OpenPass := { p with names := [name] }
  let named : Catalog := { begun.change 0 (.intern "x" ⟨1⟩) with passes := [q] }
  let s : OpenPass := { q with made := [.accessor accessor] }
  let made : Catalog := { named with nextNumber := 1, passes := [s] }
  let draft : Draft := { fields := [⟨name, u.hash (.primitive .bool), offset, accessor, []⟩] }
  let c : Catalog := { made.change 0 (.commit ⟨0, 0⟩ draft) with passes := [] }
  let Run (a b : Catalog) : Prop := QuietStep u a b ∧ a.Annotates b
  have quiet : ∀ {a b : Catalog}, Move u a b → a.passes.length ≤ b.passes.length → Run a b :=
    fun move open_ => ⟨.move move, move.collects open_⟩
  have first : Run {} empty := quiet (.create {}) (Nat.le_refl _)
  have second : Run empty begun := quiet (.register ⟨1⟩ (by decide) rfl) (Nat.le_succ _)
  have third : Run begun named := by
    subst isName
    exact quiet (.enter (p := p) rfl "x") (Nat.le_refl _)
  have fourth : Run named made :=
    quiet (.make (p := q) rfl (e := .accessor accessor) rfl) (Nat.le_refl _)
  have collected : draft.MadeOf s :=
    ⟨by simp [draft, Draft.names, s, q], by simp [draft, s], by simp [draft], by simp [draft]⟩
  have noted : draft.Noted (· ∈ s.names) := by constructor <;> simp [draft]
  have fifth : Run made c :=
    ⟨.move (.commit (p := s) rfl collected), collects_commit (p := s) rfl collected noted⟩
  have run : Relation.ReflTransGen Run {} c :=
    ((((Relation.ReflTransGen.single first).tail second).tail third).tail fourth).tail fifth
  have texts : ∀ r : Registry, (r.intern "x" ⟨1⟩).1.text = "x" :=
    fun r => Interner.intern_text r.names "x" ⟨1⟩
  have text : name.text = "x" := by rw [← isName, texts]
  have entered : ∀ r : Registry, (r.intern "x" ⟨1⟩).2.types = r.types := fun _ => rfl
  have after : c.registry 0 = ((begun.registry 0).intern "x" ⟨1⟩).2.commit ⟨0, 0⟩ draft := by
    have first := registry_change begun 0 (.intern "x" ⟨1⟩) 0
    have second := registry_change made 0 (.commit ⟨0, 0⟩ draft) 0
    rw [if_pos ⟨rfl, Nat.one_pos⟩] at first second
    exact second.trans (congrArg (fun r => r.commit ⟨0, 0⟩ draft) first)
  have alive : ((begun.registry 0).intern "x" ⟨1⟩).2.anyRow? ⟨0, 0⟩ =
      some (Registry.skeletonRow {} u type ⟨1⟩) := by
    rw [Registry.anyRow?, entered]
    rfl
  refine ⟨c, name, run, rfl, text, rfl, rfl, ?_⟩
  rw [after, Registry.types_commit alive, entered]
  rfl

/-- A type is described with one field in it. -/
theorem one_field_described (offset : Option UInt64) :
    let u := Gallery.knownTypes
    let type := TypeKey.user "A"
    let accessor : Accessor := ⟨0, ⟨type, .primitive .bool, .whole⟩⟩
    ∃ c name, Attained u c ∧ name.text = "x" ∧ c.exports = .empty ∧ c.registries.length = 1 ∧
      (c.registry 0).types = ⟨[⟨0, some ((Registry.skeletonRow {} u type ⟨1⟩).publish
        { fields := [⟨name, u.hash (.primitive .bool), offset, accessor, []⟩] })⟩], []⟩ := by
  intro u type accessor
  obtain ⟨c, name, run, -, others⟩ := one_field_run offset
  exact ⟨c, name, .quiet (Relation.ReflTransGen.mono (fun _ _ => And.left) _ _ run), others⟩

/-- A type is described with one field, which is then found by its name. -/
theorem described_field_found :
    let u := Gallery.knownTypes
    let h : TypeHandle := ⟨0, 0⟩
    ∃ c, Attained u c ∧
      (c.registry 0).fieldNamed? h "x" = some (h.member 0) ∧ (c.registry 0).verify = .ok () := by
  intro u h
  obtain ⟨c, name, attained, text, _, _, types⟩ := one_field_described none
  have members := members_found_by_name attained 0
  have published : (c.registry 0).row? h = some ((Registry.skeletonRow {} u (.user "A") ⟨1⟩).publish
      { fields := [⟨name, u.hash (.primitive .bool), none,
        ⟨0, ⟨.user "A", .primitive .bool, .whole⟩⟩, []⟩] }) := by
    rw [Registry.row?, Registry.anyRow?, types]
    rfl
  have found := (members.1 h _ published).1 0 _ rfl
  rw [text] at found
  exact ⟨c, attained, found, members.2⟩

end Catalog

end TypeCatalog
