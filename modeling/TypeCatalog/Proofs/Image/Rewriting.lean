import TypeCatalog.Proofs.Image.Restoring

/-!
What is written of rows. Sections take from a row just what is read of it again, so rows of which
the same is read are written alike. And when everything that a row needs has its slot already,
writing the row again uses these slots and adds none.
-/
namespace TypeCatalog.Image

theorem getD_filter_unknownOffset (offset : Option UInt64) :
    (offset.filter (· ≠ unknownOffset)).getD unknownOffset = offset.getD unknownOffset := by
  cases offset with
  | none => rfl
  | some value => by_cases last : value = unknownOffset <;> simp [Option.filter_some, last]

theorem length_of_views {α β : Type} {view : α → β} {as bs : List α}
    (views : as.map view = bs.map view) : as.length = bs.length := by
  rw [← List.length_map view, views, List.length_map]

/-- Steps that take no more than a view of each item lead to one end from items with one view. -/
theorem foldl_of_view {σ α β : Type} {step : σ → α → σ} {view : α → β}
    (same : ∀ s a b, view a = view b → step s a = step s b) {as bs : List α}
    (views : as.map view = bs.map view) (s : σ) : as.foldl step s = bs.foldl step s := by
  induction as generalizing s bs with
  | nil =>
    cases bs with
    | nil => rfl
    | cons => contradiction
  | cons a as ih =>
    cases bs with
    | nil => contradiction
    | cons b bs =>
      obtain ⟨first, rest⟩ := List.cons.inj views
      rw [List.foldl_cons, List.foldl_cons, same s a b first]
      exact ih rest _

namespace Sections

variable {s : Sections}

theorem addAttribute_of_read (s : Sections) (a b : Attribute)
    (same : ReadAttribute.of a = ReadAttribute.of b) : s.addAttribute a = s.addAttribute b := by
  obtain ⟨key, value⟩ := ReadAttribute.mk.inj same
  rw [addAttribute, addAttribute, key, value]

theorem addAttributes_of_read {as bs : List Attribute}
    (same : as.map ReadAttribute.of = bs.map ReadAttribute.of) (s : Sections) :
    s.addAttributes as = s.addAttributes bs := by
  rw [addAttributes, addAttributes, length_of_views same,
    foldl_of_view addAttribute_of_read same]

theorem addField_of_read (s : Sections) (f g : Field)
    (same : (ReadField.of f).stored = (ReadField.of g).stored) : s.addField f = s.addField g := by
  obtain ⟨name, type, offset, accessor, attributes⟩ := ReadField.mk.inj same
  have offsets : f.offset.getD unknownOffset = g.offset.getD unknownOffset := by
    rw [← getD_filter_unknownOffset f.offset, ← getD_filter_unknownOffset g.offset]
    exact congrArg (·.getD unknownOffset) offset
  simp only [ReadField.of] at name type accessor attributes
  simp only [addField, name, type, offsets, accessor, addAttributes_of_read attributes]

theorem addMethod_of_read (s : Sections) (m n : Method)
    (same : ReadMethod.of m = ReadMethod.of n) : s.addMethod m = s.addMethod n := by
  obtain ⟨name, params, returnType, signature, flags, callable, attributes⟩ :=
    ReadMethod.mk.inj same
  simp only [addMethod, name, params, returnType, signature, flags, callable,
    addAttributes_of_read attributes]

theorem addConstructor_of_read (s : Sections) (c d : Constructor)
    (same : ReadConstructor.of c = ReadConstructor.of d) :
    s.addConstructor c = s.addConstructor d := by
  obtain ⟨params, signature, callable, attributes⟩ := ReadConstructor.mk.inj same
  simp only [addConstructor, params, signature, callable, addAttributes_of_read attributes]

/-- Rows of which the same is read are written alike. -/
theorem addType_of_read (s : Sections) (a b : Row) (same : ReadType.of a = ReadType.of b) :
    s.addType a = s.addType b := by
  obtain ⟨name, typeHash, owner, size, align, flags, fields, methods, constructors, attributes⟩ :=
    ReadType.mk.inj same
  simp only [addType, name, typeHash, owner, size, align, flags, length_of_views fields,
    length_of_views methods, length_of_views constructors, foldl_of_view addField_of_read fields,
    foldl_of_view addMethod_of_read methods, foldl_of_view addConstructor_of_read constructors,
    addAttributes_of_read attributes]

theorem ofRows_of_read {as bs : List Row} (same : as.map ReadType.of = bs.map ReadType.of)
    (exports : ExportTable) : ofRows exports as = ofRows exports bs :=
  foldl_of_view addType_of_read same _

end Sections

/-- What has been given a slot has it in any later table too. -/
theorem slotOf_later {t later : ExportTable} {e : Exported}
    (slots : (t.slotOf e).2.entries <+: later.entries) :
    later.slotOf e = ((t.slotOf e).1, later) := by
  obtain ⟨rest, more⟩ := slots
  have there : later.entries.findIdx? (·.number = e.number) =
      some ((t.entries.findIdx? (·.number = e.number)).getD t.entries.length) := by
    rw [← more, ExportTable.slotOf]
    cases found : t.entries.findIdx? (·.number = e.number) with
    | some position => simp [List.findIdx?_append, found]
    | none => simp [List.findIdx?_append, List.findIdx?_cons, found]
  rw [ExportTable.slotOf, there, ExportTable.slotOf]
  cases t.entries.findIdx? (·.number = e.number) <;> rfl

theorem slotOf_grows (t : ExportTable) (e : Exported) :
    t.entries <+: (t.slotOf e).2.entries := by
  unfold ExportTable.slotOf
  split
  · exact List.prefix_rfl
  · exact List.prefix_append _ _

namespace Sections

def withExports (s : Sections) (exports : ExportTable) : Sections := { s with exports }

/-- A step that only adds slots, and that adds none where all its slots are there already. -/
structure Replays (step : Sections → Sections) : Prop where
  grows : ∀ s, s.exports.entries <+: (step s).exports.entries
  again : ∀ s later, (step s).exports.entries <+: later.entries →
    step (s.withExports later) = (step s).withExports later

namespace Replays

variable {first second : Sections → Sections}

theorem comp (one : Replays first) (two : Replays second) : Replays (second ∘ first) where
  grows s := (one.grows s).trans (two.grows (first s))
  again s later slots := by
    have between : (first s).exports.entries <+: later.entries := (two.grows _).trans slots
    rw [Function.comp_apply, one.again s later between, two.again _ later slots]
    rfl

theorem foldl {α : Type} {step : Sections → α → Sections} (all : ∀ x, Replays (step · x))
    (xs : List α) : Replays (xs.foldl step) := by
  induction xs with
  | nil => exact ⟨fun _ => List.prefix_rfl, fun _ _ _ => rfl⟩
  | cons x xs ih => exact (all x).comp ih

end Replays

theorem addAttribute_later (s : Sections) (later : ExportTable) (a : Attribute) :
    (s.withExports later).addAttribute a = (s.addAttribute a).withExports later := by
  obtain ⟨key, value⟩ := a
  cases value <;> rfl

theorem addAttributes_later (s : Sections) (later : ExportTable) (attributes : List Attribute) :
    (s.withExports later).addAttributes attributes =
      ((s.addAttributes attributes).1, (s.addAttributes attributes).2.withExports later) := by
  have folded : attributes.foldl addAttribute (s.withExports later) =
      (attributes.foldl addAttribute s).withExports later := by
    induction attributes generalizing s with
    | nil => rfl
    | cons a rest ih => rw [List.foldl_cons, addAttribute_later, ih, List.foldl_cons]
  rw [addAttributes, folded]
  rfl

theorem slotOf_withExports {s : Sections} {later : ExportTable} {e : Exported}
    (slots : (s.slotOf e).2.exports.entries <+: later.entries) :
    (s.withExports later).slotOf e = ((s.slotOf e).1, (s.slotOf e).2.withExports later) := by
  have there : later.slotOf e = ((s.exports.slotOf e).1, later) := slotOf_later slots
  simp only [slotOf, withExports, there]

theorem replays_addAttributes (attributes : List Attribute) :
    Replays fun s => (s.addAttributes attributes).2 where
  grows s := by
    have kept := congrArg (·.2.exports) (addAttributes_later s s.exports attributes)
    exact kept ▸ List.prefix_rfl
  again s later _ := congrArg Prod.snd (addAttributes_later s later attributes)

theorem addText_later (s : Sections) (later : ExportTable) (text : String) :
    (s.withExports later).addText text =
      ((s.addText text).1, (s.addText text).2.withExports later) := rfl

theorem addParams_later (s : Sections) (later : ExportTable) (params : List TypeHash) :
    (s.withExports later).addParams params =
      ((s.addParams params).1, (s.addParams params).2.withExports later) := rfl

theorem replays_addField (f : Field) : Replays (addField · f) where
  grows s := ((replays_addAttributes f.attributes).grows (s.addText f.name.text).2).trans
    (slotOf_grows _ _)
  again s later slots := by
    have slot := slotOf_withExports (e := .accessor f.accessor)
      (s := ((s.addText f.name.text).2.addAttributes f.attributes).2) slots
    simp only [addField, addText_later, addAttributes_later, slot]
    rfl

theorem replays_addMethod (m : Method) : Replays (addMethod · m) where
  grows s := ((replays_addAttributes m.attributes).grows
    ((s.addText m.name.text).2.addParams m.params).2).trans (slotOf_grows _ _)
  again s later slots := by
    have slot := slotOf_withExports (e := .callable m.callable)
      (s := (((s.addText m.name.text).2.addParams m.params).2.addAttributes m.attributes).2) slots
    simp only [addMethod, addText_later, addParams_later, addAttributes_later, slot]
    rfl

theorem replays_addConstructor (c : Constructor) : Replays (addConstructor · c) where
  grows s := ((replays_addAttributes c.attributes).grows (s.addParams c.params).2).trans
    (slotOf_grows _ _)
  again s later slots := by
    have slot := slotOf_withExports (e := .callable c.callable)
      (s := ((s.addParams c.params).2.addAttributes c.attributes).2) slots
    simp only [addConstructor, addParams_later, addAttributes_later, slot]
    rfl

theorem replays_addType (row : Row) : Replays (addType · row) := by
  have fields := Replays.foldl replays_addField row.fields
  have methods := Replays.foldl replays_addMethod row.methods
  have constructors := Replays.foldl replays_addConstructor row.constructors
  have attributes := replays_addAttributes row.attributes
  refine ⟨fun s => ?_, fun s later slots => ?_⟩
  · have members := ((fields.comp methods).comp constructors).comp attributes
    exact members.grows (s.addText row.name.text).2
  · let a := (s.addText row.name.text).2
    let b := row.fields.foldl addField a
    let c := row.methods.foldl addMethod b
    let d := row.constructors.foldl addConstructor c
    -- What has its slot at the end has it after every part.
    have inLast : d.exports.entries <+: later.entries := (attributes.grows d).trans slots
    have inThird : c.exports.entries <+: later.entries := (constructors.grows c).trans inLast
    have inSecond : b.exports.entries <+: later.entries := (methods.grows b).trans inThird
    have afterFields := fields.again a later inSecond
    have afterMethods := methods.again b later inThird
    have afterConstructors := constructors.again c later inLast
    simp only [addType, addText_later, afterFields, afterMethods, afterConstructors,
      addAttributes_later, a, b, c]
    rfl

/-- Rows that have all been written are written again as they were, without a new slot. -/
theorem ofRows_later {exports later : ExportTable} {rows : List Row}
    (slots : (ofRows exports rows).exports.entries <+: later.entries) :
    ofRows later rows = (ofRows exports rows).withExports later :=
  (Replays.foldl replays_addType rows).again { exports } later slots

end Sections

end TypeCatalog.Image
